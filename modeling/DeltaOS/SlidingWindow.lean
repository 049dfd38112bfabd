import Mathlib

namespace DeltaOS.SlidingWindow

variable {α β : Type*} {cap : Nat}

/-- Append to a list that keeps at most `cap` entries: a full list loses its first entry. -/
def push (cap : Nat) (l : List α) (a : α) : List α := (if l.length ≥ cap then l.tail else l) ++ [a]

/-- The last entries of a list, at most `cap`. -/
def window (cap : Nat) (l : List α) : List α := l.drop (l.length - cap)

theorem length_window (cap : Nat) (l : List α) : (window cap l).length = min l.length cap := by
  rw [window, List.length_drop]
  omega

theorem map_window (f : α → β) (cap : Nat) (l : List α) :
    (window cap l).map f = window cap (l.map f) := by
  rw [window, window, List.map_drop, List.length_map]

theorem push_window (hcap : 0 < cap) (l : List α) (a : α) :
    push cap (window cap l) a = window cap (l ++ [a]) := by
  have hlen := length_window cap l
  have hconcat : window cap (l ++ [a]) = l.drop (l.length + 1 - cap) ++ [a] := by
    rw [window, List.length_append, List.length_singleton, List.drop_append_of_le_length (by omega)]
  rw [push, hconcat, hlen]
  split_ifs with hfull
  · have hfirst : l.length - cap + 1 = l.length + 1 - cap := by omega
    rw [window, List.tail_drop, hfirst]
  · have hnone : l.length - cap = l.length + 1 - cap := by omega
    rw [window, hnone]

end DeltaOS.SlidingWindow
