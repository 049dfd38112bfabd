import Mathlib

namespace DeltaOS.RingBuffer

variable {α : Type*} {n head tail : Nat} (buffer : Nat → α)

def unread (n head tail : Nat) : Nat := (head + n - tail) % n

def contents (n : Nat) (buffer : Nat → α) (head tail : Nat) : List α :=
  (List.range (unread n head tail)).map fun i => buffer ((tail + i) % n)

theorem length_contents (n head tail : Nat) :
    (contents n buffer head tail).length = unread n head tail := by
  rw [contents, List.length_map, List.length_range]

theorem add_mod_eq (hhead : head < n) (htail : tail < n) :
    (head + tail) % n = if head + tail < n then head + tail else head + tail - n := by
  split_ifs with hlt
  · exact Nat.mod_eq_of_lt hlt
  · rw [Nat.mod_eq_sub_mod (not_lt.mp hlt), Nat.mod_eq_of_lt (by omega)]

theorem unread_eq (hhead : head < n) (htail : tail < n) :
    unread n head tail = if tail ≤ head then head - tail else head + n - tail := by
  rw [unread]
  split_ifs with hle
  · rw [Nat.sub_add_comm hle, Nat.add_mod_right, Nat.mod_eq_of_lt (by omega)]
  · rw [Nat.mod_eq_of_lt (by omega)]

theorem next_eq (hhead : head < n) : (head + 1) % n = if head + 1 = n then 0 else head + 1 := by
  split_ifs with hend
  · rw [hend, Nat.mod_self]
  · rw [Nat.mod_eq_of_lt (by omega)]

theorem next_lt (hhead : head < n) : (head + 1) % n < n := Nat.mod_lt _ (by omega)

theorem unread_eq_zero_iff (hhead : head < n) (htail : tail < n) :
    unread n head tail = 0 ↔ head = tail := by
  rw [unread_eq hhead htail]
  split_ifs <;> omega

theorem full_iff (hhead : head < n) (htail : tail < n) :
    (head + 1) % n = tail ↔ unread n head tail + 1 = n := by
  rw [unread_eq hhead htail, next_eq hhead]
  split_ifs <;> omega

theorem contents_eq_nil_iff (hhead : head < n) (htail : tail < n) :
    contents n buffer head tail = [] ↔ head = tail := by
  rw [← List.length_eq_zero_iff, length_contents, unread_eq_zero_iff hhead htail]

theorem unread_put (hhead : head < n) (htail : tail < n) (hroom : (head + 1) % n ≠ tail) :
    unread n ((head + 1) % n) tail = unread n head tail + 1 := by
  rw [unread_eq (next_lt hhead) htail, unread_eq hhead htail]
  rw [next_eq hhead] at hroom ⊢
  split_ifs at hroom ⊢ <;> omega

theorem unread_get (hhead : head < n) (htail : tail < n) (hne : head ≠ tail) :
    unread n head tail = unread n head ((tail + 1) % n) + 1 := by
  rw [unread_eq hhead (next_lt htail), unread_eq hhead htail, next_eq htail]
  split_ifs <;> omega

theorem index_head (hhead : head < n) (htail : tail < n) : (tail + unread n head tail) % n = head := by
  have hlt : unread n head tail < n := Nat.mod_lt _ (by omega)
  rw [add_mod_eq htail hlt, unread_eq hhead htail]
  split_ifs <;> omega

theorem index_ne_head (hhead : head < n) (htail : tail < n) {i : Nat} (hi : i < unread n head tail) :
    (tail + i) % n ≠ head := by
  have hlt : unread n head tail < n := Nat.mod_lt _ (by omega)
  rw [add_mod_eq htail (by omega)]
  rw [unread_eq hhead htail] at hi
  split_ifs at hi ⊢ <;> omega

theorem contents_put (hhead : head < n) (htail : tail < n) (hroom : (head + 1) % n ≠ tail) (a : α) :
    contents n (Function.update buffer head a) ((head + 1) % n) tail =
      contents n buffer head tail ++ [a] := by
  rw [contents, unread_put hhead htail hroom, List.range_succ, List.map_append, List.map_singleton,
    index_head hhead htail, Function.update_self]
  congr 1
  apply List.map_congr_left
  intro i hi
  exact Function.update_of_ne (index_ne_head hhead htail (List.mem_range.mp hi)) _ _

theorem contents_get (hhead : head < n) (htail : tail < n) (hne : head ≠ tail) :
    contents n buffer head tail = buffer tail :: contents n buffer head ((tail + 1) % n) := by
  rw [contents, unread_get hhead htail hne, List.range_succ_eq_map, List.map_cons,
    List.map_map, Nat.add_zero, Nat.mod_eq_of_lt htail]
  congr 1
  apply List.map_congr_left
  intro i _
  rw [Function.comp_apply, Nat.mod_add_mod, Nat.succ_eq_add_one, Nat.add_assoc, Nat.add_comm 1]

end DeltaOS.RingBuffer
