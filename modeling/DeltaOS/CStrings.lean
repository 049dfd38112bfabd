import DeltaOS.ByteMemory

namespace DeltaOS.CStrings

/-- The bytes of a buffer by their indices. Those behind its end are not accessed. -/
abbrev Buffer := Nat → Byte

variable {n i start : Nat} {b : Buffer} {c : Byte} {s : List Byte}

/-- A read in a buffer of `n` bytes. -/
def load (n : Nat) (b : Buffer) (i : Nat) : Option Byte := if i < n then some (b i) else none

def store (n : Nat) (b : Buffer) (i : Nat) (c : Byte) : Option Buffer :=
  if i < n then some (Function.update b i c) else none

def text (n : Nat) (b : Buffer) (start : Nat) : List Byte :=
  ((List.range' start (n - start)).map b).takeWhile (· ≠ 0)

def Terminated (n : Nat) (b : Buffer) (start : Nat) : Prop := ∃ i, start ≤ i ∧ i < n ∧ b i = 0

/-- A loop that moves a pointer on until it is at a byte where it stops. -/
def scan (stop : Byte → Bool) (n : Nat) (b : Buffer) : Nat → Nat → Option Nat
  | 0, _ => none
  | fuel + 1, i => do
    let c ← load n b i
    if stop c then some i else scan stop n b fuel (i + 1)

theorem load_eq (h : i < n) : load n b i = some (b i) := if_pos h

theorem store_eq (h : i < n) : store n b i c = some (Function.update b i c) := if_pos h

theorem text_of_zero (h : b start = 0) : text n b start = [] := by
  rw [text]
  cases hn : n - start with
  | zero => rfl
  | succ k => rw [List.range'_succ, List.map_cons, List.takeWhile_cons_of_neg (by simp [h])]

theorem text_of_ne (hlt : start < n) (h : b start ≠ 0) :
    text n b start = b start :: text n b (start + 1) := by
  obtain ⟨k, hk⟩ : ∃ k, n - start = k + 1 := ⟨n - start - 1, by omega⟩
  rw [text, hk, List.range'_succ, List.map_cons, List.takeWhile_cons_of_pos (by simpa using h), text,
    show n - (start + 1) = k by omega]

theorem text_eq (hlen : start + s.length < n) (hs : ∀ i < s.length, b (start + i) = s.getD i 0)
    (hzero : 0 ∉ s) (hend : b (start + s.length) = 0) : text n b start = s := by
  induction s generalizing start with
  | nil => exact text_of_zero hend
  | cons c s ih =>
    have hfirst : b start = c := hs 0 (Nat.zero_lt_succ _)
    have hne : b start ≠ 0 := fun h0 => hzero (by rw [← hfirst, h0]; exact List.mem_cons_self)
    rw [List.length_cons] at hlen hend
    rw [text_of_ne (by omega) hne, hfirst]
    congr 1
    apply ih (by omega)
    · intro i hi
      rw [Nat.add_assoc, Nat.add_comm 1 i]
      exact hs (i + 1) (Nat.succ_lt_succ hi)
    · exact fun hmem => hzero (List.mem_cons_of_mem c hmem)
    · rw [Nat.add_assoc, Nat.add_comm 1]
      exact hend

theorem scan_first (stop : Byte → Bool) (fuel : Nat) {last : Nat} (hle : i ≤ last) (hlast : last < n)
    (hstop : stop (b last)) (hfuel : last - i < fuel) :
    ∃ j, scan stop n b fuel i = some j ∧ i ≤ j ∧ j ≤ last ∧ stop (b j) ∧ ∀ m, i ≤ m → m < j →
      ¬stop (b m) := by
  induction fuel generalizing i with
  | zero => exact absurd hfuel (Nat.not_lt_zero _)
  | succ fuel ih =>
    rw [scan, load_eq (hle.trans_lt hlast)]
    by_cases hi : stop (b i)
    · exact ⟨i, if_pos hi, le_rfl, hle, hi, fun m him hmi => absurd hmi (not_lt.mpr him)⟩
    · have hne : i ≠ last := fun heq => hi (heq ▸ hstop)
      obtain ⟨j, hscan, hij, hj, hstopj, hbefore⟩ := ih (show i + 1 ≤ last by omega) (by omega)
      refine ⟨j, (if_neg hi).trans hscan, Nat.le_of_succ_le hij, hj, hstopj, ?_⟩
      intro m him hmj
      obtain rfl | hlt := Nat.eq_or_lt_of_le him
      · exact hi
      · exact hbefore m hlt hmj

end DeltaOS.CStrings
