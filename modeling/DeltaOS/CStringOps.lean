import DeltaOS.CStrings

namespace DeltaOS.CStrings

/-- A pointer into an array. -/
structure Str where
  size : Nat
  bytes : Buffer
  start : Nat

/-- At the pointer there is a string, with its terminator in the array. -/
structure Str.Is (p : Str) (s : List Byte) : Prop where
  fits : p.start + s.length < p.size
  chars : ∀ i < s.length, p.bytes (p.start + i) = s.getD i 0
  terminator : p.bytes (p.start + s.length) = 0
  ne_zero : 0 ∉ s

def Str.load (p : Str) (i : Nat) : Option Byte := CStrings.load p.size p.bytes (p.start + i)

def Str.take (p : Str) (len : Nat) : Option (List Byte) :=
  if p.start + len ≤ p.size then some ((List.range len).map fun i => p.bytes (p.start + i)) else none

def literal (s : List Byte) : Str := ⟨s.length + 1, fun i => s.getD i 0, 0⟩

def beforeZero (s : List Byte) : List Byte := s.takeWhile (· ≠ 0)

def overlay (b : Buffer) (bytes : List Byte) : Buffer :=
  fun i => if i < bytes.length then bytes.getD i 0 else b i

def strlen (p : Str) : Option Nat :=
  (scan (fun c => decide (c = 0)) p.size p.bytes (p.size + 1) p.start).map (· - p.start)

/-- The loop of `strcmp`, at the `i`-th characters. -/
def compare (p q : Str) : Nat → Nat → Option Int
  | 0, _ => none
  | fuel + 1, i => do
    let a ← p.load i
    let b ← q.load i
    if a ≠ 0 ∧ b ≠ 0 ∧ a = b then compare p q fuel (i + 1) else some (a.toInt - b.toInt)

def strcmp (p q : Str) : Option Int := compare p q (p.size + 1) 0

/-- The loop of `strcpy` and `strcat`, at the `i`-th characters. The arrays are different ones. -/
def copy (src : Str) (n : Nat) (b : Buffer) (start : Nat) : Nat → Nat → Option Buffer
  | 0, _ => none
  | fuel + 1, i => do
    let c ← src.load i
    let b ← store n b (start + i) c
    if c ≠ 0 then copy src n b start fuel (i + 1) else some b

def strcpy (dst src : Str) : Option Buffer := copy src dst.size dst.bytes dst.start (src.size + 1) 0

def strcat (dst src : Str) : Option Buffer := do
  let len ← strlen dst
  copy src dst.size dst.bytes (dst.start + len) (src.size + 1) 0

variable {p q : Str} {s t : List Byte} {i : Nat} {b : Buffer} {n start : Nat}

theorem Str.Is.at (h : p.Is s) (hi : i ≤ s.length) : p.bytes (p.start + i) = s.getD i 0 := by
  obtain hlt | rfl := hi.lt_or_eq
  · exact h.chars i hlt
  · rw [h.terminator, List.getD_eq_default _ _ (Nat.le_refl _)]

theorem Str.Is.load (h : p.Is s) (hi : i ≤ s.length) : p.load i = some (s.getD i 0) := by
  have hfits := h.fits
  rw [Str.load, load_eq (by omega), h.at hi]

theorem Str.Is.getD_eq_zero_iff (h : p.Is s) (hi : i ≤ s.length) : s.getD i 0 = 0 ↔ i = s.length := by
  refine ⟨fun hzero => ?_, fun heq => List.getD_eq_default _ _ heq.ge⟩
  by_contra hne
  have hlt : i < s.length := lt_of_le_of_ne hi hne
  rw [List.getD_eq_getElem _ _ hlt] at hzero
  exact h.ne_zero (hzero ▸ List.getElem_mem hlt)

theorem Str.Is.text_eq (h : p.Is s) : text p.size p.bytes p.start = s :=
  CStrings.text_eq h.fits h.chars h.ne_zero h.terminator

theorem Str.Is.take (h : p.Is s) : p.take s.length = some s := by
  rw [Str.take, if_pos h.fits.le]
  congr 1
  refine List.ext_getElem (by simp) fun i hi hi' => ?_
  rw [List.getElem_map, List.getElem_range, h.chars i hi', List.getD_eq_getElem _ _ hi']

theorem getD_length_beforeZero (s : List Byte) : s.getD (beforeZero s).length 0 = 0 := by
  induction s with
  | nil => rfl
  | cons c s ih =>
    by_cases hc : c = 0
    · rw [beforeZero, List.takeWhile_cons_of_neg (by simpa using hc)]
      exact hc
    · rw [beforeZero, List.takeWhile_cons_of_pos (by simpa using hc)]
      exact ih

theorem getD_beforeZero (hi : i < (beforeZero s).length) : (beforeZero s).getD i 0 = s.getD i 0 := by
  have hpre : beforeZero s <+: s := List.takeWhile_prefix _
  rw [List.getD_eq_getElem _ _ hi, List.getD_eq_getElem _ _ (hi.trans_le hpre.length_le)]
  exact List.IsPrefix.getElem hpre hi

theorem zero_notMem_beforeZero (s : List Byte) : 0 ∉ beforeZero s := by
  intro hmem
  have hne := List.mem_takeWhile_imp hmem
  simp at hne

theorem length_beforeZero_le (s : List Byte) : (beforeZero s).length ≤ s.length :=
  (List.takeWhile_prefix _).length_le

theorem length_beforeZero_lt (h : 0 ∈ s) : (beforeZero s).length < s.length := by
  refine (length_beforeZero_le s).lt_of_ne fun heq => zero_notMem_beforeZero s ?_
  have hpre : beforeZero s <+: s := List.takeWhile_prefix _
  rwa [hpre.eq_of_length heq]

theorem is_beforeZero (hfits : p.start + (beforeZero s).length < p.size)
    (h : ∀ i ≤ (beforeZero s).length, p.bytes (p.start + i) = s.getD i 0) : p.Is (beforeZero s) :=
  ⟨hfits, fun i hi => (h i hi.le).trans (getD_beforeZero hi).symm,
    (h _ (Nat.le_refl _)).trans (getD_length_beforeZero s), zero_notMem_beforeZero s⟩

theorem literal_is (s : List Byte) : (literal s).Is (beforeZero s) := by
  refine is_beforeZero ?_ fun i _ => ?_
  · rw [literal, Nat.zero_add]
    exact Nat.lt_succ_of_le (length_beforeZero_le s)
  · rw [literal, Nat.zero_add]

theorem text_is (h : start + (text n b start).length < n) : Str.Is ⟨n, b, start⟩ (text n b start) := by
  refine is_beforeZero h fun i hi => ?_
  have hlt : i < n - start := Nat.lt_sub_of_add_lt
    (Nat.add_comm start i ▸ (Nat.add_le_add_left hi start).trans_lt h)
  rw [List.getD_eq_getElem _ _ (by simpa using hlt)]
  simp

theorem overlay_is {bytes : List Byte} (h : 0 ∈ bytes) (hn : bytes.length ≤ n) :
    Str.Is ⟨n, overlay b bytes, 0⟩ (beforeZero bytes) := by
  have hlt := length_beforeZero_lt h
  refine is_beforeZero ?_ fun i hi => ?_
  · rw [Nat.zero_add]
    exact hlt.trans_le hn
  · rw [Nat.zero_add]
    exact if_pos (hi.trans_lt hlt)

theorem overlay_zero_is {bytes : List Byte} (hn : bytes.length < n) :
    Str.Is ⟨n, overlay (fun _ => 0) bytes, 0⟩ (beforeZero bytes) := by
  have hle := length_beforeZero_le bytes
  refine is_beforeZero ?_ fun i hi => ?_
  · rw [Nat.zero_add]
    exact hle.trans_lt hn
  · rw [Nat.zero_add]
    obtain hlt | hge := Nat.lt_or_ge i bytes.length
    · exact if_pos hlt
    · exact (if_neg (not_lt.mpr hge)).trans (List.getD_eq_default _ _ hge).symm

theorem take_overlay {bytes : List Byte} {len : Nat} (h : len ≤ bytes.length) (hn : bytes.length ≤ n) :
    Str.take ⟨n, overlay b bytes, 0⟩ len = some (bytes.take len) := by
  rw [Str.take, if_pos (by rw [Nat.zero_add]; exact h.trans hn)]
  congr 1
  refine List.ext_getElem (by simpa using h) fun i hi hi' => ?_
  have hlt : i < bytes.length := by
    rw [List.length_take] at hi'
    omega
  have hbyte : overlay b bytes i = bytes[i] := (if_pos hlt).trans (List.getD_eq_getElem _ _ hlt)
  rw [List.getElem_map, List.getElem_range, List.getElem_take, Nat.zero_add]
  exact hbyte

theorem nil_is (h : start < n) : Str.Is ⟨n, Function.update b start 0, start⟩ [] :=
  ⟨h, fun _ hi => absurd hi (Nat.not_lt_zero _), Function.update_self _ _ _, List.not_mem_nil⟩

theorem Str.Is.dropLast (h : Str.Is ⟨n, b, start⟩ s) (hpos : 0 < s.length) :
    Str.Is ⟨n, Function.update b (start + (s.length - 1)) 0, start⟩ s.dropLast := by
  have hlen : s.dropLast.length = s.length - 1 := List.length_dropLast
  have hfits : start + s.length < n := h.fits
  refine ⟨?_, ?_, ?_, ?_⟩
  · rw [hlen]
    exact lt_of_le_of_lt (Nat.add_le_add_left (Nat.sub_le _ _) _) hfits
  · intro i hi
    have hi' : i < s.length := by omega
    have hchar : b (start + i) = s.getD i 0 := h.chars i hi'
    have hne : start + i ≠ start + (s.length - 1) := by omega
    rw [List.getD_eq_getElem _ _ hi, List.getElem_dropLast, ← List.getD_eq_getElem s 0 hi', ← hchar]
    exact Function.update_of_ne hne _ _
  · rw [hlen]
    exact Function.update_self _ _ _
  · exact fun hmem => h.ne_zero (List.dropLast_subset s hmem)

theorem strlen_eq (h : p.Is s) : strlen p = some s.length := by
  have hfits := h.fits
  have hzero : decide (p.bytes (p.start + s.length) = 0) = true := decide_eq_true h.terminator
  obtain ⟨j, hscan, hj, hle, hstop, -⟩ :=
    scan_first (fun c => decide (c = 0)) (p.size + 1) (Nat.le_add_right _ _) hfits hzero
    (by omega)
  obtain ⟨i, rfl⟩ := Nat.exists_eq_add_of_le hj
  rw [decide_eq_true_eq, h.at (by omega), h.getD_eq_zero_iff (by omega)] at hstop
  rw [strlen, hscan, Option.map_some, Nat.add_sub_cancel_left, hstop]

theorem compare_eq (h : p.Is s) (h' : q.Is t) (fuel : Nat) (hs : i ≤ s.length) (ht : i ≤ t.length)
    (htake : s.take i = t.take i) (hfuel : s.length - i < fuel) :
    ∃ d, compare p q fuel i = some d ∧ (d = 0 ↔ s = t) := by
  induction fuel generalizing i with
  | zero => exact absurd hfuel (Nat.not_lt_zero _)
  | succ fuel ih =>
    rw [compare, h.load hs, h'.load ht]
    simp only [Option.bind_eq_bind, Option.bind_some, ne_eq, h.getD_eq_zero_iff hs,
      h'.getD_eq_zero_iff ht]
    by_cases hsame : ¬i = s.length ∧ ¬i = t.length ∧ s.getD i 0 = t.getD i 0
    · obtain ⟨hs', ht', hchar⟩ := hsame
      rw [if_pos ⟨hs', ht', hchar⟩]
      have hlt : i < s.length := by omega
      have hlt' : i < t.length := by omega
      refine ih (by omega) (by omega) ?_ (by omega)
      rw [List.take_add_one, List.take_add_one, htake, List.getElem?_eq_getElem hlt,
        List.getElem?_eq_getElem hlt',
        ← List.getD_eq_getElem _ 0 hlt, ← List.getD_eq_getElem _ 0 hlt', hchar]
    · rw [if_neg hsame]
      refine ⟨_, rfl, ?_⟩
      rw [sub_eq_zero, BitVec.toInt_inj]
      refine ⟨fun hchar => ?_, fun heq => by rw [heq]⟩
      -- equal characters end both strings
      have hend : i = s.length ↔ i = t.length := by
        rw [← h.getD_eq_zero_iff hs, ← h'.getD_eq_zero_iff ht, hchar]
      have hlen : i = s.length ∧ i = t.length := by tauto
      rwa [hlen.1, List.take_length, ← hlen.1, hlen.2, List.take_length] at htake

theorem strcmp_eq_zero_iff (h : p.Is s) (h' : q.Is t) : ∃ d, strcmp p q = some d ∧ (d = 0 ↔ s = t) := by
  have hfits := h.fits
  exact compare_eq h h' _ (Nat.zero_le _) (Nat.zero_le _) rfl (by omega)

theorem copy_eq (h : p.Is s) (hfits : start + s.length < n) (fuel : Nat) (hi : i ≤ s.length)
    (hfuel : s.length - i < fuel) (hdone : ∀ j < i, b (start + j) = s.getD j 0) :
    ∃ b', copy p n b start fuel i = some b' ∧ (∀ j ≤ s.length, b' (start + j) = s.getD j 0) ∧
      ∀ j < start, b' j = b j := by
  induction fuel generalizing i b with
  | zero => exact absurd hfuel (Nat.not_lt_zero _)
  | succ fuel ih =>
    have hnext : ∀ j ≤ i, Function.update b (start + i) (s.getD i 0) (start + j) = s.getD j 0 := by
      intro j hj
      obtain rfl | hne := eq_or_ne j i
      · exact Function.update_self _ _ _
      · rw [Function.update_of_ne (by omega)]
        exact hdone j (by omega)
    have hbefore : ∀ j < start, Function.update b (start + i) (s.getD i 0) j = b j :=
      fun j hj => Function.update_of_ne (by omega) _ _
    have hstore : store n b (start + i) (s.getD i 0) = some _ := store_eq (by omega)
    rw [copy, h.load hi]
    simp only [Option.bind_eq_bind, Option.bind_some, hstore]
    by_cases hend : i = s.length
    · rw [if_neg (not_not.mpr ((h.getD_eq_zero_iff hi).mpr hend))]
      exact ⟨_, rfl, fun j hj => hnext j (hend ▸ hj), hbefore⟩
    · rw [if_pos fun hzero => hend ((h.getD_eq_zero_iff hi).mp hzero)]
      obtain ⟨b', hrun, hchars, hsame⟩ := ih (show i + 1 ≤ s.length by omega) (by omega) fun j hj =>
        hnext j (by omega)
      exact ⟨b', hrun, hchars, fun j hj => (hsame j hj).trans (hbefore j hj)⟩

theorem strcpy_eq (h : q.Is s) (hfits : p.start + s.length < p.size) :
    ∃ b, strcpy p q = some b ∧ Str.Is ⟨p.size, b, p.start⟩ s := by
  have hq := h.fits
  obtain ⟨b, hrun, hchars, -⟩ := copy_eq (b := p.bytes) h hfits (q.size + 1) (Nat.zero_le _) (by omega)
    fun j hj => absurd hj (Nat.not_lt_zero _)
  refine ⟨b, hrun, hfits, fun i hi => hchars i hi.le, ?_, h.ne_zero⟩
  exact (hchars _ (Nat.le_refl _)).trans ((h.getD_eq_zero_iff (Nat.le_refl _)).mpr rfl)

theorem strcat_eq (h : p.Is t) (h' : q.Is s) (hfits : p.start + (t ++ s).length < p.size) :
    ∃ b, strcat p q = some b ∧ Str.Is ⟨p.size, b, p.start⟩ (t ++ s) := by
  have hq := h'.fits
  rw [List.length_append] at hfits
  obtain ⟨b, hrun, hchars, hsame⟩ := copy_eq (b := p.bytes) (n := p.size) h'
    (show p.start + t.length + s.length < p.size by omega) (q.size + 1) (Nat.zero_le _) (by omega)
      fun j hj => absurd hj (Nat.not_lt_zero _)
  refine ⟨b, by rw [strcat, strlen_eq h]; exact hrun, ?_, ?_, ?_, ?_⟩
  · rw [List.length_append]
    exact hfits
  · intro i hi
    obtain hlt | hge := Nat.lt_or_ge i t.length
    · rw [List.getD_append _ _ _ _ hlt, ← h.chars i hlt]
      exact hsame _ (Nat.add_lt_add_left hlt _)
    · rw [List.length_append] at hi
      have hpos : p.start + i = p.start + t.length + (i - t.length) := by omega
      rw [List.getD_append_right _ _ _ _ hge, ← hchars _ (by omega), ← hpos]
  · have hend := hchars _ (Nat.le_refl s.length)
    rw [(h'.getD_eq_zero_iff (Nat.le_refl _)).mpr rfl, Nat.add_assoc, ← List.length_append] at hend
    exact hend
  · rw [List.mem_append]
    exact fun hmem => hmem.elim h.ne_zero h'.ne_zero

end DeltaOS.CStrings
