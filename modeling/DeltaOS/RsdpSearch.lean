import DeltaOS.Acpi

namespace DeltaOS.RsdpSearch

open ByteMemory Overflow Traces

section

variable {α : Type}

/-- Every element up to the first one with `P`, that one included, has `Q`. -/
def UpToFirst (P Q : α → Prop) : List α → Prop
  | [] => True
  | a :: l => Q a ∧ (¬P a → UpToFirst P Q l)

instance UpToFirst.decidable {P Q : α → Prop} [DecidablePred P] [DecidablePred Q] :
    (l : List α) → Decidable (UpToFirst P Q l)
  | [] => isTrue trivial
  | a :: l =>
    have := UpToFirst.decidable (P := P) (Q := Q) l
    inferInstanceAs (Decidable (Q a ∧ (¬P a → UpToFirst P Q l)))

theorem upToFirst_of_forall {P Q : α → Prop} {l : List α} (h : ∀ a ∈ l, Q a) : UpToFirst P Q l := by
  induction l with
  | nil => trivial
  | cons a l ih =>
    exact ⟨h a List.mem_cons_self,
      fun _ => ih fun b hb => h b (List.mem_cons_of_mem a hb)⟩

end

structure Span where
  addr : Nat
  size : Nat
  deriving DecidableEq, Repr

abbrev Search := Traced Span

variable (m : Memory) (start size : Nat)

def rsdpSignature : List Byte := [0x52, 0x53, 0x44, 0x20, 0x50, 0x54, 0x52, 0x20]

/-- `b'R'`. -/
def letterR : Byte := 0x52

def rsdpSize : Nat := 36

def signature (p : Nat) : List Byte := (List.range 8).map fun i => m (plus p i)

def validateChecksum (p : Nat) : Search Bool := emit ⟨p, rsdpSize⟩ (Acpi.checksum m p rsdpSize == 0)

/-- The loop of `search_region` over the offsets that are left. -/
def searchOffsets : List Nat → Search (Option Nat)
  | [] => pure none
  | offset :: rest => do
    let p := plus start offset
    let first ← emit ⟨p, 1⟩ (m p)
    if first ≠ letterR then
      searchOffsets rest
    else if plus start size < plus p 8 then
      pure none
    else do
      let sig ← emit ⟨p, 8⟩ (signature m p)
      if sig = rsdpSignature then do
        let valid ← validateChecksum m p
        if valid then pure (some p) else searchOffsets rest
      else
        searchOffsets rest

/-- `(0..size).step_by(16)`. -/
def offsets : List Nat := List.range' 0 ((size + 15) / 16) 16

def searchRegion : Search (Option Nat) := searchOffsets m start size (offsets size)

def revision (p : Nat) : Nat := (m (plus p 15)).toNat

def ChecksumValid (p : Nat) : Prop :=
  Acpi.checksum m p 20 = 0 ∧ (2 ≤ revision m p → Acpi.checksum m p rsdpSize = 0)

def length (p : Nat) : Nat := if revision m p < 2 then 20 else rsdpSize

/-- The signature stands at this offset of the region. -/
structure HasSignature (offset : Nat) : Prop where
  fits : offset + 8 ≤ size
  bytes : signature m (start + offset) = rsdpSignature

/-- An RSDP stands at this offset of the region, with the checksums of its revision. -/
structure Valid (offset : Nat) : Prop where
  bytes : signature m (start + offset) = rsdpSignature
  fits : offset + length m (start + offset) ≤ size
  checksum : ChecksumValid m (start + offset)

instance (p : Nat) : Decidable (ChecksumValid m p) := inferInstanceAs (Decidable (_ ∧ (_ → _)))

instance : DecidablePred (HasSignature m start size) := fun offset =>
  decidable_of_iff (offset + 8 ≤ size ∧ signature m (start + offset) = rsdpSignature)
    ⟨fun h => ⟨h.1, h.2⟩, fun h => ⟨h.fits, h.bytes⟩⟩

instance : DecidablePred (Valid m start size) := fun offset =>
  decidable_of_iff (signature m (start + offset) = rsdpSignature ∧
    offset + length m (start + offset) ≤ size ∧
    ChecksumValid m (start + offset)) ⟨fun h => ⟨h.1, h.2.1, h.2.2⟩,
      fun h => ⟨h.bytes, h.fits, h.checksum⟩⟩

def firstValid (os : List Nat) : Option Nat := (os.find? (Valid m start size)).map (start + ·)

def Inside (e : Span) : Prop := start ≤ e.addr ∧ e.addr + e.size ≤ start + size

/-- The search over these offsets finds the first valid structure and stays in the region. -/
structure Finds (os : List Nat) : Prop where
  value : (searchOffsets m start size os).value = some (firstValid m start size os)
  reads : Only (Inside start size) (searchOffsets m start size os)

/-- The structure has the full length, and the checksum of all its bytes decides as those of its
revision do. -/
def Judged (offset : Nat) : Prop :=
  offset + rsdpSize ≤ size ∧ (Acpi.checksum m (start + offset) rsdpSize = 0 ↔
    ChecksumValid m (start + offset))

variable {m start size} {offset : Nat} {rest : List Nat}

theorem first_of_signature {p : Nat} (hp : p < usizeRange) (h : signature m p = rsdpSignature) :
    m p = letterR := by
  have hhead : (signature m p).head? = some letterR := by
    rw [h]
    rfl
  have hfirst : plus p 0 = p := plus_of_lt hp
  rw [← hfirst]
  exact Option.some.inj hhead

theorem length_le (p : Nat) : 20 ≤ length m p ∧ length m p ≤ rsdpSize := by
  rw [length]
  split <;> decide

theorem Valid.hasSignature (h : Valid m start size offset) : HasSignature m start size offset := by
  have hfits := h.fits
  have hlength := (length_le (m := m) (start + offset)).1
  exact ⟨by omega, h.bytes⟩

theorem inside_iff {n : Nat} : Inside start size ⟨start + offset, n⟩ ↔ offset + n ≤ size := by
  simp only [Inside]
  omega

inductive Round (m : Memory) (start size offset : Nat) (rest : List Nat) : Prop where
  | skipped (signature : ¬HasSignature m start size offset)
      (value : (searchOffsets m start size (offset :: rest)).value =
        (searchOffsets m start size rest).value)
      (reads : Only (Inside start size) (searchOffsets m start size (offset :: rest)) ↔
        Only (Inside start size) (searchOffsets m start size rest))
  | stopped (short : size < offset + 8)
      (value : (searchOffsets m start size (offset :: rest)).value = some none)
      (reads : Only (Inside start size) (searchOffsets m start size (offset :: rest)))
  | rejected (signature : HasSignature m start size offset)
      (checksum : Acpi.checksum m (start + offset) rsdpSize ≠ 0)
      (value : (searchOffsets m start size (offset :: rest)).value =
        (searchOffsets m start size rest).value)
      (reads : Only (Inside start size) (searchOffsets m start size (offset :: rest)) ↔
        offset + rsdpSize ≤ size ∧ Only (Inside start size) (searchOffsets m start size rest))
  | accepted (signature : HasSignature m start size offset)
      (checksum : Acpi.checksum m (start + offset) rsdpSize = 0)
      (value : (searchOffsets m start size (offset :: rest)).value = some (some (start + offset)))
      (reads : Only (Inside start size) (searchOffsets m start size (offset :: rest)) ↔
        offset + rsdpSize ≤ size)

theorem searchOffsets_cons (hspace : start + size + 8 ≤ usizeRange) (hoffset : offset < size) :
    Round m start size offset rest := by
  have hp : plus start offset = start + offset := plus_of_lt (by omega)
  have hp8 : plus (start + offset) 8 = start + offset + 8 := plus_of_lt (by omega)
  have hend : plus start size = start + size := plus_of_lt (by omega)
  have hbyte : offset + 1 ≤ size := hoffset
  by_cases hfirst : m (start + offset) = letterR
  · by_cases hshort : size < offset + 8
    · have hstop : plus start size < plus (start + offset) 8 := by omega
      apply Round.stopped hshort
      · simp [searchOffsets, hp, hfirst, hstop]
      · simp [searchOffsets, hp, hfirst, hstop, inside_iff, hbyte]
    · have hgo : ¬plus start size < plus (start + offset) 8 := by omega
      have hfits : offset + 8 ≤ size := not_lt.mp hshort
      by_cases hsig : signature m (start + offset) = rsdpSignature
      · by_cases hsum : Acpi.checksum m (start + offset) rsdpSize = 0
        · apply Round.accepted ⟨hfits, hsig⟩ hsum
          · simp [searchOffsets, hp, hfirst, hgo, hsig, validateChecksum, hsum]
          · simp [searchOffsets, hp, hfirst, hgo, hsig, validateChecksum, hsum, inside_iff, hbyte, hfits]
        · have hsum' : (Acpi.checksum m (start + offset) rsdpSize == 0#8) = false := beq_false_of_ne hsum
          apply Round.rejected ⟨hfits, hsig⟩ hsum
          · simp [searchOffsets, hp, hfirst, hgo, hsig, validateChecksum, -beq_iff_eq, hsum']
          · simp [searchOffsets, hp, hfirst, hgo, hsig, validateChecksum, -beq_iff_eq, hsum',
              inside_iff, hbyte, hfits]
      · apply Round.skipped (fun h => hsig h.bytes)
        · simp [searchOffsets, hp, hfirst, hgo, hsig]
        · simp [searchOffsets, hp, hfirst, hgo, hsig, inside_iff, hbyte, hfits]
  · apply Round.skipped (fun h => hfirst (first_of_signature (by omega) h.bytes))
    · simp [searchOffsets, hp, hfirst]
    · simp [searchOffsets, hp, hfirst, inside_iff, hbyte]

theorem mem_of_found (hspace : start + size + 8 ≤ usizeRange) {os : List Nat}
    (hos : ∀ o ∈ os, o < size) {p : Nat}
    (h : (searchOffsets m start size os).value = some (some p)) : ∃ o ∈ os, p = start + o := by
  induction os with
  | nil => cases h
  | cons offset rest ih =>
    have hrest : (searchOffsets m start size rest).value = some (some p) → ∃ o ∈ offset :: rest,
        p = start + o := by
      intro hvalue
      obtain ⟨o, ho, hp⟩ := ih (fun o ho => hos o (List.mem_cons_of_mem offset ho)) hvalue
      exact ⟨o, List.mem_cons_of_mem offset ho, hp⟩
    have hround : Round m start size offset rest :=
      searchOffsets_cons hspace (hos offset List.mem_cons_self)
    cases hround with
    | skipped _ hvalue => exact hrest (hvalue ▸ h)
    | stopped _ hvalue =>
      rw [hvalue] at h
      cases h
    | rejected _ _ hvalue => exact hrest (hvalue ▸ h)
    | accepted _ _ hvalue =>
      rw [hvalue] at h
      cases h
      exact ⟨offset, List.mem_cons_self, rfl⟩

theorem firstValid_cons_of_valid (h : Valid m start size offset) :
    firstValid m start size (offset :: rest) = some (start + offset) := by
  rw [firstValid, List.find?_cons_of_pos (by simpa using h), Option.map_some]

theorem firstValid_cons_of_not (h : ¬Valid m start size offset) :
    firstValid m start size (offset :: rest) = firstValid m start size rest := by
  rw [firstValid, List.find?_cons_of_neg (by simpa using h), firstValid]

theorem HasSignature.valid_iff (h : HasSignature m start size offset)
    (hfits : offset + rsdpSize ≤ size) :
    Valid m start size offset ↔ ChecksumValid m (start + offset) := by
  have hlength := (length_le (m := m) (start + offset)).2
  exact ⟨Valid.checksum, fun hsum => ⟨h.bytes, by omega, hsum⟩⟩

variable {os : List Nat}

theorem finds_cons_of_not_valid (hvalid : ¬Valid m start size offset)
    (hvalue : (searchOffsets m start size (offset :: rest)).value =
      (searchOffsets m start size rest).value)
    (hreads : Only (Inside start size) (searchOffsets m start size (offset :: rest)) ↔
      Only (Inside start size) (searchOffsets m start size rest)) :
    Finds m start size (offset :: rest) ↔ Finds m start size rest := by
  constructor
  · rintro ⟨hfound, hinside⟩
    exact ⟨by rw [← hvalue, hfound, firstValid_cons_of_not hvalid], hreads.mp hinside⟩
  · rintro ⟨hfound, hinside⟩
    exact ⟨by rw [hvalue, hfound, firstValid_cons_of_not hvalid], hreads.mpr hinside⟩

theorem finds_of_stopped (hshort : ∀ o ∈ os, size < o + 8)
    (hvalue : (searchOffsets m start size os).value = some none)
    (hreads : Only (Inside start size) (searchOffsets m start size os)) : Finds m start size os := by
  have hnone : os.find? (Valid m start size) = none := by
    rw [List.find?_eq_none]
    intro o ho hvalid
    have hfits := (of_decide_eq_true hvalid).hasSignature.fits
    have := hshort o ho
    omega
  exact ⟨by rw [hvalue, firstValid, hnone, Option.map_none], hreads⟩

/-- The search over increasing offsets is right when up to the first valid structure every signature
is judged rightly, and not otherwise. -/
theorem finds_iff (hspace : start + size + 8 ≤ usizeRange) (hos : ∀ o ∈ os, o < size)
    (hsorted : os.Pairwise (· < ·)) : Finds m start size os ↔
      UpToFirst (Valid m start size)
      (fun o => HasSignature m start size o → Judged m start size o) os := by
  induction os with
  | nil => exact iff_of_true ⟨rfl, only_pure⟩ trivial
  | cons offset rest ih =>
    obtain ⟨hlater, hsorted⟩ := List.pairwise_cons.mp hsorted
    have hrest : ∀ o ∈ rest, o < size := fun o ho => hos o (List.mem_cons_of_mem offset ho)
    have ih := ih hrest hsorted
    rw [UpToFirst]
    have hround : Round m start size offset rest :=
      searchOffsets_cons hspace (hos offset List.mem_cons_self)
    cases hround with
    | skipped hsig hvalue hreads =>
      have hvalid : ¬Valid m start size offset := fun h => hsig h.hasSignature
      rw [finds_cons_of_not_valid hvalid hvalue hreads, ih]
      exact ⟨fun h => ⟨fun hs => absurd hs hsig, fun _ => h⟩, fun h => h.2 hvalid⟩
    | stopped hshort hvalue hreads =>
      have hall : ∀ o ∈ offset :: rest, size < o + 8 := by
        intro o ho
        obtain rfl | ho := List.mem_cons.mp ho
        · exact hshort
        · have := hlater o ho
          omega
      have hno : ∀ o ∈ offset :: rest, HasSignature m start size o → Judged m start size o := by
        intro o ho hsig
        have := hall o ho
        have := hsig.fits
        omega
      exact iff_of_true (finds_of_stopped hall hvalue hreads) (upToFirst_of_forall hno)
    | rejected hsig hsum hvalue hreads =>
      constructor
      · rintro ⟨hfound, hinside⟩
        obtain ⟨hfits, hinside⟩ := hreads.mp hinside
        have hvalid : ¬Valid m start size offset := by
          intro hvalid
          rw [hvalue, firstValid_cons_of_valid hvalid] at hfound
          obtain ⟨o, ho, hsame⟩ := mem_of_found hspace hrest hfound
          have := hlater o ho
          omega
        rw [hvalue, firstValid_cons_of_not hvalid] at hfound
        exact ⟨fun _ => ⟨hfits, iff_of_false hsum (mt (hsig.valid_iff hfits).mpr hvalid)⟩,
          fun _ => ih.mp ⟨hfound, hinside⟩⟩
      · rintro ⟨hjudged, hnext⟩
        obtain ⟨hfits, hsame⟩ := hjudged hsig
        have hvalid : ¬Valid m start size offset := fun h => hsum (hsame.mpr h.checksum)
        obtain ⟨hfound, hinside⟩ := ih.mpr (hnext hvalid)
        exact ⟨by rw [hvalue, hfound, firstValid_cons_of_not hvalid], hreads.mpr ⟨hfits, hinside⟩⟩
    | accepted hsig hsum hvalue hreads =>
      constructor
      · rintro ⟨hfound, hinside⟩
        have hfits := hreads.mp hinside
        have hvalid : Valid m start size offset := by
          by_contra hvalid
          rw [hvalue, firstValid_cons_of_not hvalid, firstValid, eq_comm, Option.some.injEq,
            Option.map_eq_some_iff] at hfound
          obtain ⟨o, ho, hsame⟩ := hfound
          have := hlater o (List.mem_of_find?_eq_some ho)
          omega
        exact ⟨fun _ => ⟨hfits, iff_of_true hsum hvalid.checksum⟩, fun h => absurd hvalid h⟩
      · rintro ⟨hjudged, -⟩
        obtain ⟨hfits, hsame⟩ := hjudged hsig
        have hvalid := (hsig.valid_iff hfits).mpr (hsame.mp hsum)
        exact ⟨by rw [hvalue, firstValid_cons_of_valid hvalid], hreads.mpr hfits⟩

theorem offsets_lt : ∀ o ∈ offsets size, o < size := by
  intro o ho
  rw [offsets, List.mem_range'] at ho
  obtain ⟨i, hi, rfl⟩ := ho
  omega

/-- The search returns the first valid structure and stays in its region exactly when every signature
it comes to belongs to a structure of the full length in the region, for which the one checksum
decides as those of its revision do. -/
theorem searchRegion_correct_iff (hspace : start + size + 8 ≤ usizeRange) :
    ((searchRegion m start size).value = some (firstValid m start size (offsets size)) ∧
      Only (Inside start size) (searchRegion m start size)) ↔
    UpToFirst (Valid m start size) (fun o => HasSignature m start size o → Judged m start size o)
    (offsets size) := by
  have hsorted : (offsets size).Pairwise (· < ·) := List.pairwise_lt_range' 16
  rw [← finds_iff hspace offsets_lt hsorted]
  exact ⟨fun h => ⟨h.1, h.2⟩, fun h => ⟨h.value, h.reads⟩⟩

instance : DecidablePred (Judged m start size) := fun _ => inferInstanceAs (Decidable (_ ∧ (_ ↔ _)))

def placed (p : Nat) (bytes : List Byte) : Memory := fun a => if p ≤ a then bytes.getD (a - p) 0 else 0

def rsdpBytes (checksum revision : Byte) (extended : List Byte) : List Byte :=
  rsdpSignature ++ [checksum] ++ List.replicate 6 0 ++ [revision] ++ [0x00, 0x10, 0, 0] ++ extended

def modern : Memory := placed 0x9FE00
    (rsdpBytes 0xCF 2 [36, 0, 0, 0, 0, 0x20, 0, 0, 0, 0, 0, 0, 0xBC, 0, 0, 0])

theorem modern_found : (searchRegion modern 0x9FC00 1024).value = some (some 0x9FE00) ∧
    (searchRegion modern 0x9FC00 1024).value = some (firstValid modern 0x9FC00 1024 (offsets 1024)) ∧
    Only (Inside 0x9FC00 1024) (searchRegion modern 0x9FC00 1024) :=
  ⟨by decide +kernel, (searchRegion_correct_iff (by decide)).mpr (by decide +kernel)⟩

def old : Memory := placed 0x9FE00 (rsdpBytes 0xD1 0 [1])

/-- A structure of revision 0 with a wrong checksum, which the bytes behind it make up for. -/
def damaged : Memory := placed 0x9FE00 (rsdpBytes 0xD0 0 [1])

def atEnd : Memory := placed 0x9FFF0 rsdpSignature

theorem search_errs :
    (Valid old 0x9FC00 1024 0x200 ∧ (searchRegion old 0x9FC00 1024).value = some none) ∧
    (¬Valid damaged 0x9FC00 1024 0x200 ∧ (searchRegion damaged 0x9FC00 1024).value =
      some (some 0x9FE00)) ∧
    ¬Only (Inside 0x9FC00 1024) (searchRegion atEnd 0x9FC00 1024) := by
  refine ⟨⟨by decide +kernel, by decide +kernel⟩, ⟨by decide +kernel, by decide +kernel⟩, fun h => ?_⟩
  have hread : (⟨0x9FFF0, 36⟩ : Span) ∈ (searchRegion atEnd 0x9FC00 1024).events := by decide +kernel
  exact absurd (h _ hread).2 (by decide)

end DeltaOS.RsdpSearch
