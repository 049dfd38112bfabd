import DeltaOS.Acpi
import DeltaOS.ByteSlices

namespace DeltaOS.AcpiBounds

open ByteMemory Overflow Traces Acpi

variable (profile : Profile) (m : Memory) (addr : Nat) (info : AcpiInfo)

def entryType (entry : Nat) : MadtEntryType := .ofByte (word m addr entry 1)

def entryLength (entry : Nat) : Nat := word m addr (entry + 1) 1

/-- The bytes lie in the declared range of their table and, in a MADT, of their entry. -/
def Inside (a : Access) : Prop :=
  a.offset + a.size ≤ sdtLength m a.table ∧ ∀ e ∈ a.entry, e ≤ a.offset ∧
    a.offset + a.size ≤ e + entryLength m a.table e

/-- What `parse_xsdt`, `parse_rsdt` and `parse_madt` read is inside. -/
def Stays (a : Access) : Prop := a.reader ∈ [Reader.xsdt, .rsdt, .madt] → Inside m a

def isVisit (root : Root) (a : Access) : Bool := a.reader = root.reader ∧ sdtHeaderSize ≤ a.offset

structure StaysInside (root : Root) : Prop where
  reads : Only (Stays m) (parseRoot profile m addr info root)
  count : ∃ n : Nat, entryCount profile root.entrySize (sdtLength m addr) = some n ∧
    (n : Int) = ((sdtLength m addr : Int) - sdtHeaderSize) / root.entrySize
  visits : (parseRoot profile m addr info root).value ≠ none →
    (((parseRoot profile m addr info root).events.countP (isVisit root) : Nat) : Int) =
      ((sdtLength m addr : Int) - sdtHeaderSize) / root.entrySize

/-- How far into an entry `parse_madt` reads. -/
def entrySpan (info : AcpiInfo) : MadtEntryType → Nat
  | .localApic => 8
  | .ioApic => 12
  | .interruptSourceOverride => if info.intOverrideCount < 16 then 10 else 2
  | .localApicAddressOverride => 12
  | _ => 2

def EntryFits (s : AcpiInfo × Nat) : Prop :=
  entrySpan s.1 (entryType m addr s.2) ≤ entryLength m addr s.2 ∧
    s.2 + entrySpan s.1 (entryType m addr s.2) ≤ sdtLength m addr

/-- Every entry of the MADT that the loop comes to fits. -/
def MadtFits : Prop :=
  40 ≤ sdtLength m addr ∧
    ∀ s, Comes (madtPass profile m addr (sdtLength m addr))
        ({ info with localApicAddress := word m addr 36 4 }, madtSize) s →
      s.2 < sdtLength m addr → add profile addr s.2 ≠ none → EntryFits m addr s

variable (root : Root)

/-- The pointer that the root table holds at index `i`. -/
def pointer (i : Nat) : Nat := word m addr (sdtHeaderSize + root.entrySize * i) root.entrySize

/-- The root table holds its header, and every MADT that the loop comes to fits. -/
def RootFits : Prop :=
  sdtHeaderSize ≤ sdtLength m addr ∧
    (add profile addr sdtHeaderSize ≠ none →
      ∀ i < (sdtLength m addr - sdtHeaderSize) / root.entrySize, ∀ info',
        ((List.range i).foldlM (visitEntry profile m addr root) info).value = some info' →
          pointer m addr root i ≠ 0 → signature m (pointer m addr root i) = madtSignature →
            MadtFits profile m (pointer m addr root i) info')

variable {profile m addr info root} {entry offset n : Nat} {reader : Reader} {α : Type}

@[simp] theorem stays_entry :
    Stays m ⟨.madt, addr, entry + offset, n, some entry⟩ ↔
      entry + offset + n ≤ sdtLength m addr ∧ offset + n ≤ entryLength m addr entry := by
  simp only [Stays, Inside, List.mem_cons, Option.mem_def, Option.some.injEq]
  constructor
  · intro h
    obtain ⟨htable, hentry⟩ := h (by simp)
    have := hentry entry rfl
    omega
  · rintro ⟨htable, hentry⟩ -
    refine ⟨htable, ?_⟩
    rintro e rfl
    omega

theorem stays_field (h : reader ∈ [Reader.xsdt, .rsdt, .madt]) :
    Stays m ⟨reader, addr, offset, n, none⟩ ↔ offset + n ≤ sdtLength m addr := by
  simp [Stays, Inside, h]

theorem only_parseEntry {t : MadtEntryType} :
    Only (Stays m) (parseEntry profile m addr entry info t) ↔
      (2 < entrySpan info t →
        entrySpan info t ≤ entryLength m addr entry ∧ entry + entrySpan info t ≤ sdtLength m addr) := by
  cases t with
  | localApic =>
    have hcount : info.processorCount.toNat < 256 := info.processorCount.isLt
    simp [parseEntry, parseLocalApic, readEntry, entrySpan, hcount]
    omega
  | ioApic =>
    simp [parseEntry, parseIoApic, readEntry, entrySpan]
    omega
  | interruptSourceOverride =>
    by_cases hfree : info.intOverrideCount < 16
    · simp [parseEntry, parseIntSourceOverride, readEntry, entrySpan, hfree]
      omega
    · simp [parseEntry, parseIntSourceOverride, entrySpan, hfree]
  | localApicAddressOverride =>
    simp [parseEntry, parseLocalApicAddressOverride, readEntry, entrySpan]
    omega
  | _ => simp [parseEntry, entrySpan]

theorem parseEntry_of_span {t : MadtEntryType} (h : entrySpan info t ≤ 2) :
    parseEntry profile m addr entry info t = pure info := by
  cases t with
  | interruptSourceOverride =>
    have hfull : ¬info.intOverrideCount < 16 := by
      intro hfree
      simp [entrySpan, hfree] at h
    simp [parseEntry, parseIntSourceOverride, hfull]
  | localApic | ioApic | localApicAddressOverride => simp [entrySpan] at h
  | _ => rfl

theorem two_le_entrySpan (info : AcpiInfo) (t : MadtEntryType) : 2 ≤ entrySpan info t := by
  cases t with
  | interruptSourceOverride =>
    rw [entrySpan]
    split <;> omega
  | _ => simp [entrySpan]

theorem madtPass_eq {s : AcpiInfo × Nat} {p : Nat} (h : s.2 < sdtLength m addr)
    (hadd : add profile addr s.2 = some p) : madtPass profile m addr (sdtLength m addr) s = (do
      let _ ← readEntry m addr s.2 0 1
      let info ← parseEntry profile m addr s.2 s.1 (entryType m addr s.2)
      let length ← readEntry m addr s.2 1 1
      if length = 0 then pure (.inr info) else pure (.inl (info, s.2 + length))) := by
  rw [madtPass, if_pos h, hadd]
  rfl

theorem only_readEntry {P : Access → Prop} {f : Nat → Parse α} :
    Only P (readEntry m addr entry offset n >>= f) ↔
      P ⟨.madt, addr, entry + offset, n, some entry⟩ ∧ Only P (f (word m addr (entry + offset) n)) := by
  simp [readEntry]

theorem only_readField {P : Access → Prop} {f : Nat → Parse α} :
    Only P (readField m addr reader offset n >>= f) ↔
      P ⟨reader, addr, offset, n, none⟩ ∧ Only P (f (word m addr offset n)) := by
  simp [readField]

theorem only_madtPass {s : AcpiInfo × Nat} :
    Only (Stays m) (madtPass profile m addr (sdtLength m addr) s) ↔
      (s.2 < sdtLength m addr → add profile addr s.2 ≠ none → EntryFits m addr s) := by
  by_cases hentry : s.2 < sdtLength m addr
  · cases hadd : add profile addr s.2 with
    | none => simp [madtPass, hentry, hadd]
    | some p =>
      have hlast : ∀ info : AcpiInfo, Only (Stays m) (if word m addr (s.2 + 1) 1 = 0 then
          pure (.inr info) else pure (.inl (info, s.2 + word m addr (s.2 + 1) 1)) :
            Parse ((AcpiInfo × Nat) ⊕ AcpiInfo)) := by
        intro info
        split <;> exact only_pure
      rw [madtPass_eq hentry hadd, only_readEntry, only_bind, only_parseEntry]
      simp only [only_readEntry, stays_entry, hlast, and_true]
      constructor
      · rintro ⟨htype, hfields, hlength⟩ - -
        by_cases hspan : 2 < entrySpan s.1 (entryType m addr s.2)
        · exact hfields hspan
        · have hheader := hlength s.1 (by rw [parseEntry_of_span (not_lt.mp hspan)]; rfl)
          rw [EntryFits]
          omega
      · intro h
        obtain ⟨hlength, htable⟩ := h hentry (by simp)
        have hspan := two_le_entrySpan s.1 (entryType m addr s.2)
        exact ⟨by omega, fun _ => ⟨hlength, htable⟩, fun _ _ => by omega⟩
  · simp [madtPass, hentry]

theorem madtPass_next {s s' : AcpiInfo × Nat} {total : Nat}
    (h : (madtPass profile m addr total s).value = some (.inl s')) : total - s'.2 < total - s.2 := by
  rw [madtPass] at h
  split at h
  · simp only [readEntry, value_bind, value_emit, value_ofOption, Option.bind_some,
      Option.bind_eq_some_iff] at h
    obtain ⟨p, -, info, -, h⟩ := h
    split at h
    · cases h
    · cases h
      dsimp only
      omega
  · cases h

theorem only_parseMadt :
    Only (Stays m) (parseMadt profile m addr info) ↔ MadtFits profile m addr info := by
  have hloop (s : AcpiInfo × Nat) :
      Only (Stays m) (loop (madtPass profile m addr (sdtLength m addr)) (sdtLength m addr + 1) s) ↔
        ∀ t, Comes (madtPass profile m addr (sdtLength m addr)) s t →
          Only (Stays m) (madtPass profile m addr (sdtLength m addr) t) :=
    only_loop madtPass_next (by omega)
  rw [parseMadt, only_readField, only_readField, stays_field (by simp), stays_field (by simp),
    ← sdtLength, hloop, MadtFits]
  simp only [only_madtPass]
  constructor
  · rintro ⟨hlapic, -, hentries⟩
    exact ⟨hlapic, hentries⟩
  · rintro ⟨hlapic, hentries⟩
    exact ⟨hlapic, by omega, hentries⟩

theorem only_parseHpet : Only (Stays m) (parseHpet m addr info) := by
  simp [parseHpet, readField, Stays]

theorem only_parseTable :
    Only (Stays m) (parseTable profile m addr info) ↔
      (signature m addr = madtSignature → MadtFits profile m addr info) := by
  have hsig : Stays m ⟨.table, addr, 0, 4, none⟩ := by simp [Stays]
  rw [parseTable, readSignature, only_bind, only_emit]
  by_cases hmadt : signature m addr = madtSignature
  · simp [hsig, hmadt, only_parseMadt]
  · simp [hsig, hmadt]
    split
    · exact only_parseHpet
    · exact only_pure

theorem entryCount_of_le (h : sdtHeaderSize ≤ sdtLength m addr) :
    entryCount profile root.entrySize (sdtLength m addr) =
      some ((sdtLength m addr - sdtHeaderSize) / root.entrySize) := by
  have hlt : sdtLength m addr < usizeRange := Nat.lt_trans (readNat_lt _ _ _) (by decide)
  rw [entryCount, sub_ok hlt h, Option.map_some]

theorem only_visitEntry {i : Nat} (hreader : root.reader ∈ [Reader.xsdt, .rsdt, .madt]) :
    Only (Stays m) (visitEntry profile m addr root info i) ↔
      sdtHeaderSize + root.entrySize * i + root.entrySize ≤ sdtLength m addr ∧
        (pointer m addr root i ≠ 0 → signature m (pointer m addr root i) = madtSignature →
          MadtFits profile m (pointer m addr root i) info) := by
  rw [visitEntry, only_readField, stays_field hreader, ← pointer]
  split
  · simp [*]
  · rw [only_parseTable]
    simp [*]

theorem entry_lt {size i n : Nat} (h : i < n / size) : size * i + size ≤ n :=
  calc size * i + size = size * (i + 1) := (Nat.mul_succ size i).symm
    _ ≤ size * (n / size) := Nat.mul_le_mul_left size h
    _ ≤ n := Nat.mul_div_le n size

theorem only_visitEntries (hreader : root.reader ∈ [Reader.xsdt, .rsdt, .madt])
    (h : sdtHeaderSize ≤ sdtLength m addr) :
    Only (Stays m) (visitEntries profile m addr info root) ↔ RootFits profile m addr info root := by
  have hheader : 4 + 4 ≤ sdtLength m addr := Nat.le_trans (by decide) h
  rw [visitEntries, only_readField, stays_field hreader, ← sdtLength, entryCount_of_le h, RootFits]
  cases hadd : add profile addr sdtHeaderSize with
  | none => simp [hheader, h]
  | some p =>
    simp only [hheader, h, only_bind, only_ofOption, value_ofOption, Option.some.injEq,
      forall_eq', only_foldlM, only_visitEntry hreader, true_and]
    constructor
    · intro hall _ i hi info' hinfo
      exact (hall i hi info' hinfo).2
    · intro hall i hi info' hinfo
      have hentry := entry_lt hi
      exact ⟨by omega, hall (by simp) i hi info' hinfo⟩

theorem parseRoot_of_valid (hsig : signature m addr = root.signature)
    (hsum : checksum m addr (sdtLength m addr) = 0) : parseRoot profile m addr info root =
      ⟨[⟨root.reader, addr, 0, 4, none⟩, ⟨root.reader, addr, 4, 4, none⟩,
          ⟨root.reader, addr, 0, sdtLength m addr, none⟩] ++
            (visitEntries profile m addr info root).events,
        (visitEntries profile m addr info root).value.map fun info => (.ok (), info)⟩ := by
  rw [parseRoot, readSignature, emit_bind, hsig, if_pos rfl, validate, readField, bind_assoc,
    emit_bind, emit_bind, ← sdtLength, hsum]
  simp [events_map]

theorem only_madtPass_of {P : Access → Prop} (h : ∀ a, a.reader = .madt → P a) {total : Nat}
    {s : AcpiInfo × Nat} : Only P (madtPass profile m addr total s) := by
  have hread (entry offset n : Nat) : Only P (readEntry m addr entry offset n) := only_emit.mpr (h _ rfl)
  have hparse (t : MadtEntryType) : Only P (parseEntry profile m addr s.2 s.1 t) := by
    cases t with
    | localApic => simp [parseEntry, parseLocalApic, hread, apply_ite]
    | ioApic => simp [parseEntry, parseIoApic, hread]
    | interruptSourceOverride =>
      rw [parseEntry, parseIntSourceOverride]
      split <;> simp [hread]
    | localApicAddressOverride => simp [parseEntry, parseLocalApicAddressOverride, hread]
    | _ => exact only_pure
  rw [madtPass]
  split
  · simp only [only_bind, only_ofOption, hread, hparse, true_and]
    intro p _ entryType _ info _ length _
    split <;> exact only_pure
  · exact only_pure

theorem countP_parseTable (hreader : root.reader ∈ [Reader.xsdt, .rsdt]) :
    (parseTable profile m addr info).events.countP (isVisit root) = 0 := by
  have hother (reader : Reader) (h : reader ∉ [Reader.xsdt, .rsdt]) (a : Access)
      (ha : a.reader = reader) :
      isVisit root a = false := by
    subst ha
    have hne : a.reader ≠ root.reader := fun heq => h (heq ▸ hreader)
    simp [isVisit, hne]
  have hmadt : Only (fun a => isVisit root a = false) (parseMadt profile m addr info) := by
    rw [parseMadt, only_readField, only_readField]
    refine ⟨hother .madt (by simp) _ rfl, hother .madt (by simp) _ rfl, ?_⟩
    rw [only_loop madtPass_next (Nat.lt_succ_of_le (Nat.sub_le _ _))]
    exact fun t _ => only_madtPass_of (hother .madt (by simp))
  have hall : Only (fun a => isVisit root a = false) (parseTable profile m addr info) := by
    rw [parseTable, readSignature, only_bind, only_emit]
    refine ⟨hother .table (by simp) _ rfl, fun sig _ => ?_⟩
    split_ifs
    · exact hmadt
    · simp [parseHpet, readField, hother .hpet]
    · exact only_pure
  rw [List.countP_eq_zero]
  intro a ha
  simp [hall a ha]

theorem countP_visitEntry (hreader : root.reader ∈ [Reader.xsdt, .rsdt]) {i : Nat} :
    (visitEntry profile m addr root info i).events.countP (isVisit root) = 1 := by
  have hpointer : isVisit root ⟨root.reader, addr, sdtHeaderSize + root.entrySize * i, root.entrySize,
      none⟩ = true := by
    simp [isVisit]
  rw [visitEntry, readField, emit_bind, List.countP_cons_of_pos hpointer]
  split
  · rfl
  · rw [countP_parseTable hreader]

theorem countP_visitEntries (hreader : root.reader ∈ [Reader.xsdt, .rsdt])
    (h : sdtHeaderSize ≤ sdtLength m addr)
    (hvalue : (visitEntries profile m addr info root).value ≠ none) :
    (visitEntries profile m addr info root).events.countP (isVisit root) =
      (sdtLength m addr - sdtHeaderSize) / root.entrySize := by
  have hlength : isVisit root ⟨root.reader, addr, 4, 4, none⟩ = false := by simp [isVisit, sdtHeaderSize]
  rw [visitEntries, readField, emit_bind, ← sdtLength, entryCount_of_le h] at hvalue ⊢
  cases hadd : add profile addr sdtHeaderSize with
  | none => simp [hadd] at hvalue
  | some p =>
    rw [hadd] at hvalue
    obtain ⟨info', hinfo⟩ := Option.ne_none_iff_exists'.mp hvalue
    have hcount := countP_foldlM (fun _ => countP_visitEntry hreader) hinfo
    rw [List.length_range] at hcount
    rw [List.countP_cons_of_neg (by simp [hlength])]
    exact hcount

theorem header_le_of_count {size : Nat} (hsize : 0 < size) {n : Nat}
    (h : (n : Int) = ((sdtLength m addr : Int) - sdtHeaderSize) / size) :
    sdtHeaderSize ≤ sdtLength m addr := by
  by_contra hshort
  have hneg : ((sdtLength m addr : Int) - sdtHeaderSize) / size < 0 := by
    apply Int.ediv_neg_of_neg_of_pos <;> omega
  omega

theorem only_parseRoot (hreader : root.reader ∈ [Reader.xsdt, .rsdt, .madt])
    (hsig : signature m addr = root.signature)
    (hsum : checksum m addr (sdtLength m addr) = 0) (h : sdtHeaderSize ≤ sdtLength m addr) :
    Only (Stays m) (parseRoot profile m addr info root) ↔ RootFits profile m addr info root := by
  have hheader : 4 + 4 ≤ sdtLength m addr := Nat.le_trans (by decide) h
  rw [← only_visitEntries hreader h, parseRoot_of_valid hsig hsum, Only, List.forall_mem_append]
  apply and_iff_right
  simp only [List.forall_mem_cons, stays_field hreader]
  exact ⟨by omega, hheader, by omega, List.forall_mem_nil _⟩

theorem countP_parseRoot (hreader : root.reader ∈ [Reader.xsdt, .rsdt])
    (hsig : signature m addr = root.signature)
    (hsum : checksum m addr (sdtLength m addr) = 0) (h : sdtHeaderSize ≤ sdtLength m addr)
    (hvalue : (parseRoot profile m addr info root).value ≠ none) :
    (parseRoot profile m addr info root).events.countP (isVisit root) =
      (sdtLength m addr - sdtHeaderSize) / root.entrySize := by
  rw [parseRoot_of_valid hsig hsum] at hvalue ⊢
  rw [List.countP_append, countP_visitEntries hreader h fun hnone => hvalue (by rw [hnone]; rfl)]
  simp [isVisit, sdtHeaderSize]

section release

variable {entry : Nat}

theorem parseEntry_release (type : MadtEntryType) :
    (parseEntry .release m addr entry info type).value.isSome := by
  cases type with
  | localApic =>
    refine isSome_bind rfl fun flags => ?_
    split
    · exact isSome_bind rfl fun id => isSome_bind rfl fun apicId => rfl
    · rfl
  | interruptSourceOverride =>
    rw [parseEntry, parseIntSourceOverride]
    split <;> rfl
  | _ => rfl

theorem madtPass_release (totalLength : Nat) (s : AcpiInfo × Nat) :
    (madtPass .release m addr totalLength s).value.isSome := by
  rw [madtPass]
  split
  · refine isSome_bind rfl fun _ => isSome_bind rfl fun type => isSome_bind (parseEntry_release _)
      fun info => ?_
    refine isSome_bind rfl fun length => ?_
    split <;> rfl
  · rfl

theorem parseTable_release : (parseTable .release m addr info).value.isSome := by
  refine isSome_bind rfl fun sig => ?_
  split_ifs
  · refine isSome_bind rfl fun lapic => isSome_bind rfl fun length => ?_
    exact isSome_loop madtPass_next (madtPass_release length) (Nat.lt_succ_of_le (Nat.sub_le _ _))
  · rfl
  · rfl

theorem parseRoot_release : (parseRoot .release m addr info root).value.isSome := by
  refine isSome_bind rfl fun sig => ?_
  split
  · refine isSome_bind rfl fun valid => ?_
    split
    · refine isSome_bind (isSome_bind rfl fun length => isSome_bind rfl fun count => ?_) fun info => rfl
      refine isSome_bind rfl fun _ => isSome_foldlM (fun info i => isSome_bind rfl fun table => ?_) _ _
      split
      · rfl
      · exact parseTable_release
    · rfl
  · rfl

theorem StaysInside.visits_release (h : StaysInside .release m addr info root) :
    (((parseRoot .release m addr info root).events.countP (isVisit root) : Nat) : Int) =
      ((sdtLength m addr : Int) - sdtHeaderSize) / root.entrySize :=
  h.visits (Option.isSome_iff_ne_none.mp parseRoot_release)

end release

/-- For a root table that passes the checks. -/
theorem staysInside_iff (hroot : root = xsdt ∨ root = rsdt) (hsig : signature m addr = root.signature)
    (hsum : checksum m addr (sdtLength m addr) = 0) :
    StaysInside profile m addr info root ↔ RootFits profile m addr info root := by
  have hreader : root.reader ∈ [Reader.xsdt, .rsdt] := by
    obtain rfl | rfl := hroot <;> decide
  have hreader' : root.reader ∈ [Reader.xsdt, .rsdt, .madt] := by
    obtain rfl | rfl := hroot <;> decide
  have hsize : 0 < root.entrySize := by
    obtain rfl | rfl := hroot <;> decide
  constructor
  · rintro ⟨hreads, ⟨n, -, hn⟩, -⟩
    have hlen := header_le_of_count hsize hn
    exact (only_parseRoot hreader' hsig hsum hlen).mp hreads
  · intro hfits
    have hlen : sdtHeaderSize ≤ sdtLength m addr := hfits.1
    have hcount : (((sdtLength m addr - sdtHeaderSize) / root.entrySize : Nat) : Int) =
        ((sdtLength m addr : Int) - sdtHeaderSize) / root.entrySize := by
      rw [Int.natCast_ediv, Int.natCast_sub hlen]
    refine ⟨(only_parseRoot hreader' hsig hsum hlen).mpr hfits, ⟨_, entryCount_of_le hlen, hcount⟩,
      fun hvalue => ?_⟩
    rw [countP_parseRoot hreader hsig hsum hlen hvalue, hcount]

instance (a : Access) : Decidable (Stays m a) :=
  inferInstanceAs (Decidable (a.reader ∈ [Reader.xsdt, .rsdt, .madt] →
    a.offset + a.size ≤ sdtLength m a.table ∧
      ∀ e ∈ a.entry, e ≤ a.offset ∧ a.offset + a.size ≤ e + entryLength m a.table e))

def sdt (signature : List Byte) (length : Nat) (checksum : Byte) : List Byte :=
  signature ++ ByteSlices.leBytes 4 length ++ [1, checksum] ++ List.replicate 26 0

def listed (madtLength : Nat) (entries : List Byte) : Memory :=
  fun a => (sdt xsdt.signature 44 0x54 ++ ByteSlices.leBytes 8 0x102C ++
    sdt madtSignature madtLength 0 ++
    ByteSlices.leBytes 4 0xFEE00000 ++ ByteSlices.leBytes 4 1 ++ entries).getD (a - 0x1000) 0

def oneProcessor : Memory := listed 52 [0, 8, 0, 0, 1, 0, 0, 0]

theorem oneProcessor_staysInside :
    signature oneProcessor 0x1000 = xsdt.signature ∧
      StaysInside .debug oneProcessor 0x1000 .new xsdt := by
  have hsig : signature oneProcessor 0x1000 = xsdt.signature := by decide
  have hsum : checksum oneProcessor 0x1000 (sdtLength oneProcessor 0x1000) = 0 := by decide +kernel
  refine ⟨hsig, (staysInside_iff (.inl rfl) hsig hsum).mpr ⟨by decide, fun _ i hi info' hinfo _ _ => ?_⟩⟩
  obtain rfl : i = 0 := Nat.lt_one_iff.mp hi
  obtain rfl : AcpiInfo.new = info' := Option.some.inj hinfo
  apply only_parseMadt.mp
  unfold Only
  decide +kernel

def emptyXsdt : Memory := fun a => (sdt xsdt.signature 0 0).getD (a - 0x1000) 0

def shortEntry : Memory := listed 46 [0, 2]

theorem shortTables_escape :
    (signature emptyXsdt 0x1000 = xsdt.signature ∧
      checksum emptyXsdt 0x1000 (sdtLength emptyXsdt 0x1000) = 0 ∧
      ∀ profile, ¬StaysInside profile emptyXsdt 0x1000 .new xsdt) ∧
    signature shortEntry 0x1000 = xsdt.signature ∧
      checksum shortEntry 0x1000 (sdtLength shortEntry 0x1000) = 0 ∧
      ∀ profile, ¬StaysInside profile shortEntry 0x1000 .new xsdt := by
  refine ⟨⟨by decide, by decide, ?_⟩, by decide, by decide +kernel, ?_⟩
  · rintro profile ⟨-, ⟨n, -, hn⟩, -⟩
    have hshort : ¬sdtHeaderSize ≤ sdtLength emptyXsdt 0x1000 := by decide
    exact hshort (header_le_of_count (by decide) hn)
  · rintro profile ⟨hreads, -, -⟩
    revert hreads
    unfold Only
    cases profile <;> decide +kernel

end DeltaOS.AcpiBounds
