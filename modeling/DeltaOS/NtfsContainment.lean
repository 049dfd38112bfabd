import DeltaOS.NtfsLeaks
import DeltaOS.NtfsRoundTrip

namespace DeltaOS.NtfsContainment

open ByteSlices Cursor Kernel Ntfs NtfsSafety NtfsSpans NtfsLeaks
open NtfsRoundTrip (endMarker)

variable {data data' d : List Byte} {offset k : Nat} {a : NtfsAttribute}

/-- Where the attribute number `k` starts, for a list of attributes from `offset` on: after those
before it. -/
def startOf (offset : Nat) (l : List NtfsAttribute) (k : Nat) : Nat :=
  offset + ((l.take k).map NtfsAttribute.totalSize).sum

def spanStart (data : List Byte) (r : MftRecord) (k : Nat) : Nat :=
  startOf (field data 0x14 2) r.attributes k

def headerSize : Nat := 0x1C

/-- Attribute `k` is in all accepted records that have the header and the spans up to its own. -/
def Contained (data : List Byte) (r : MftRecord) (k : Nat) (a : NtfsAttribute) : Prop :=
  ∀ data' r', parseMftRecord data' = .ok (.ok r') → AgreeOn data data' 0 headerSize →
    AgreeOn data data' (spanStart data r 0) (spanStart data r (k + 1)) → r'.attributes[k]? = some a

theorem startOf_cons (offset : Nat) (a : NtfsAttribute) (l : List NtfsAttribute) (k : Nat) :
    startOf offset (a :: l) (k + 1) = startOf (offset + a.totalSize) l k := by
  rw [startOf, startOf, List.take_succ_cons, List.map_cons, List.sum_cons, Nat.add_assoc]

theorem startOf_zero (offset : Nat) (l : List NtfsAttribute) : startOf offset l 0 = offset := by
  rw [startOf, List.take_zero]
  rfl

theorem le_startOf (offset : Nat) (l : List NtfsAttribute) (k : Nat) : offset ≤ startOf offset l k :=
  Nat.le_add_right _ _

variable {fuel fuel' : Nat} {l l' : List NtfsAttribute}

theorem attribute_at (hl : collect .outOfFuel (parseAttribute data) fuel offset = .ok l)
    (hk : l[k]? = some a) :
    parseAttribute data (startOf offset l k) = .ok (some (a, startOf offset l (k + 1))) := by
  induction k generalizing offset l fuel with
  | zero =>
    obtain ⟨-, rfl⟩ | ⟨b, q, n, rest, hpass, -, rfl⟩ := collect_eq_ok hl
    · cases hk
    · obtain ⟨hp, rfl⟩ := parseAttribute_parsed hpass
      cases hk
      rw [startOf_zero, startOf_cons, startOf_zero, hp.totalSize]
      exact hpass
  | succ k ih =>
    obtain ⟨-, rfl⟩ | ⟨b, q, n, rest, hpass, hrest, rfl⟩ := collect_eq_ok hl
    · cases hk
    · obtain ⟨hp, rfl⟩ := parseAttribute_parsed hpass
      rw [startOf_cons, startOf_cons, hp.totalSize]
      exact ih hrest hk

theorem collect_congr {q : Nat} (hpass : parseAttribute data offset = .ok (some (a, q)))
    (hkeeps : KeepsToSpan data offset) (hagree : AgreeOn data data' offset q)
    (hl' : collect .outOfFuel (parseAttribute data') fuel' offset = .ok l') :
    ∃ n rest, collect .outOfFuel (parseAttribute data') n q = .ok rest ∧ l' = a :: rest := by
  obtain ⟨hp, rfl⟩ := parseAttribute_parsed hpass
  have hsame := parseAttribute_congr hp.has hkeeps hagree
  obtain ⟨hstop, -⟩ | ⟨b, q', n, rest, hpass', hrest, rfl⟩ := collect_eq_ok hl'
  · rw [hsame, hpass] at hstop
    cases hstop
  · rw [hsame, hpass] at hpass'
    cases hpass'
    exact ⟨n, rest, hrest, rfl⟩

/-- Two records that agree up to the end of attribute `k` have the same attribute `k`, if the
attributes keep to their spans. -/
theorem attribute_congr (hl : collect .outOfFuel (parseAttribute data) fuel offset = .ok l)
    (hk : l[k]? = some a) (hkeeps : ∀ i ≤ k, KeepsToSpan data (startOf offset l i))
    (hagree : AgreeOn data data' offset (startOf offset l (k + 1)))
    (hl' : collect .outOfFuel (parseAttribute data') fuel' offset = .ok l') : l'[k]? = some a := by
  induction k generalizing offset l l' fuel fuel' with
  | zero =>
    obtain ⟨-, rfl⟩ | ⟨b, q, n, rest, hpass, -, rfl⟩ := collect_eq_ok hl
    · cases hk
    · have hfirst := hkeeps 0 le_rfl
      obtain ⟨hp, hq⟩ := parseAttribute_parsed hpass
      rw [startOf_cons, startOf_zero, hp.totalSize, ← hq] at hagree
      rw [startOf_zero] at hfirst
      obtain ⟨n', rest', -, rfl⟩ := collect_congr hpass hfirst hagree hl'
      exact hk
  | succ k ih =>
    obtain ⟨-, rfl⟩ | ⟨b, q, n, rest, hpass, hrest, rfl⟩ := collect_eq_ok hl
    · cases hk
    · have hfirst := hkeeps 0 (Nat.zero_le _)
      obtain ⟨hp, hq⟩ := parseAttribute_parsed hpass
      rw [startOf_cons, hp.totalSize, ← hq] at hagree
      rw [startOf_zero] at hfirst
      have hle : offset ≤ q := by omega
      obtain ⟨n', rest', hrest', rfl⟩ :=
        collect_congr hpass hfirst (hagree.mono le_rfl (le_startOf q rest _)) hl'
      refine ih hrest hk (fun i hi => ?_) (hagree.mono hle le_rfl) hrest'
      have hnext := hkeeps (i + 1) (Nat.succ_le_succ hi)
      rwa [startOf_cons, hp.totalSize, ← hq] at hnext

theorem parseMftRecord_eq_ok {r : MftRecord} (h : parseMftRecord data = .ok (.ok r)) :
    mftRecordSize ≤ data.length ∧ field data 0 4 = mftRecordSignature ∧
      collect .outOfFuel (parseAttribute data) (data.length + 1) (field data 0x14 2) =
        .ok r.attributes := by
  by_cases haccept : mftRecordSize ≤ data.length ∧ field data 0 4 = mftRecordSignature
  · rw [parseMftRecord_accepted haccept.1 haccept.2] at h
    obtain ⟨attributes, hcollect, hr⟩ := map_eq_ok h
    cases hr
    exact ⟨haccept.1, haccept.2, hcollect⟩
  · rw [parseMftRecord_refused haccept] at h
    cases h

theorem chain_before {bs : List NtfsAttribute}
    (hl : collect .outOfFuel (parseAttribute data) fuel offset = .ok l)
    (hk : k ≤ l.length) (hkeeps : ∀ i < k, KeepsToSpan data (startOf offset l i))
    (hagree : AgreeOn data d offset (startOf offset l k))
    (hchain : Chain (parseAttribute d) pure (startOf offset l k) bs) :
    Chain (parseAttribute d) pure offset (l.take k ++ bs) := by
  induction k generalizing offset l fuel with
  | zero => rwa [startOf_zero] at hchain
  | succ k ih =>
    obtain ⟨-, rfl⟩ | ⟨b, q, n, rest, hpass, hrest, rfl⟩ := collect_eq_ok hl
    · cases hk
    · have hfirst := hkeeps 0 k.succ_pos
      obtain ⟨hp, hq⟩ := parseAttribute_parsed hpass
      rw [startOf_cons, hp.totalSize, ← hq] at hagree hchain
      rw [startOf_zero] at hfirst
      have hle : offset ≤ q := by omega
      refine .item (q := q) ?_ (ih hrest (Nat.le_of_succ_le_succ hk) ?_ (hagree.mono hle le_rfl) hchain)
      · rw [parseAttribute_congr hp.has hfirst (hq ▸ hagree.mono le_rfl (le_startOf q rest k)), hpass]
        rfl
      · intro i hi
        have hnext := hkeeps (i + 1) (Nat.succ_lt_succ hi)
        rwa [startOf_cons, hp.totalSize, ← hq] at hnext

theorem add_le_startOf (hl : collect .outOfFuel (parseAttribute data) fuel offset = .ok l)
    (hk : k ≤ l.length) : offset + k ≤ startOf offset l k := by
  induction k generalizing offset l fuel with
  | zero => exact le_startOf _ _ _
  | succ k ih =>
    obtain ⟨-, rfl⟩ | ⟨b, q, n, rest, hpass, hrest, rfl⟩ := collect_eq_ok hl
    · cases hk
    · obtain ⟨hp, rfl⟩ := parseAttribute_parsed hpass
      have hnext := ih hrest (Nat.le_of_succ_le_succ hk)
      have hpos := hp.has.2.2.1
      rw [startOf_cons, hp.totalSize]
      omega

theorem parseMftRecord_of_chain {bs : List NtfsAttribute} (hsize : mftRecordSize ≤ d.length)
    (hsig : field d 0 4 = mftRecordSignature)
    (hchain : Chain (parseAttribute d) pure (field d 0x14 2) bs)
    (hlen : bs.length ≤ d.length) : parseMftRecord d = .ok (.ok (recordAt d bs)) := by
  rw [parseMftRecord_accepted hsize hsig, hchain.collect_eq (Nat.lt_succ_of_le hlen),
    List.mapM_pure, List.map_id']
  rfl

theorem exists_record {r : MftRecord} (h : parseMftRecord data = .ok (.ok r))
    (hk : r.attributes[k]? = some a)
    (hkeeps : ∀ i < k, KeepsToSpan data (spanStart data r i)) (hheader : headerSize ≤ field data 0x14 2)
    (hagree : AgreeOn data d 0 (spanStart data r (k + 1)))
    (hdiffers : Differs d (spanStart data r k) a) :
    ∃ r', parseMftRecord d = .ok (.ok r') ∧ r'.attributes[k]? ≠ some a := by
  obtain ⟨hsize, hsig, hcollect⟩ := parseMftRecord_eq_ok h
  have hpass := attribute_at hcollect hk
  obtain ⟨hp, hnext⟩ := parseAttribute_parsed hpass
  have hlt : k < r.attributes.length := (List.getElem?_eq_some_iff.mp hk).1
  have hbound := add_le_startOf hcollect hlt.le
  have hroom := hp.has.1
  have hbefore := le_startOf (field data 0x14 2) r.attributes (k + 1)
  have hlen := hagree.length
  rw [headerSize] at hheader
  rw [spanStart] at hagree hdiffers
  have hoffset : field d 0x14 2 = field data 0x14 2 := hagree.field (Nat.zero_le _) (by omega)
  have hsig' : field d 0 4 = mftRecordSignature := (hagree.field (Nat.zero_le _) (by omega)).trans hsig
  have hrecord {bs : List NtfsAttribute} (hbs : bs.length ≤ 1)
      (hchain : Chain (parseAttribute d) pure (startOf (field data 0x14 2) r.attributes k) bs) :
      parseMftRecord d = .ok (.ok (recordAt d (r.attributes.take k ++ bs))) := by
    refine parseMftRecord_of_chain (hsize.trans_eq hlen.symm) hsig' ?_ ?_
    · rw [hoffset]
      exact chain_before hcollect hlt.le hkeeps (hagree.mono (Nat.zero_le _) (by omega)) hchain
    · rw [List.length_append, List.length_take_of_le hlt.le]
      omega
  have hget (bs : List NtfsAttribute) :
      (recordAt d (r.attributes.take k ++ bs)).attributes[k]? = bs[0]? := by
    rw [recordAt, List.getElem?_append_right (List.length_take_le _ _),
      List.length_take_of_le hlt.le, Nat.sub_self]
  obtain hnone | ⟨a', q, hsome, hne, hend⟩ := hdiffers
  · refine ⟨recordAt d (r.attributes.take k ++ []), hrecord (Nat.zero_le 1) (.stop hnone), ?_⟩
    rw [hget, List.getElem?_nil]
    exact (Option.some_ne_none a).symm
  · refine ⟨_, hrecord le_rfl (.item (b := a') hsome (.stop hend)), ?_⟩
    rw [hget]
    exact fun heq => hne (Option.some.inj heq)

theorem attributeFine_of_parsed {q : Nat} (h : parseAttribute data offset = .ok (some (a, q))) :
    AttributeFine data offset := by
  by_contra hbad
  obtain ⟨e, -, herror⟩ := (parseAttribute_walks data).fails hbad
  rw [herror] at h
  cases h

/-- The attributes of a record lie one after the other in it. An attribute is contained as soon as it
and those before it keep to their spans, and a record that has its attributes behind the header
contains all of them only then. -/
theorem attributes_contained {r : MftRecord} (h : parseMftRecord data = .ok (.ok r)) :
    (∀ k a, r.attributes[k]? = some a →
      parseAttribute data (spanStart data r k) = .ok (some (a, spanStart data r (k + 1))) ∧
        0 < a.totalSize ∧ spanStart data r (k + 1) = spanStart data r k + a.totalSize ∧
        spanStart data r (k + 1) ≤ data.length ∧
        ((∀ i ≤ k, KeepsToSpan data (spanStart data r i)) → Contained data r k a)) ∧
      (headerSize ≤ field data 0x14 2 → ((∀ k a, r.attributes[k]? = some a → Contained data r k a) ↔
        ∀ k < r.attributes.length, KeepsToSpan data (spanStart data r k))) := by
  obtain ⟨-, -, hcollect⟩ := parseMftRecord_eq_ok h
  have hkept : ∀ k a, r.attributes[k]? = some a → (∀ i ≤ k, KeepsToSpan data (spanStart data r i)) →
      Contained data r k a := by
    intro k a hk hkeeps data' r' h' hheader hspans
    have hoffset : field data' 0x14 2 = field data 0x14 2 := hheader.field (Nat.zero_le _) (by decide)
    obtain ⟨-, -, hcollect'⟩ := parseMftRecord_eq_ok h'
    rw [hoffset] at hcollect'
    rw [spanStart, startOf_zero] at hspans
    exact attribute_congr hcollect hk hkeeps hspans hcollect'
  refine ⟨fun k a hk => ?_, fun hheader => ⟨fun hall => ?_, fun hkeeps k a hk => ?_⟩⟩
  · have hpass := attribute_at hcollect hk
    obtain ⟨hp, hnext⟩ := parseAttribute_parsed hpass
    have hpos := hp.has.2.2.1
    rw [← hp.totalSize] at hnext hpos
    exact ⟨hpass, Nat.pos_of_ne_zero hpos, hnext,
      hnext.trans_le (hp.totalSize ▸ hp.has.2.2.2), hkept k a hk⟩
  · intro k
    -- the first attribute that does not keep to its span is not contained
    induction k using Nat.strong_induction_on with
    | _ k ih =>
      intro hlt
      by_contra hleak
      have hk := List.getElem?_eq_getElem hlt
      have hpass := attribute_at hcollect hk
      obtain ⟨hp, hnext⟩ := parseAttribute_parsed hpass
      obtain ⟨d, hagree, hdiffers⟩ := exists_differs hp (attributeFine_of_parsed hpass) hleak
      rw [← hnext] at hagree
      obtain ⟨r', hr', hne⟩ := exists_record h hk (fun i hi => ih i hi (hi.trans hlt)) hheader
        hagree hdiffers
      have hbefore := le_startOf (field data 0x14 2) r.attributes (k + 1)
      exact hne (hall k _ hk d r' hr' (hagree.mono le_rfl (hheader.trans hbefore))
        (hagree.mono (Nat.zero_le _) le_rfl))
  · have hlt : k < r.attributes.length := (List.getElem?_eq_some_iff.mp hk).1
    exact hkept k a hk fun i hi => hkeeps i (hi.trans_lt hlt)

/-- The header of a resident `$DATA` attribute, and what follows it. -/
def residentData (totalSize contentOffset contentSize : Byte) (rest : List Byte) : List Byte :=
  [0x80, 0, 0, 0, totalSize, 0, 0, 0, 0, 0, 0, 0, 0, 0, 0, 0, contentSize, 0, 0, 0, contentOffset,
    0, 0, 0] ++ rest

def fourBytes (totalSize : Nat) (content : List Byte) : NtfsAttribute :=
  ⟨.data, totalSize, false, none, some content, [], 4, 4⟩

def enclosed : List Byte :=
  recordOf (residentData 0x1C 0x18 4 [1, 2, 3, 4] ++
    residentData 0x20 0x1C 4 [0, 0, 0, 0, 5, 6, 7, 8] ++ endMarker)

def enclosedRecord : MftRecord :=
  ⟨0, 0, 0, [fourBytes 0x1C [1, 2, 3, 4], fourBytes 0x20 [5, 6, 7, 8]], 0⟩

theorem enclosed_contained : parseMftRecord enclosed = .ok (.ok enclosedRecord) ∧
    ∀ k a, enclosedRecord.attributes[k]? = some a → Contained enclosed enclosedRecord k a := by
  have hparsed : parseMftRecord enclosed = .ok (.ok enclosedRecord) := by decide +kernel
  have hresident : ∀ offset, byteAt enclosed (offset + 8) = 0 → 0x14 ≤ sizeAt enclosed offset →
      greatest enclosed (offset + 0x14) (offset + sizeAt enclosed offset) +
        field enclosed (offset + 0x10) 4 ≤
        sizeAt enclosed offset → KeepsToSpan enclosed offset := fun offset hflag hsize hcontent =>
    ⟨by omega, fun _ => ⟨hsize, .inr
      (.inr hcontent)⟩, fun hne => absurd hflag hne, fun hne => absurd hflag hne⟩
  refine ⟨hparsed, ((attributes_contained hparsed).2 (by decide +kernel)).mpr fun k hk => ?_⟩
  obtain rfl | rfl : k = 0 ∨ k = 1 := by
    have hlt : k < 2 := hk
    omega
  · exact hresident _ (by decide +kernel) (by decide +kernel) (by decide +kernel)
  · exact hresident _ (by decide +kernel) (by decide +kernel) (by decide +kernel)

def leaking (next : List Byte) : List Byte := recordOf (residentData 0x18 0x18 4 next)

/-- The bytes behind the attribute are taken for its content. -/
theorem leaked_not_contained : ∃ r r', parseMftRecord (leaking endMarker) = .ok (.ok r) ∧
    parseMftRecord (leaking []) = .ok (.ok r') ∧ AgreeOn (leaking endMarker) (leaking []) 0 headerSize ∧
    AgreeOn (leaking endMarker) (leaking []) (spanStart (leaking endMarker) r 0)
    (spanStart (leaking endMarker) r 1) ∧
    r.attributes[0]? = some (fourBytes 0x18 endMarker) ∧
      r'.attributes[0]? = some (fourBytes 0x18 [0, 0, 0, 0]) := by
  -- The two records only differ behind the attribute.
  have hbytes : ∀ i < 0x50, byteAt (leaking []) i = byteAt (leaking endMarker) i := by decide +kernel
  refine ⟨⟨0, 0, 0, [fourBytes 0x18 endMarker], 0⟩, ⟨0, 0, 0, [fourBytes 0x18 [0, 0, 0, 0]], 0⟩,
    by decide +kernel, by decide +kernel, ⟨by decide +kernel, ?_⟩, ⟨by decide +kernel, ?_⟩, rfl, rfl⟩
  · exact fun i _ hi => hbytes i (hi.trans (by decide))
  · exact fun i _ hi => hbytes i hi

end DeltaOS.NtfsContainment
