import DeltaOS.Ntfs
import DeltaOS.Overflow

namespace DeltaOS.RunLists

open ByteSlices Cursor Ntfs Overflow

/-- A run and the widths its two fields are written with, wide enough for their values. -/
structure MappingPair where
  run : DataRun
  lengthWidth : Nat
  offsetWidth : Nat
  lengthWidth_pos : 0 < lengthWidth
  lengthWidth_le : lengthWidth ≤ 8
  offsetWidth_pos : 0 < offsetWidth
  offsetWidth_le : offsetWidth ≤ 8
  length_lt : run.length.toNat < 256 ^ lengthWidth
  le_offset : -2 ^ (8 * offsetWidth - 1) ≤ run.offset.toInt
  offset_lt : run.offset.toInt < 2 ^ (8 * offsetWidth - 1)

namespace MappingPair

def header (p : MappingPair) : Byte := BitVec.ofNat 8 (16 * p.offsetWidth + p.lengthWidth)

def encode (p : MappingPair) : List Byte :=
  p.header :: (leBytes p.lengthWidth p.run.length.toNat ++ leBytes p.offsetWidth p.run.offset.toNat)

/-- What the parser makes of the run: the mask that extends a sign over eight bytes is shifted by
the whole width of the word. -/
def decoded (profile : Profile) (p : MappingPair) : Except Panic DataRun :=
  if p.offsetWidth = 8 ∧ p.run.offset.toInt < 0 then
    (shift profile (BitVec.allOnes 64) 64).map fun sign => { p.run with offset := p.run.offset ||| sign }
  else .ok p.run

end MappingPair

def encode (pairs : List MappingPair) : List Byte := pairs.flatMap MappingPair.encode

variable {profile : Profile} {data rest : List Byte} {offset len n : Nat} {p : MappingPair}

theorem pow_256 (n : Nat) : 256 ^ n = 2 ^ (n * 8) := by
  rw [Nat.mul_comm, pow_mul]
  rfl

theorem or_shifted {v : Nat} (b : Byte) (hv : v < 256 ^ n) (hn : n < 8) :
    BitVec.ofNat 64 v ||| b.setWidth 64 <<< (n * 8) = BitVec.ofNat 64 (v + 256 ^ n * b.toNat) := by
  have hpow := pow_256 n
  have hb : 2 ^ (n * 8) * b.toNat + v < 2 ^ 64 := by
    have hlt := b.isLt
    have htop : 2 ^ (n * 8) * 2 ^ 8 ≤ 2 ^ 64 := by
      rw [← pow_add]
      exact Nat.pow_le_pow_right (by decide) (by omega)
    have hmul : 2 ^ (n * 8) * (b.toNat + 1) ≤ 2 ^ (n * 8) * 2 ^ 8 := Nat.mul_le_mul_left _ hlt
    rw [hpow] at hv
    rw [Nat.mul_add, Nat.mul_one] at hmul
    omega
  apply BitVec.eq_of_toNat_eq
  rw [hpow] at hv ⊢
  rw [BitVec.toNat_or, BitVec.toNat_shiftLeft, BitVec.toNat_setWidth, BitVec.toNat_ofNat,
    BitVec.toNat_ofNat,
    Nat.shiftLeft_eq, Nat.mod_eq_of_lt (show b.toNat < 2 ^ 64 by omega), Nat.mul_comm b.toNat,
    Nat.mod_eq_of_lt (show v < 2 ^ 64 by omega),
      Nat.mod_eq_of_lt (show 2 ^ (n * 8) * b.toNat < 2 ^ 64 by omega),
    Nat.or_comm, ← Nat.two_pow_add_eq_or_of_lt hv, Nat.add_comm v, Nat.mod_eq_of_lt hb]

theorem runField_eq (h : offset + len ≤ data.length) (hlen : len ≤ 8) :
    runField profile data offset len = .ok (BitVec.ofNat 64 (field data offset len)) := by
  induction len with
  | zero => rfl
  | succ len ih =>
    have hlt : len < 8 := hlen
    rw [runField_succ, ih (by omega) (by omega), ok_bind, orByte_ok (by omega) hlt,
      or_shifted _ (field_lt data offset len) hlt, field_last]

theorem signBit_iff (b : Byte) : b &&& 0x80 ≠ 0 ↔ 128 ≤ b.toNat := by
  revert b
  decide

theorem last_signBit_iff (data : List Byte) (offset : Nat) (hlen : 0 < len) :
    byteAt data (offset + len - 1) &&& 0x80 ≠ 0 ↔ 2 ^ (8 * len - 1) ≤ field data offset len := by
  obtain ⟨k, rfl⟩ := Nat.exists_eq_add_of_lt hlen
  rw [Nat.zero_add] at *
  have hlow := field_lt data offset k
  have hpow : 2 ^ (8 * (k + 1) - 1) = 256 ^ k * 128 := by
    rw [pow_256, show (128 : Nat) = 2 ^ 7 from rfl, ← pow_add]
    congr 1
    omega
  rw [signBit_iff, field_last, hpow, ← Nat.add_assoc, Nat.add_sub_cancel]
  constructor
  · intro h
    exact (Nat.mul_le_mul_left _ h).trans (Nat.le_add_left _ _)
  · intro h
    by_contra hlt
    have hle : 256 ^ k * ((byteAt data (offset + k)).toNat + 1) ≤ 256 ^ k * 128 :=
      Nat.mul_le_mul_left _ (not_le.mp hlt)
    rw [Nat.mul_add, Nat.mul_one] at hle
    omega

theorem or_signMask {v k : Nat} (hv : v < 2 ^ k) (hk : k ≤ 64) :
    (BitVec.ofNat 64 v ||| BitVec.allOnes 64 <<< k).toNat = 2 ^ 64 - 2 ^ k + v := by
  have hle : 2 ^ k ≤ 2 ^ 64 := Nat.pow_le_pow_right (by decide) hk
  have hsplit : 2 ^ k * (2 ^ (64 - k) - 1) = 2 ^ 64 - 2 ^ k := by
    rw [Nat.mul_sub, ← pow_add, Nat.add_sub_cancel' hk, Nat.mul_one]
  have hmask : (BitVec.allOnes 64 <<< k).toNat = 2 ^ k * (2 ^ (64 - k) - 1) := by
    rw [BitVec.toNat_shiftLeft, BitVec.toNat_allOnes, Nat.shiftLeft_eq, Nat.sub_mul, Nat.one_mul, hsplit]
    have hrep : 2 ^ 64 * 2 ^ k - 2 ^ k = (2 ^ 64 - 2 ^ k) + 2 ^ 64 * (2 ^ k - 1) := by
      rw [Nat.mul_sub, Nat.mul_one]
      have hmul : 2 ^ 64 ≤ 2 ^ 64 * 2 ^ k := Nat.le_mul_of_pos_right _ (Nat.two_pow_pos k)
      omega
    have hlt : 2 ^ 64 - 2 ^ k < 2 ^ 64 := Nat.sub_lt (by decide) (Nat.two_pow_pos k)
    rw [hrep, Nat.add_mul_mod_self_left, Nat.mod_eq_of_lt hlt]
  rw [BitVec.toNat_or, hmask, BitVec.toNat_ofNat, Nat.mod_eq_of_lt (hv.trans_le hle), Nat.or_comm,
    ← Nat.two_pow_add_eq_or_of_lt hv, hsplit]

theorem parseRunOffset_eq (length : BitVec 64) (h : offset + len ≤ data.length) (hpos : 0 < len)
    (hlen : len ≤ 8) : parseRunOffset profile data offset len length =
      (fun sign => some (⟨length, BitVec.ofNat 64 (field data offset len) ||| sign⟩, offset + len)) <$>
        if 2 ^ (8 * len - 1) ≤ field data offset len then shift profile (BitVec.allOnes 64) (len * 8)
        else .ok 0 := by
  rw [parseRunOffset, if_neg (Nat.ne_of_gt hpos), if_neg (not_lt.mpr h), runField_eq h hlen, ok_bind,
    index_ok (by omega), ok_bind]
  simp only [last_signBit_iff data offset hpos]
  split_ifs <;> rfl

namespace MappingPair

theorem sizeLen_header (p : MappingPair) :
    sizeLen p.header = p.lengthWidth ∧ offsetLen p.header = p.offsetWidth := by
  have hall : ∀ lw < 9, ∀ ow < 9, sizeLen (BitVec.ofNat 8 (16 * ow + lw)) = lw ∧
      offsetLen (BitVec.ofNat 8 (16 * ow + lw)) = ow := by decide
  exact hall _ (Nat.lt_succ_of_le p.lengthWidth_le) _ (Nat.lt_succ_of_le p.offsetWidth_le)

theorem length_encode (p : MappingPair) : p.encode.length = 1 + p.lengthWidth + p.offsetWidth := by
  rw [encode, List.length_cons, List.length_append, length_leBytes, length_leBytes]
  omega

theorem field_length (p : MappingPair) : field p.encode 1 p.lengthWidth = p.run.length.toNat := by
  have hplaced : leBytes p.lengthWidth p.run.length.toNat <+: p.encode.drop 1 := List.prefix_append _ _
  have hfield : field p.encode (1 + 0) p.lengthWidth =
      field (leBytes p.lengthWidth p.run.length.toNat) 0 p.lengthWidth := field_placed hplaced (by simp)
  rw [hfield, field_leBytes, Nat.mod_eq_of_lt p.length_lt]

theorem field_offset (p : MappingPair) : field p.encode (1 + p.lengthWidth) p.offsetWidth =
    p.run.offset.toNat % 2 ^ (8 * p.offsetWidth) := by
  have hdrop : p.encode.drop (1 + p.lengthWidth) = leBytes p.offsetWidth p.run.offset.toNat := by
    rw [encode, Nat.add_comm, List.drop_succ_cons]
    exact List.drop_left' (length_leBytes _ _)
  have hplaced : leBytes p.offsetWidth p.run.offset.toNat <+: p.encode.drop (1 + p.lengthWidth) := by
    rw [hdrop]
  have hfield : field p.encode (1 + p.lengthWidth + 0) p.offsetWidth =
      field (leBytes p.offsetWidth p.run.offset.toNat) 0 p.offsetWidth := field_placed hplaced (by simp)
  rw [← Nat.add_zero (1 + p.lengthWidth), hfield, field_leBytes, pow_256, Nat.mul_comm]

theorem two_pow_width (p : MappingPair) : 2 ^ (8 * p.offsetWidth) = 2 * 2 ^ (8 * p.offsetWidth - 1) := by
  have hpos := p.offsetWidth_pos
  rw [← pow_succ']
  congr 1
  omega

theorem toNat_of_nonneg (h : 0 ≤ p.run.offset.toInt) :
    p.run.offset.toNat < 2 ^ (8 * p.offsetWidth - 1) := by
  have hlt := p.offset_lt
  have hword := p.run.offset.isLt
  rw [BitVec.toInt_eq_toNat_cond] at h hlt
  split at h
  · rw [if_pos ‹_›] at hlt
    exact_mod_cast hlt
  · omega

theorem toNat_of_neg (h : p.run.offset.toInt < 0) :
    2 ^ 64 ≤ p.run.offset.toNat + 2 ^ (8 * p.offsetWidth - 1) := by
  have hle := p.le_offset
  rw [BitVec.toInt_eq_toNat_cond] at h hle
  split at h
  · omega
  · have hcast : (2 : Int) ^ (8 * p.offsetWidth - 1) = ((2 ^ (8 * p.offsetWidth - 1) : Nat) : Int) := by
      push_cast
      rfl
    rw [if_neg ‹_›, hcast] at hle
    omega

theorem mod_of_neg (h : p.run.offset.toInt < 0) : 2 ^ (8 * p.offsetWidth - 1) ≤
    p.run.offset.toNat % 2 ^ (8 * p.offsetWidth) ∧
      2 ^ 64 - 2 ^ (8 * p.offsetWidth) + p.run.offset.toNat % 2 ^ (8 * p.offsetWidth) =
        p.run.offset.toNat := by
  have hpow := p.two_pow_width
  have hge := toNat_of_neg h
  have hlt := p.run.offset.isLt
  have hle : 2 ^ (8 * p.offsetWidth) ≤ 2 ^ 64 :=
    Nat.pow_le_pow_right (by decide) (by have := p.offsetWidth_le; omega)
  have hdvd : 2 ^ (8 * p.offsetWidth) ∣ 2 ^ 64 - 2 ^ (8 * p.offsetWidth) :=
    Nat.dvd_sub (pow_dvd_pow 2 (by have := p.offsetWidth_le; omega)) dvd_rfl
  obtain ⟨r, hr⟩ := Nat.exists_eq_add_of_le (show 2 ^ 64 - 2 ^ (8 * p.offsetWidth) ≤
    p.run.offset.toNat by omega)
  have hmod : p.run.offset.toNat % 2 ^ (8 * p.offsetWidth) = r := by
    rw [hr, Nat.add_mod, Nat.mod_eq_zero_of_dvd hdvd, Nat.zero_add, Nat.mod_mod,
      Nat.mod_eq_of_lt (by omega)]
  rw [hmod]
  omega

theorem decode_offset (p : MappingPair) :
    (fun sign => (⟨p.run.length, BitVec.ofNat 64 (p.run.offset.toNat % 2 ^ (8 * p.offsetWidth)) |||
      sign⟩ : DataRun)) <$>
      (if 2 ^ (8 * p.offsetWidth - 1) ≤ p.run.offset.toNat % 2 ^ (8 * p.offsetWidth) then
        shift profile (BitVec.allOnes 64) (p.offsetWidth * 8)
      else .ok 0) = p.decoded profile := by
  have hpow := p.two_pow_width
  by_cases hneg : p.run.offset.toInt < 0
  · obtain ⟨hsign, hmod⟩ := mod_of_neg hneg
    rw [if_pos hsign, decoded]
    by_cases hwidth : p.offsetWidth = 8
    · have hself : p.run.offset.toNat % 2 ^ (8 * p.offsetWidth) = p.run.offset.toNat := by
        rw [hwidth]
        exact Nat.mod_eq_of_lt p.run.offset.isLt
      rw [if_pos ⟨hwidth, hneg⟩, hself, BitVec.ofNat_toNat, BitVec.setWidth_eq, hwidth]
      rfl
    · have hle := p.offsetWidth_le
      have hlt : p.run.offset.toNat % 2 ^ (8 * p.offsetWidth) < 2 ^ (8 * p.offsetWidth) :=
        Nat.mod_lt _ (Nat.two_pow_pos _)
      have hoffset := or_signMask hlt (by omega)
      rw [hmod] at hoffset
      rw [if_neg fun h => hwidth h.1, Nat.mul_comm p.offsetWidth, shift_ok (by omega)]
      exact congrArg (fun x => Except.ok (DataRun.mk p.run.length x)) (BitVec.eq_of_toNat_eq hoffset)
  · have hlt := toNat_of_nonneg (not_lt.mp hneg)
    have hself : p.run.offset.toNat % 2 ^ (8 * p.offsetWidth) = p.run.offset.toNat :=
      Nat.mod_eq_of_lt (by omega)
    rw [hself, if_neg (not_le.mpr hlt), decoded, if_neg fun h => hneg h.2, BitVec.ofNat_toNat,
      BitVec.setWidth_eq]
    exact congrArg (fun x => Except.ok (DataRun.mk p.run.length x)) BitVec.or_zero

end MappingPair

theorem parseRun_encoded (h : p.encode <+: data.drop offset) :
    parseRun profile data offset =
      (fun run => some (run, offset + p.encode.length)) <$> p.decoded profile := by
  have hroom := h.length_le
  obtain ⟨hsize, hoffset⟩ := p.sizeLen_header
  have hbyte : byteAt data offset = p.header := byteAt_placed (i := 0) h (by rw [p.length_encode]; omega)
  have hlength : field data (offset + 1) p.lengthWidth = p.run.length.toNat := by
    rw [field_placed h (by rw [p.length_encode]; omega), p.field_length]
  have hsigned : field data (offset + 1 + p.lengthWidth) p.offsetWidth =
      p.run.offset.toNat % 2 ^ (8 * p.offsetWidth) := by
    rw [Nat.add_assoc, field_placed h (by rw [p.length_encode]), p.field_offset]
  have hpos := p.lengthWidth_pos
  rw [p.length_encode, List.length_drop] at hroom
  have hne : p.header ≠ 0 := by
    intro hzero
    rw [hzero] at hsize
    exact absurd hsize (Nat.ne_of_lt hpos)
  rw [parseRun, if_pos (by omega), index_ok (by omega), ok_bind, hbyte, if_neg hne, hsize, hoffset,
    if_neg (by omega), runField_eq (by omega) p.lengthWidth_le, ok_bind, hlength, BitVec.ofNat_toNat,
    BitVec.setWidth_eq, parseRunOffset_eq _ (by omega) p.offsetWidth_pos p.offsetWidth_le, hsigned,
    ← p.decode_offset, p.length_encode, Functor.map_map]
  have hend : offset + 1 + p.lengthWidth + p.offsetWidth = offset +
      (1 + p.lengthWidth + p.offsetWidth) := by omega
  rw [hend]

theorem parseRun_zero (h : [0] <+: data.drop offset) : parseRun profile data offset = .ok none := by
  have hroom := h.length_le
  have hbyte : byteAt data offset = 0 := byteAt_placed (i := 0) h Nat.one_pos
  rw [List.length_singleton, List.length_drop] at hroom
  rw [parseRun, if_pos (by omega), index_ok (by omega), ok_bind, hbyte, if_pos rfl]
  rfl

theorem chain_encoded {pairs : List MappingPair} (h : data.drop offset = encode pairs ++ 0 :: rest) :
    Chain (parseRun profile data) (MappingPair.decoded profile) offset pairs := by
  induction pairs generalizing offset with
  | nil => exact .stop (parseRun_zero ⟨rest, h.symm⟩)
  | cons p pairs ih =>
    rw [encode, List.flatMap_cons, List.append_assoc] at h
    refine .item (parseRun_encoded ⟨_, h.symm⟩) (ih ?_)
    rw [← List.drop_drop, h, List.drop_left]
    rfl

theorem length_le_encode (pairs : List MappingPair) : pairs.length ≤ (encode pairs).length := by
  induction pairs with
  | nil => exact le_rfl
  | cons p pairs ih =>
    have hlen := p.length_encode
    rw [encode, List.flatMap_cons, List.length_append, List.length_cons]
    rw [encode] at ih
    omega

theorem parseRunList_encode (profile : Profile) (pairs : List MappingPair) (rest : List Byte) :
    parseRunList profile (encode pairs ++ 0 :: rest) = pairs.mapM (MappingPair.decoded profile) := by
  have hlen := length_le_encode pairs
  refine Chain.collect_eq (chain_encoded rfl) ?_
  rw [List.length_append, List.length_cons]
  omega

theorem mapM_eq_ok_iff {ε α β : Type} (f : β → Except ε α) (g : β → α) (bs : List β) :
    bs.mapM f = .ok (bs.map g) ↔ ∀ b ∈ bs, f b = .ok (g b) := by
  induction bs with
  | nil => simp [pure, Except.pure]
  | cons b bs ih =>
    rw [List.mapM_cons, List.forall_mem_cons, ← ih, List.map_cons]
    cases hb : f b with
    | error e => simp
    | ok a =>
      cases hbs : bs.mapM f with
      | error e => simp
      | ok as => simp [pure, Except.pure]

theorem decoded_debug_iff (p : MappingPair) :
    p.decoded .debug = .ok p.run ↔ (p.offsetWidth = 8 → 0 ≤ p.run.offset.toInt) := by
  rw [MappingPair.decoded]
  split_ifs with h
  · refine iff_of_false ?_ fun hall => absurd (hall h.1) (not_le.mpr h.2)
    rw [shift, shl_over le_rfl]
    intro heq
    cases heq
  · refine iff_of_true rfl fun hwidth => ?_
    exact not_lt.mp fun hneg => h ⟨hwidth, hneg⟩

theorem decoded_release_iff (p : MappingPair) :
    p.decoded .release = .ok p.run ↔ (p.offsetWidth = 8 → -1 ≤ p.run.offset.toInt) := by
  rw [MappingPair.decoded]
  split_ifs with h
  · have hones : (BitVec.allOnes 64).toInt = -1 := by decide
    have hrun : (shift .release (BitVec.allOnes 64) 64).map
        (fun sign => { p.run with offset := p.run.offset ||| sign }) =
          .ok { p.run with offset := BitVec.allOnes 64 } := by
      rw [shift, Nat.mod_self, BitVec.shiftLeft_zero]
      exact congrArg (fun x => Except.ok (DataRun.mk p.run.length x)) BitVec.or_allOnes
    rw [hrun]
    constructor
    · intro heq _
      have hoffset := congrArg (fun run : DataRun => run.offset.toInt) (Except.ok.inj heq)
      exact (hones.symm.trans hoffset).le
    · intro hge
      have htoInt : (BitVec.allOnes 64).toInt = p.run.offset.toInt := by
        have hlow := hge h.1
        have hneg := h.2
        omega
      rw [BitVec.eq_of_toInt_eq htoInt]
  · refine iff_of_true rfl fun hwidth => ?_
    have hnonneg : 0 ≤ p.run.offset.toInt := not_lt.mp fun hneg => h ⟨hwidth, hneg⟩
    omega

/-- The parser gives the encoded runs back exactly when no negative offset is written in eight
bytes. A release build reads each such offset as `-1`. -/
theorem parseRunList_encode_iff (pairs : List MappingPair) (rest : List Byte) :
    (parseRunList .debug (encode pairs ++ 0 :: rest) = .ok (pairs.map MappingPair.run) ↔
      ∀ p ∈ pairs, p.offsetWidth = 8 → 0 ≤ p.run.offset.toInt) ∧
    (parseRunList .release (encode pairs ++ 0 :: rest) = .ok (pairs.map MappingPair.run) ↔
      ∀ p ∈ pairs, p.offsetWidth = 8 → -1 ≤ p.run.offset.toInt) := by
  rw [parseRunList_encode, parseRunList_encode, mapM_eq_ok_iff, mapM_eq_ok_iff]
  exact ⟨forall₂_congr fun p _ => decoded_debug_iff p, forall₂_congr fun p _ => decoded_release_iff p⟩

/-- One cluster, two before the start, with the offset in eight bytes. -/
def wideStep : MappingPair where
  run := ⟨1, -2⟩
  lengthWidth := 1
  offsetWidth := 8
  lengthWidth_pos := by decide
  lengthWidth_le := by decide
  offsetWidth_pos := by decide
  offsetWidth_le := by decide
  length_lt := by decide
  le_offset := by decide
  offset_lt := by decide

theorem wideStep_lost :
    parseRunList .debug (encode [wideStep] ++ [0]) = .error .shift ∧
      parseRunList .release (encode [wideStep] ++ [0]) = .ok [⟨1, -1⟩] := by
  decide +kernel

end DeltaOS.RunLists
