import DeltaOS.ByteMemory

namespace DeltaOS.ByteSlices

inductive Panic
  | index
  | slice
  | shift
  | outOfFuel
deriving DecidableEq, Repr

instance decidableEqExcept {ε α : Type} [DecidableEq ε] [DecidableEq α] : DecidableEq (Except ε α)
  | .error a, .error b => decidable_of_iff (a = b) (by rw [Except.error.injEq])
  | .ok a, .ok b => decidable_of_iff (a = b) (by rw [Except.ok.injEq])
  | .error _, .ok _ => isFalse (by simp)
  | .ok _, .error _ => isFalse (by simp)

def index (data : List Byte) (i : Nat) : Except Panic Byte :=
  if h : i < data.length then .ok data[i] else .error .index

def slice (data : List Byte) (start stop : Nat) : Except Panic (List Byte) :=
  if start ≤ stop ∧ stop ≤ data.length then .ok ((data.take stop).drop start) else .error .slice

def shl (v : BitVec 64) (n : Nat) : Except Panic (BitVec 64) :=
  if n < 64 then .ok (v <<< n) else .error .shift

/-- The little-endian number in the `n` bytes from `offset` on. -/
def readLe (data : List Byte) (offset : Nat) : Nat → Except Panic Nat
  | 0 => pure 0
  | n + 1 => do
    let b ← index data offset
    let v ← readLe data (offset + 1) n
    pure (b.toNat + 256 * v)

def byteAt (data : List Byte) (i : Nat) : Byte := data.getD i 0

/-- What `readLe` reads where all bytes are there. -/
def field (data : List Byte) (offset : Nat) : Nat → Nat
  | 0 => 0
  | n + 1 => (byteAt data offset).toNat + 256 * field data (offset + 1) n

/-- The low `n` bytes of a number, the lowest first. -/
def leBytes : Nat → Nat → List Byte
  | 0, _ => []
  | n + 1, v => BitVec.ofNat 8 v :: leBytes n (v / 256)

variable {data image : List Byte} {offset start stop i n : Nat}

@[simp]
theorem ok_bind {ε α β : Type} (a : α) (f : α → Except ε β) : (Except.ok a >>= f) = f a := rfl

@[simp]
theorem error_bind {ε α β : Type} (e : ε) (f : α → Except ε β) : (Except.error e >>= f) = .error e := rfl

theorem bind_eq_ok {ε α β : Type} {x : Except ε α} {f : α → Except ε β} {b : β} (h : x >>= f = .ok b) :
    ∃ a, x = .ok a ∧ f a = .ok b := by
  cases x with
  | error e => cases h
  | ok a => exact ⟨a, rfl, h⟩

theorem map_eq_ok {ε α β : Type} {x : Except ε α} {f : α → β} {b : β} (h : f <$> x = .ok b) :
    ∃ a, x = .ok a ∧ f a = b := by
  cases x with
  | error e => cases h
  | ok a => exact ⟨a, rfl, Except.ok.inj h⟩

theorem foldlM_range_succ {ε β : Type} (f : β → Nat → Except ε β) (b : β) (n : Nat) :
    (List.range (n + 1)).foldlM f b = (List.range n).foldlM f b >>= fun v => f v n := by
  rw [List.range_succ, List.foldlM_append]
  congr 1
  funext v
  exact bind_pure (f v n)

theorem foldlM_ok {ε ι β : Type} {f : β → ι → Except ε β} (h : ∀ b i, ∃ b', f b i = .ok b') (is : List ι)
    (b : β) : ∃ b', is.foldlM f b = .ok b' := by
  induction is generalizing b with
  | nil => exact ⟨b, rfl⟩
  | cons i is ih =>
    obtain ⟨b', hb'⟩ := h b i
    rw [List.foldlM_cons, hb', ok_bind]
    exact ih b'

theorem index_ok (h : i < data.length) : index data i = .ok (byteAt data i) := by
  rw [index, dif_pos h, byteAt, List.getD_eq_getElem _ _ h]

theorem slice_ok (h : start ≤ stop) (hstop : stop ≤ data.length) :
    slice data start stop = .ok ((data.take stop).drop start) := if_pos ⟨h, hstop⟩

theorem slice_inverted (h : stop < start) : slice data start stop = .error .slice :=
  if_neg fun hle => absurd hle.1 (not_le.mpr h)

theorem shl_ok {v : BitVec 64} (h : n < 64) : shl v n = .ok (v <<< n) := if_pos h

theorem shl_over {v : BitVec 64} (h : 64 ≤ n) : shl v n = .error .shift := if_neg (not_lt.mpr h)

theorem readLe_ok (h : offset + n ≤ data.length) : readLe data offset n = .ok (field data offset n) := by
  induction n generalizing offset with
  | zero => rfl
  | succ n ih =>
    have hhead : offset < data.length := by omega
    have htail : offset + 1 + n ≤ data.length := by omega
    rw [readLe, index_ok hhead, ok_bind, ih htail, ok_bind, field]
    rfl

theorem field_congr (h : ∀ i < n, byteAt data (offset + i) = byteAt image (start + i)) :
    field data offset n = field image start n := by
  induction n generalizing offset start with
  | zero => rfl
  | succ n ih =>
    have hhead := h 0 n.succ_pos
    have htail : field data (offset + 1) n = field image (start + 1) n := by
      apply ih
      intro i hi
      rw [Nat.add_assoc, Nat.add_comm 1, Nat.add_assoc start, Nat.add_comm 1]
      exact h (i + 1) (Nat.succ_lt_succ hi)
    rw [field, field, htail, ← Nat.add_zero offset, ← Nat.add_zero start, hhead]

theorem byteAt_of_field_eq (h : field data offset n = field image start n) (hi : i < n) :
    byteAt data (offset + i) = byteAt image (start + i) := by
  induction n generalizing offset start i with
  | zero => cases hi
  | succ n ih =>
    have hdata := (byteAt data offset).isLt
    have himage := (byteAt image start).isLt
    rw [field, field] at h
    cases i with
    | zero => exact BitVec.eq_of_toNat_eq (by rw [Nat.add_zero, Nat.add_zero]; omega)
    | succ i =>
      have htail : field data (offset + 1) n = field image (start + 1) n := by omega
      have hrest := ih htail (Nat.lt_of_succ_lt_succ hi)
      rwa [Nat.add_assoc, Nat.add_comm 1, Nat.add_assoc, Nat.add_comm 1] at hrest

theorem field_eq_zero (h : ∀ i < n, byteAt data (offset + i) = 0) : field data offset n = 0 := by
  induction n generalizing offset with
  | zero => rfl
  | succ n ih =>
    have hhead : byteAt data offset = 0 := h 0 n.succ_pos
    have htail : field data (offset + 1) n = 0 := by
      apply ih
      intro i hi
      rw [Nat.add_assoc, Nat.add_comm 1]
      exact h (i + 1) (Nat.succ_lt_succ hi)
    rw [field, hhead, htail]
    rfl

theorem byteAt_placed (h : image <+: data.drop offset) (hi : i < image.length) :
    byteAt data (offset + i) = byteAt image i := by
  obtain ⟨rest, hrest⟩ := h
  have hdata : data[offset + i]? = image[i]? := by
    rw [← List.getElem?_drop, ← hrest, List.getElem?_append_left hi]
  rw [byteAt, byteAt, List.getD_eq_getElem?_getD, List.getD_eq_getElem?_getD, hdata]

theorem field_placed (h : image <+: data.drop offset) (hle : start + n ≤ image.length) :
    field data (offset + start) n = field image start n := by
  apply field_congr
  intro i hi
  rw [Nat.add_assoc]
  exact byteAt_placed h (by omega)

theorem field_last (data : List Byte) (offset n : Nat) :
    field data offset (n + 1) = field data offset n + 256 ^ n * (byteAt data (offset + n)).toNat := by
  induction n generalizing offset with
  | zero => simp [field]
  | succ n ih =>
    have hoffset : offset + 1 + n = offset + (n + 1) := by omega
    rw [field, ih, field, hoffset]
    ring

theorem field_lt (data : List Byte) (offset n : Nat) : field data offset n < 256 ^ n := by
  induction n generalizing offset with
  | zero => exact Nat.one_pos
  | succ n ih =>
    have hhead := (byteAt data offset).isLt
    have htail := ih (offset + 1)
    rw [field, pow_succ]
    omega

@[simp]
theorem length_leBytes (n v : Nat) : (leBytes n v).length = n := by
  induction n generalizing v with
  | zero => rfl
  | succ n ih => rw [leBytes, List.length_cons, ih]

theorem field_leBytes (n v : Nat) : field (leBytes n v) 0 n = v % 256 ^ n := by
  induction n generalizing v with
  | zero => rw [field, pow_zero, Nat.mod_one]
  | succ n ih =>
    have htail : field (leBytes (n + 1) v) 1 n = field (leBytes n (v / 256)) 0 n := by
      apply field_congr
      intro i hi
      rw [leBytes, Nat.add_comm, Nat.zero_add]
      rfl
    have hhead : (byteAt (leBytes (n + 1) v) 0).toNat = v % 256 := BitVec.toNat_ofNat v 8
    rw [field, htail, ih, hhead, pow_succ', Nat.mod_mul]

theorem slice_placed (h : image <+: data.drop offset) (hle : stop ≤ image.length) :
    (data.take (offset + stop)).drop (offset + start) = (image.take stop).drop start := by
  obtain ⟨rest, hrest⟩ := h
  rw [← List.drop_drop, List.drop_take, Nat.add_sub_cancel_left, ← hrest,
    List.take_append_of_le_length hle]

theorem slice_congr (hlen : image.length = data.length)
    (h : ∀ i, start ≤ i → i < stop → byteAt image i = byteAt data i) :
    (image.take stop).drop start = (data.take stop).drop start := by
  apply List.ext_getElem
  · rw [List.length_drop, List.length_drop, List.length_take, List.length_take, hlen]
  · intro i hi _
    rw [List.length_drop, List.length_take] at hi
    have hbyte := h (start + i) (Nat.le_add_right _ _) (by omega)
    rw [byteAt, byteAt, List.getD_eq_getElem _ _ (by omega), List.getD_eq_getElem _ _ (by omega)]
      at hbyte
    simpa using hbyte

theorem byteAt_of_slice_eq (h : (data.take (start + n)).drop start = (image.take (stop + n)).drop stop)
    (hi : i < n) : byteAt data (start + i) = byteAt image (stop + i) := by
  have hget : ((data.take (start + n)).drop start)[i]? = ((image.take (stop + n)).drop stop)[i]? :=
    by rw [h]
  rw [List.getElem?_drop, List.getElem?_drop, List.getElem?_take_of_lt (by omega),
    List.getElem?_take_of_lt (by omega)] at hget
  rw [byteAt, byteAt, List.getD_eq_getElem?_getD, List.getD_eq_getElem?_getD, hget]

theorem byteAt_past (h : data.length ≤ i) : byteAt data i = 0 := List.getD_eq_default _ _ h

end DeltaOS.ByteSlices
