import DeltaOS.Keyboard
import DeltaOS.RingBuffer
import DeltaOS.Runs

namespace DeltaOS.KeyboardFifo

open Keyboard RingBuffer Runs

def released (code : Byte) : Bool := code &&& 0x80 != 0

def keyOf (code : Byte) : Byte := code &&& 0x7F

def translate (shift : Bool) (key : Byte) : Byte :=
  (if shift then scancodeToAsciiShift else scancodeToAscii).getD key.toNat 0

def charOf (ch : Byte) : Option Byte := if ch = 0 then none else some ch

def decode (k : KeyboardState) (code : Byte) : Option Byte :=
  if (keyOf code = 0x2A ∨ keyOf code = 0x36) ∨ keyOf code = 0x3A ∨ released code then none
  else charOf (translate k.shiftPressed (keyOf code))

def modified (k : KeyboardState) (code : Byte) : KeyboardState :=
  { k with
    shiftPressed := if keyOf code = 0x2A ∨ keyOf code = 0x36 then !released code else k.shiftPressed
    capsLock := if keyOf code = 0x3A ∧ released code = false then !k.capsLock else k.capsLock }

def typed (k : KeyboardState) (code : Byte) : Option Byte → KeyboardState
  | some ch => k.put ch
  | none => modified k code

def enqueued (k k' : KeyboardState) : Option Byte :=
  if k'.head = k.head then none else some (k'.buffer k.head)

/-- The keyboard, with the characters it has accepted and those that the reads have returned. -/
structure Session where
  keyboard : KeyboardState
  accepted : List Byte
  returned : List Byte

def Session.initial : Session := ⟨.initial, [], []⟩

inductive Op
  | scancode (code : Byte)
  | readChar

def step (s : Session) : Op → Session
  | .scancode code =>
    let k := handleKeyboardScancode s.keyboard code
    { s with keyboard := k, accepted := s.accepted ++ (enqueued s.keyboard k).toList }
  | .readChar =>
    let r := keyboardReadChar s.keyboard
    { s with keyboard := r.2, returned := s.returned ++ if r.1 = 0 then [] else [r.1] }

/-- The keyboard is a lossless queue of at most 255 characters. -/
structure Fifo (s : Session) : Prop where
  order : s.returned <+: s.accepted
  accepts : ∀ code, enqueued s.keyboard (handleKeyboardScancode s.keyboard code) =
    if s.accepted.length = s.returned.length + 255 then none else decode s.keyboard code
  bounds : s.keyboard.head < 256 ∧ s.keyboard.tail < 256
  empty : (keyboardReadChar s.keyboard).1 = 0 ↔ s.accepted = s.returned
  hasData : keyboardHasData s.keyboard = true ↔ s.accepted ≠ s.returned

variable {k : KeyboardState} {s : Session}

theorem keyOf_lt (code : Byte) : (keyOf code).toNat < 128 := by
  rw [keyOf, BitVec.toNat_and]
  exact Nat.and_lt_two_pow _ (by decide : (0x7F : Byte).toNat < 2 ^ 7)

theorem charOf_ne_zero (ch : Byte) : charOf ch ≠ some 0 := by
  rw [charOf]
  split_ifs with hzero
  · exact nofun
  · exact fun h => hzero (Option.some.inj h)

theorem decode_ne_zero (k : KeyboardState) (code : Byte) : decode k code ≠ some 0 := by
  rw [decode]
  split_ifs
  · exact nofun
  · exact charOf_ne_zero _

theorem not_caps_of_shift {key : Byte} (hshift : key = 0x2A ∨ key = 0x36) : key ≠ 0x3A := by
  rintro rfl
  exact absurd hshift (by decide)

theorem modified_of_plain {code : Byte} (hshift : ¬(keyOf code = 0x2A ∨ keyOf code = 0x36))
    (hcaps : keyOf code ≠ 0x3A) : modified k code = k := by
  rw [modified, if_neg hshift, if_neg fun h => hcaps h.1]

theorem handleKeyboardScancode_eq (k : KeyboardState) (code : Byte) :
    handleKeyboardScancode k code = typed k code (decode k code) := by
  have hhandle : handleKeyboardScancode k code =
      if keyOf code = 0x2A ∨ keyOf code = 0x36 then { k with shiftPressed := !released code }
      else if keyOf code = 0x3A then if !released code then { k with capsLock := !k.capsLock } else k
      else if released code then k
      else if (keyOf code).toNat < 128 then
        if translate k.shiftPressed (keyOf code) ≠ 0
          then k.put (translate k.shiftPressed (keyOf code)) else k
      else k := rfl
  rw [hhandle, if_pos (keyOf_lt code), decode]
  clear hhandle
  by_cases hshift : keyOf code = 0x2A ∨ keyOf code = 0x36
  · have hcaps := not_caps_of_shift hshift
    simp only [hshift, hcaps, true_or, if_true, false_and, if_false, typed, modified]
  by_cases hcaps : keyOf code = 0x3A
  · simp only [hcaps, true_or, or_true, if_true, true_and, typed, modified]
    cases released code <;> rfl
  have hkept := modified_of_plain (k := k) hshift hcaps
  cases hup : released code with
  | true => simp only [hshift, hcaps, or_true, if_true, if_false, typed, hkept]
  | false =>
    simp only [hshift, hcaps, or_false, if_false, Bool.false_eq_true, charOf]
    by_cases hzero : translate k.shiftPressed (keyOf code) = 0
    · rw [if_neg (not_not.mpr hzero), if_pos hzero, typed, hkept]
    · rw [if_pos hzero, if_neg hzero, typed]

def unreadChars (k : KeyboardState) : List Byte := contents 256 k.buffer k.head k.tail

structure Bounded (k : KeyboardState) : Prop where
  head : k.head < 256
  tail : k.tail < 256

theorem Bounded.full_iff (hk : Bounded k) :
    (k.head + 1) % 256 = k.tail ↔ (unreadChars k).length = 255 := by
  rw [RingBuffer.full_iff hk.head hk.tail, unreadChars, length_contents]
  omega

theorem Bounded.next_ne (hk : Bounded k) : (k.head + 1) % 256 ≠ k.head := by
  rw [next_eq hk.head]
  split_ifs <;> omega

theorem put_full (hk : Bounded k) (hfull : (unreadChars k).length = 255) (ch : Byte) : k.put ch = k :=
  if_neg (not_not.mpr (hk.full_iff.mpr hfull))

theorem put_room (hk : Bounded k) (hroom : (unreadChars k).length ≠ 255) (ch : Byte) :
    Bounded (k.put ch) ∧ enqueued k (k.put ch) = some ch ∧
      unreadChars (k.put ch) = unreadChars k ++ [ch] := by
  have hnext : (k.head + 1) % 256 ≠ k.tail := fun h => hroom (hk.full_iff.mp h)
  have hput : k.put ch =
    { k with buffer := Function.update k.buffer k.head ch, head := (k.head + 1) % 256 } :=
    if_pos hnext
  rw [hput]
  refine ⟨⟨next_lt hk.head, hk.tail⟩, ?_, contents_put k.buffer hk.head hk.tail hnext ch⟩
  rw [enqueued, if_neg hk.next_ne]
  exact congrArg some (Function.update_self ..)

theorem enqueued_of_head {k' : KeyboardState} (h : k'.head = k.head) : enqueued k k' = none := if_pos h

theorem typed_enqueues (hk : Bounded k) (code : Byte) (ch : Option Byte) :
    Bounded (typed k code ch) ∧
      enqueued k (typed k code ch) = (if (unreadChars k).length = 255 then none else ch) ∧
      unreadChars (typed k code ch) = unreadChars k ++ (enqueued k (typed k code ch)).toList := by
  cases ch with
  | none =>
    have hnone : enqueued k (typed k code none) = none := enqueued_of_head rfl
    rw [hnone, ite_self]
    exact ⟨⟨hk.head, hk.tail⟩, rfl, (List.append_nil _).symm⟩
  | some ch =>
    rw [typed]
    by_cases hfull : (unreadChars k).length = 255
    · have hnone : enqueued k k = none := enqueued_of_head rfl
      rw [put_full hk hfull, if_pos hfull, hnone]
      exact ⟨hk, rfl, (List.append_nil _).symm⟩
    · obtain ⟨hk', henq, hunread⟩ := put_room hk hfull ch
      rw [if_neg hfull, henq]
      exact ⟨hk', rfl, hunread⟩

/-- What the reads have returned and what is unread make up what has been accepted. -/
structure Inv (s : Session) : Prop where
  bounded : Bounded s.keyboard
  accepted : s.accepted = s.returned ++ unreadChars s.keyboard
  nonzero : 0 ∉ unreadChars s.keyboard

theorem inv_initial : Inv .initial := ⟨⟨by decide, by decide⟩, rfl, by decide⟩

theorem Inv.scancode (h : Inv s) (code : Byte) : Inv (step s (.scancode code)) := by
  obtain ⟨hk, henq, hunread⟩ := typed_enqueues h.bounded code (decode s.keyboard code)
  rw [step, handleKeyboardScancode_eq]
  refine ⟨hk, ?_, ?_⟩
  · dsimp only
    rw [hunread, h.accepted, List.append_assoc]
  · dsimp only
    rw [hunread, List.mem_append, not_or, Option.mem_toList, henq]
    refine ⟨h.nonzero, ?_⟩
    split_ifs
    · exact nofun
    · exact decode_ne_zero _ _

theorem Inv.readChar (h : Inv s) : Inv (step s .readChar) := by
  obtain ⟨hk, haccepted, hnonzero⟩ := h
  by_cases hempty : s.keyboard.head = s.keyboard.tail
  · have hread : keyboardReadChar s.keyboard = (0, s.keyboard) := if_pos hempty
    dsimp only [step]
    rw [hread, if_pos rfl, List.append_nil]
    exact ⟨hk, haccepted, hnonzero⟩
  · have hread : keyboardReadChar s.keyboard = _ := if_neg hempty
    have hget := contents_get s.keyboard.buffer hk.head hk.tail hempty
    rw [unreadChars, hget] at haccepted hnonzero
    rw [List.mem_cons, not_or] at hnonzero
    dsimp only [step]
    rw [hread, if_neg (Ne.symm hnonzero.1)]
    refine ⟨⟨hk.head, next_lt hk.tail⟩, ?_, hnonzero.2⟩
    rw [haccepted, List.append_assoc]
    rfl

theorem inv_step (s : Session) (op : Op) (h : Inv s) : Inv (step s op) := by
  cases op with
  | scancode code => exact h.scancode code
  | readChar => exact h.readChar

theorem Inv.unread_eq_nil_iff (h : Inv s) : unreadChars s.keyboard = [] ↔ s.accepted = s.returned := by
  rw [h.accepted, List.append_right_eq_self]

theorem Inv.read_eq_zero_iff (h : Inv s) :
    (keyboardReadChar s.keyboard).1 = 0 ↔ s.keyboard.head = s.keyboard.tail := by
  rw [keyboardReadChar]
  split_ifs with hempty
  · exact iff_of_true rfl hempty
  · have hget := contents_get s.keyboard.buffer h.bounded.head h.bounded.tail hempty
    have hnonzero := h.nonzero
    rw [unreadChars, hget, List.mem_cons, not_or] at hnonzero
    exact iff_of_false (Ne.symm hnonzero.1) hempty

theorem Inv.fifo (h : Inv s) : Fifo s := by
  have hempty : s.keyboard.head = s.keyboard.tail ↔ s.accepted = s.returned := by
    rw [← h.unread_eq_nil_iff, unreadChars, contents_eq_nil_iff _ h.bounded.head h.bounded.tail]
  have hfull : s.accepted.length = s.returned.length + 255 ↔ (unreadChars s.keyboard).length = 255 := by
    rw [h.accepted, List.length_append, Nat.add_left_cancel_iff]
  constructor
  · exact ⟨_, h.accepted.symm⟩
  · intro code
    simp only [hfull]
    rw [handleKeyboardScancode_eq]
    exact (typed_enqueues h.bounded code _).2.1
  · exact ⟨h.bounded.head, h.bounded.tail⟩
  · rw [h.read_eq_zero_iff, hempty]
  · rw [keyboardHasData, bne_iff_ne, ne_eq, hempty]

/-- The keyboard buffer is a lossless queue, whatever scancodes arrive and whenever it is read. -/
theorem keyboard_fifo (ops : List Op) : Always step Fifo .initial ops :=
  (always_of_step inv_step inv_initial).mono fun _ h => h.fifo

end DeltaOS.KeyboardFifo
