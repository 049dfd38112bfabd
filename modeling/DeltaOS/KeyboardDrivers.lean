import DeltaOS.KeyboardFifo

namespace DeltaOS.KeyboardDrivers

open Keyboard KeyboardFifo RingBuffer Runs

structure KbState where
  shiftPressed : Bool
  ctrlPressed : Bool
  altPressed : Bool
  capsLock : Bool
  extendedKey : Bool
  keyBuffer : Nat → Byte
  keyBufferHead : Nat
  keyBufferTail : Nat

def KbState.initial : KbState := ⟨false, false, false, false, false, fun _ => 0, 0, 0⟩

/-- The end of both tables of the driver, from scancode 58 on. The initialisers stop at 88. -/
def kbKeypad : List Byte :=
  List.replicate 14 0 ++ ascii "-" ++ List.replicate 3 0 ++ ascii "+" ++ List.replicate 51 0

def kbScancodeToAscii : List Byte :=
  [0, 27] ++ ascii "1234567890-=" ++ [8] ++ ascii "\tqwertyuiop[]\n" ++ [0] ++ ascii "asdfghjkl;'`" ++
    [0] ++ ascii "\\zxcvbnm,./" ++ [0] ++ ascii "*" ++ [0] ++ ascii " " ++ kbKeypad

def kbScancodeToAsciiShift : List Byte :=
  [0, 27] ++ ascii "!@#$%^&*()_+" ++ [8] ++ ascii "\tQWERTYUIOP\x7b\x7d\n" ++ [0] ++
    ascii "ASDFGHJKL:\"~" ++
    [0] ++ ascii "|ZXCVBNM<>?" ++ [0] ++ ascii "*" ++ [0] ++ ascii " " ++ kbKeypad

def kbBufferPut (k : KbState) (ch : Byte) : KbState :=
  let nextHead := (k.keyBufferHead + 1) % 256
  if nextHead ≠ k.keyBufferTail then
    { k with keyBuffer := Function.update k.keyBuffer k.keyBufferHead ch, keyBufferHead := nextHead }
  else k

/-- The characters from `a` to `z`. -/
def isLower (ch : Byte) : Bool := 97 ≤ ch && ch ≤ 122

def isUpper (ch : Byte) : Bool := 65 ≤ ch && ch ≤ 90

/-- The character of a key under the modifiers, zero for none. -/
def kbTranslate (shift caps ctrl : Bool) (key : Byte) : Byte :=
  let ch :=
    if key.toNat < 128 then
      if shift then
        let ch := kbScancodeToAsciiShift.getD key.toNat 0
        if caps && isUpper ch then ch + 32 else ch
      else
        let ch := kbScancodeToAscii.getD key.toNat 0
        if caps && isLower ch then ch - 32 else ch
    else 0
  if ctrl && isLower ch then ch - 97 + 1 else ch

/-- The end of `kb_handle_scancode`, for the character of a key. -/
def kbEnter (k : KbState) (ch : Byte) : KbState :=
  let k := if ch ≠ 0 then kbBufferPut k ch else k
  { k with extendedKey := false }

def kbHandleScancode (k : KbState) (scancode : Byte) : KbState :=
  if scancode = 0xE0 then { k with extendedKey := true }
  else
    let released := scancode &&& 0x80 != 0
    let key := scancode &&& ~~~0x80
    if key = 0x2A ∨ key = 0x36 then { k with shiftPressed := !released, extendedKey := false }
    else if key = 0x1D then { k with ctrlPressed := !released, extendedKey := false }
    else if key = 0x38 then { k with altPressed := !released, extendedKey := false }
    else if key = 0x3A ∧ !released then { k with capsLock := !k.capsLock, extendedKey := false }
    else if released then { k with extendedKey := false }
    else kbEnter k (kbTranslate k.shiftPressed k.capsLock k.ctrlPressed key)

def letterKeys : List Nat := List.range' 0x10 10 ++ List.range' 0x1E 9 ++ List.range' 0x2C 7

def unequalKeys : List Nat := [0x48, 0x4C, 0x52, 0x56]

theorem getD_eq_iff {l l' : List Byte} {p : Nat → Bool}
    (h : List.zipWith (· == ·) l l' = (List.range 128).map p) {i : Nat} (hi : i < 128) :
    l.getD i 0 = l'.getD i 0 ↔ p i = true := by
  have hlen : min l.length l'.length = 128 := by simpa using congrArg List.length h
  have hl : i < l.length := by omega
  have hl' : i < l'.length := by omega
  have hentry := congrArg (fun m => m[i]?) h
  simp only [List.getElem?_zipWith, List.getElem?_eq_getElem hl, List.getElem?_eq_getElem hl',
    List.getElem?_map, List.getElem?_range hi, Option.map_some, Option.some.injEq] at hentry
  rw [List.getD_eq_getElem _ _ hl, List.getD_eq_getElem _ _ hl', ← hentry, beq_iff_eq]

theorem tables_eq_iff : ∀ i < 128,
    (kbScancodeToAscii.getD i 0 = scancodeToAscii.getD i 0 ↔ i ∉ unequalKeys) ∧
      (kbScancodeToAsciiShift.getD i 0 = scancodeToAsciiShift.getD i 0 ↔ i ∉ unequalKeys) := by
  intro i hi
  have hplain : List.zipWith (· == ·) kbScancodeToAscii scancodeToAscii =
      (List.range 128).map fun i => decide (i ∉ unequalKeys) := by
    decide +kernel
  have hshift : List.zipWith (· == ·) kbScancodeToAsciiShift scancodeToAsciiShift =
      (List.range 128).map fun i => decide (i ∉ unequalKeys) := by
    decide +kernel
  rw [getD_eq_iff hplain hi, getD_eq_iff hshift hi, decide_eq_true_iff]
  exact ⟨Iff.rfl, Iff.rfl⟩

theorem getD_iff {l : List Byte} {f : Byte → Bool} {p : Nat → Bool}
    (h : l.map f = (List.range 128).map p) {i : Nat} (hi : i < 128) : f (l.getD i 0) = p i := by
  have hlen : l.length = 128 := by simpa using congrArg List.length h
  have hentry := congrArg (fun m => m[i]?) h
  simpa [hlen, hi] using hentry

theorem isLetter_iff : ∀ i < 128,
    (isLower (kbScancodeToAscii.getD i 0) = true ↔ i ∈ letterKeys) ∧
      (isUpper (kbScancodeToAsciiShift.getD i 0) = true ↔ i ∈ letterKeys) := by
  intro i hi
  have hlower : kbScancodeToAscii.map isLower = (List.range 128).map fun i =>
      decide (i ∈ letterKeys) := by
    decide +kernel
  have hupper : kbScancodeToAsciiShift.map isUpper = (List.range 128).map fun i =>
      decide (i ∈ letterKeys) := by
    decide +kernel
  rw [getD_iff hlower hi, getD_iff hupper hi, decide_eq_true_iff]
  exact ⟨Iff.rfl, Iff.rfl⟩

theorem letterKeys_disjoint : ∀ i ∈ letterKeys, i ∉ unequalKeys := by decide

theorem cased_eq_iff {ch ch' other : Byte} {caps letter : Bool} (hletter : letter = true → ch = ch')
    (hother : other ≠ ch) :
    (if caps && letter then other else ch) = ch' ↔ ¬(caps = true ∧ letter = true) ∧ ch = ch' := by
  cases hcaps : caps && letter with
  | true =>
    obtain ⟨rfl, rfl⟩ := Bool.and_eq_true_iff.mp hcaps
    simp [← hletter rfl, hother]
  | false => simp [← Bool.and_eq_true, hcaps]

theorem kbTranslate_eq_iff {shift caps : Bool} {key : Byte} (hkey : key.toNat < 128) :
    kbTranslate shift caps false key = translate shift key ↔
      ¬(caps = true ∧ key.toNat ∈ letterKeys) ∧ key.toNat ∉ unequalKeys := by
  obtain ⟨hplain, hshift⟩ := tables_eq_iff _ hkey
  obtain ⟨hlower, hupper⟩ := isLetter_iff _ hkey
  have hdisjoint := letterKeys_disjoint key.toNat
  unfold kbTranslate KeyboardFifo.translate
  simp only [hkey, if_true, Bool.false_and, Bool.false_eq_true, if_false]
  cases shift with
  | true =>
    rw [← hshift, ← hupper] at hdisjoint ⊢
    exact cased_eq_iff hdisjoint (by simp)
  | false =>
    rw [← hplain, ← hlower] at hdisjoint ⊢
    exact cased_eq_iff hdisjoint (by simp)

def KbState.asKeyboard (k : KbState) : KeyboardState :=
  ⟨k.keyBuffer, k.keyBufferHead, k.keyBufferTail, k.shiftPressed, k.capsLock⟩

def kbDecode (k : KbState) (code : Byte) : Option Byte :=
  if (keyOf code = 0x2A ∨ keyOf code = 0x36) ∨ keyOf code = 0x1D ∨ keyOf code = 0x38 ∨
    keyOf code = 0x3A ∨ released code
  then none
  else charOf (kbTranslate k.shiftPressed k.capsLock k.ctrlPressed (keyOf code))

variable {k : KbState} {code : Byte}

theorem asKeyboard_kbBufferPut (k : KbState) (ch : Byte) :
    (kbBufferPut k ch).asKeyboard = k.asKeyboard.put ch := by
  unfold kbBufferPut KeyboardState.put
  by_cases hroom : (k.keyBufferHead + 1) % 256 = k.keyBufferTail
  · simp [KbState.asKeyboard, hroom]
  · simp [KbState.asKeyboard, hroom]

theorem asKeyboard_kbEnter (k : KbState) (ch : Byte) :
    (kbEnter k ch).asKeyboard = if ch = 0 then k.asKeyboard else k.asKeyboard.put ch := by
  rw [← asKeyboard_kbBufferPut, kbEnter]
  by_cases hzero : ch = 0
  · rw [if_pos hzero, if_neg (not_not.mpr hzero)]
    rfl
  · rw [if_neg hzero, if_pos hzero]
    rfl

theorem kbHandleScancode_cases (k : KbState) (code : Byte) : kbHandleScancode k code =
    if code = 0xE0 then { k with extendedKey := true }
    else if keyOf code = 0x2A ∨ keyOf code = 0x36
      then { k with shiftPressed := !released code, extendedKey := false }
    else if keyOf code = 0x1D then { k with ctrlPressed := !released code, extendedKey := false }
    else if keyOf code = 0x38 then { k with altPressed := !released code, extendedKey := false }
    else if keyOf code = 0x3A ∧ !released code
      then { k with capsLock := !k.capsLock, extendedKey := false }
    else if released code then { k with extendedKey := false }
    else kbEnter k (kbTranslate k.shiftPressed k.capsLock k.ctrlPressed (keyOf code)) := rfl

theorem kbHandleScancode_eq (k : KbState) (code : Byte) :
    (kbHandleScancode k code).asKeyboard = typed k.asKeyboard code (kbDecode k code) := by
  rw [kbHandleScancode_cases, kbDecode]
  by_cases hextended : code = 0xE0
  · subst hextended
    rfl
  rw [if_neg hextended]
  by_cases hshift : keyOf code = 0x2A ∨ keyOf code = 0x36
  · have hcaps := not_caps_of_shift hshift
    rw [if_pos hshift, if_pos (.inl hshift), typed, modified, if_pos hshift, if_neg fun h => hcaps h.1]
    rfl
  rw [if_neg hshift]
  by_cases hcaps : keyOf code = 0x3A
  · have hctrl : keyOf code ≠ 0x1D := hcaps ▸ by decide
    have halt : keyOf code ≠ 0x38 := hcaps ▸ by decide
    rw [if_neg hctrl, if_neg halt]
    cases hup : released code with
    | true =>
      rw [if_neg fun h => absurd h.2 (by decide), if_pos rfl, if_pos (.inr (.inr (.inr (.inl hcaps)))),
        typed, modified, if_neg hshift, if_neg fun h => absurd (hup.symm.trans h.2) (by decide)]
      rfl
    | false =>
      rw [if_pos ⟨hcaps, rfl⟩, if_pos (.inr (.inr (.inr (.inl hcaps)))), typed, modified, if_neg hshift,
        if_pos ⟨hcaps, hup⟩]
      rfl
  have hkept := modified_of_plain (k := k.asKeyboard) hshift hcaps
  by_cases hctrl : keyOf code = 0x1D
  · rw [if_pos hctrl, if_pos (.inr (.inl hctrl)), typed, hkept]
    rfl
  rw [if_neg hctrl]
  by_cases halt : keyOf code = 0x38
  · rw [if_pos halt, if_pos (.inr (.inr (.inl halt))), typed, hkept]
    rfl
  rw [if_neg halt, if_neg fun h => hcaps h.1]
  cases hup : released code with
  | true =>
    simp only [or_true, if_true, typed, hkept]
    rfl
  | false =>
    simp only [hshift, hctrl, halt, hcaps, or_false, if_false, Bool.false_eq_true, charOf,
      asKeyboard_kbEnter]
    split_ifs
    · exact hkept.symm
    · rfl

theorem kbHandleScancode_ctrlPressed (hctrl : keyOf code ≠ 0x1D) :
    (kbHandleScancode k code).ctrlPressed = k.ctrlPressed := by
  have henter (ch : Byte) : (kbEnter k ch).ctrlPressed = k.ctrlPressed := by
    unfold kbEnter kbBufferPut
    dsimp only
    split_ifs <;> rfl
  rw [kbHandleScancode_cases, if_neg hctrl]
  split_ifs
  all_goals first | rfl | exact henter _

/-- Both drivers on the same scancodes, and whether the last of them announces an extended key. -/
structure Drivers where
  rust : KeyboardState
  c : KbState
  extended : Bool

def Drivers.initial : Drivers := ⟨.initial, .initial, false⟩

def step (s : Drivers) (code : Byte) : Drivers :=
  ⟨handleKeyboardScancode s.rust code, kbHandleScancode s.c code, code == 0xE0⟩

/-- The same characters have been enqueued. -/
def Agree (s : Drivers) : Prop := unreadChars s.c.asKeyboard = unreadChars s.rust

/-- The scancode is not one of Ctrl, Alt or the keypad. -/
structure Plain (s : Drivers) (code : Byte) : Prop where
  ctrl : keyOf code ≠ 0x1D
  alt : keyOf code ≠ 0x38
  keypad : s.extended = false → ¬(0x47 ≤ (keyOf code).toNat ∧ (keyOf code).toNat ≤ 0x53)

instance (s : Drivers) (code : Byte) : Decidable (Plain s code) :=
  decidable_of_iff (keyOf code ≠ 0x1D ∧ keyOf code ≠ 0x38 ∧
      (s.extended = false → ¬(0x47 ≤ (keyOf code).toNat ∧ (keyOf code).toNat ≤ 0x53)))
    ⟨fun h => ⟨h.1, h.2.1, h.2.2⟩, fun h => ⟨h.ctrl, h.alt, h.keypad⟩⟩

/-- A letter under the caps lock is entered, or a key for which the tables differ. -/
def Differs (s : Drivers) (code : Byte) : Prop :=
  (unreadChars s.rust).length ≠ 255 ∧ released code = false ∧
    (s.rust.capsLock = true ∧ (keyOf code).toNat ∈ letterKeys ∨ (keyOf code).toNat ∈ unequalKeys)

instance (s : Drivers) (code : Byte) : Decidable (Differs s code) :=
  inferInstanceAs (Decidable (_ ∧ _ ∧ _))

structure Synced (s : Drivers) : Prop where
  bounded : Bounded s.rust
  same : s.c.asKeyboard = s.rust
  ctrl : s.c.ctrlPressed = false

variable {s : Drivers}

theorem charOf_injective : Function.Injective charOf := by
  intro a b h
  unfold charOf at h
  split_ifs at h with ha hb hb
  · rw [ha, hb]
  · exact Option.some.inj h

theorem not_differing_of_modifier {key : Byte} (h : (key = 0x2A ∨ key = 0x36) ∨ key = 0x3A) :
    key.toNat ∉ letterKeys ∧ key.toNat ∉ unequalKeys := by
  obtain (rfl | rfl) | rfl := h <;> decide

theorem Synced.kbDecode_eq_iff (h : Synced s) (hplain : Plain s code) :
    kbDecode s.c code = decode s.rust code ↔ ¬(released code = false ∧
      (s.rust.capsLock = true ∧ (keyOf code).toNat ∈ letterKeys ∨
        (keyOf code).toNat ∈ unequalKeys)) := by
  have hshift : s.c.shiftPressed = s.rust.shiftPressed := congrArg KeyboardState.shiftPressed h.same
  have hcaps : s.c.capsLock = s.rust.capsLock := congrArg KeyboardState.capsLock h.same
  rw [kbDecode, decode, h.ctrl, hshift, hcaps]
  by_cases hmod : (keyOf code = 0x2A ∨ keyOf code = 0x36) ∨ keyOf code = 0x3A
  · obtain ⟨hletter, hunequal⟩ := not_differing_of_modifier hmod
    rw [if_pos (by tauto), if_pos (by tauto)]
    exact iff_of_true rfl (by tauto)
  cases hup : released code with
  | true => simp
  | false =>
    have hctrl := hplain.ctrl
    have halt := hplain.alt
    rw [if_neg (by simp only [Bool.false_eq_true]; tauto),
      if_neg (by simp only [Bool.false_eq_true]; tauto),
      charOf_injective.eq_iff, kbTranslate_eq_iff (keyOf_lt code)]
    tauto

theorem typed_eq_self {k : KeyboardState} (hk : Bounded k) (hfull : (unreadChars k).length = 255)
    (hmod : ¬((keyOf code = 0x2A ∨ keyOf code = 0x36) ∨ keyOf code = 0x3A)) (ch : Option Byte) :
    typed k code ch = k := by
  cases ch with
  | none => exact modified_of_plain (fun h => hmod (.inl h)) fun h => hmod (.inr h)
  | some ch => exact put_full hk hfull ch

theorem step_synced (s : Drivers) (code : Byte) (h : Synced s) (hplain : Plain s code)
    (hsame : ¬Differs s code) : Synced (step s code) := by
  have hrust : (step s code).rust = typed s.rust code (decode s.rust code) :=
    handleKeyboardScancode_eq _ _
  have hc : (step s code).c.asKeyboard = typed s.rust code (kbDecode s.c code) := by
    rw [← h.same]
    exact kbHandleScancode_eq _ _
  refine ⟨?_, ?_, (kbHandleScancode_ctrlPressed hplain.ctrl).trans h.ctrl⟩
  · rw [hrust]
    exact (typed_enqueues h.bounded code _).1
  · rw [hrust, hc]
    by_cases hdecode : kbDecode s.c code = decode s.rust code
    · rw [hdecode]
    · rw [h.kbDecode_eq_iff hplain, not_not] at hdecode
      have hfull : (unreadChars s.rust).length = 255 := by
        by_contra hroom
        exact hsame ⟨hroom, hdecode⟩
      have hmod : ¬((keyOf code = 0x2A ∨ keyOf code = 0x36) ∨ keyOf code = 0x3A) := by
        intro hmod
        obtain ⟨hletter, hunequal⟩ := not_differing_of_modifier hmod
        tauto
      rw [typed_eq_self h.bounded hfull hmod, typed_eq_self h.bounded hfull hmod]

theorem Synced.agree (h : Synced s) : Agree s := congrArg unreadChars h.same

theorem not_differs_of_agree (s : Drivers) (code : Byte) (h : Synced s) (hplain : Plain s code)
    (hagree : Agree (step s code)) : ¬Differs s code := by
  rintro ⟨hroom, hkey⟩
  have hdecode : kbDecode s.c code ≠ decode s.rust code := by
    rw [ne_eq, h.kbDecode_eq_iff hplain, not_not]
    exact hkey
  have hunread (ch : Option Byte) : unreadChars (typed s.rust code ch) = unreadChars s.rust ++
      ch.toList := by
    obtain ⟨-, henq, hunread⟩ := typed_enqueues h.bounded code ch
    rw [hunread, henq, if_neg hroom]
  dsimp only [Agree, step] at hagree
  rw [kbHandleScancode_eq, handleKeyboardScancode_eq, h.same, hunread, hunread,
    List.append_cancel_left_eq] at hagree
  exact hdecode (by simpa using congrArg List.head? hagree)

theorem synced_initial : Synced .initial := ⟨⟨by decide, by decide⟩, rfl, rfl⟩

/-- The two drivers agree as long as no letter is entered under the caps lock, and no key for which
their tables differ. -/
theorem drivers_agree_iff (codes : List Byte) (hplain : Guarded step Plain .initial codes) :
    Always step Agree .initial codes ↔ Guarded step (fun s code => ¬Differs s code) .initial codes :=
  always_iff_guarded_of hplain (fun _ h => h.agree) step_synced not_differs_of_agree synced_initial

def plainTyping : List Byte := [0x2A, 0x1E, 0x9E, 0xAA, 0xE0, 0x1C, 0x3A, 0xBA, 0x02]

theorem plainTyping_agree : Always step Agree .initial plainTyping := by
  apply (drivers_agree_iff plainTyping ?_).mpr
  · decide +kernel
  · decide +kernel

/-- The letter `a` under the caps lock, which is a capital letter for the driver in C only. -/
theorem capsLetter_disagree :
    Guarded step Plain .initial [0x3A, 0x1E] ∧ ¬Always step Agree .initial [0x3A, 0x1E] := by
  refine ⟨by decide +kernel, fun h => ?_⟩
  have hagree := h.last
  revert hagree
  rw [Agree]
  decide +kernel

end DeltaOS.KeyboardDrivers
