import DeltaOS.ByteMemory

namespace DeltaOS.Keyboard

/-- `KEYBOARD_BUFFER` with its two indices, and the modifier keys. -/
structure KeyboardState where
  buffer : Nat → Byte
  head : Nat
  tail : Nat
  shiftPressed : Bool
  capsLock : Bool

def ascii (s : String) : List Byte := s.toList.map fun c => BitVec.ofNat 8 c.toNat

def keypad : List Byte :=
  List.replicate 24 0 ++ ascii "-" ++ List.replicate 3 0 ++ ascii "+" ++ List.replicate 41 0

def scancodeToAscii : List Byte :=
  [0, 27] ++ ascii "1234567890-=" ++ [8] ++ ascii "\tqwertyuiop[]\n" ++ [0] ++ ascii "asdfghjkl;'`" ++
    [0] ++ ascii "\\zxcvbnm,./" ++ [0] ++ ascii "*" ++ [0] ++ ascii " " ++ keypad

def scancodeToAsciiShift : List Byte :=
  [0, 27] ++ ascii "!@#$%^&*()_+" ++ [8] ++ ascii "\tQWERTYUIOP\x7b\x7d\n" ++ [0] ++
    ascii "ASDFGHJKL:\"~" ++
    [0] ++ ascii "|ZXCVBNM<>?" ++ [0] ++ ascii "*" ++ [0] ++ ascii " " ++ keypad

def KeyboardState.put (k : KeyboardState) (ch : Byte) : KeyboardState :=
  let nextHead := (k.head + 1) % 256
  if nextHead ≠ k.tail then { k with buffer := Function.update k.buffer k.head ch, head := nextHead }
    else k

def handleKeyboardScancode (k : KeyboardState) (scancode : Byte) : KeyboardState :=
  let released := scancode &&& 0x80 != 0
  let key := scancode &&& 0x7F
  if key = 0x2A ∨ key = 0x36 then { k with shiftPressed := !released }
  else if key = 0x3A then if !released then { k with capsLock := !k.capsLock } else k
  else if released then k
  else if key.toNat < 128 then
    let table := if k.shiftPressed then scancodeToAsciiShift else scancodeToAscii
    let ch := table.getD key.toNat 0
    if ch ≠ 0 then k.put ch else k
  else k

def KeyboardState.initial : KeyboardState := ⟨fun _ => 0, 0, 0, false, false⟩

def keyboardHasData (k : KeyboardState) : Bool := k.head != k.tail

def keyboardReadChar (k : KeyboardState) : Byte × KeyboardState :=
  if k.head = k.tail then (0, k)
  else (k.buffer k.tail, { k with tail := (k.tail + 1) % 256 })

end DeltaOS.Keyboard
