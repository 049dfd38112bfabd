import DeltaOS.ByteMemory
import DeltaOS.Overflow
import DeltaOS.Terminal

namespace DeltaOS.Vga

open Overflow Terminal

def vgaW : Nat := 80
def vgaH : Nat := 25

def blank : BitVec 16 := 0x0F20

/-- The buffer at `VGA_BUF`, and the part of `KERNEL_STATE` that belongs to it. -/
structure Console where
  vgaRow : Nat
  vgaCol : Nat
  vgaColor : Byte
  cells : Nat → BitVec 16

namespace Console

def write (s : Console) (offset : Nat) (val : BitVec 16) : Option Console :=
  if offset < vgaW * vgaH then some { s with cells := Function.update s.cells offset val } else none

def read (s : Console) (offset : Nat) : Option (BitVec 16) :=
  if offset < vgaW * vgaH then some (s.cells offset) else none

end Console

def copyCell (row : Nat) (s : Console) (col : Nat) : Option Console := do
  let val ← s.read (row * vgaW + col)
  s.write ((row - 1) * vgaW + col) val

def copyRow (s : Console) (row : Nat) : Option Console := (List.range vgaW).foldlM (copyCell row) s

def clearCell (first : Nat) (s : Console) (i : Nat) : Option Console := s.write (first + i) blank

/-- What `vga_print` does when the cursor has left the screen. -/
def scroll (s : Console) : Option Console := do
  let s ← (List.range' 1 (vgaH - 1)).foldlM copyRow s
  let s ← (List.range vgaW).foldlM (clearCell ((vgaH - 1) * vgaW)) s
  return { s with vgaRow := vgaH - 1, vgaCol := 0 }

def paint (color byte : Byte) : BitVec 16 := byte.setWidth 16 ||| color.setWidth 16 <<< 8

def advance (s : Console) : Console :=
  let s := { s with vgaCol := s.vgaCol + 1 }
  if s.vgaCol ≥ vgaW then { s with vgaCol := 0, vgaRow := s.vgaRow + 1 } else s

def newline : Byte := 10

def putByte (s : Console) (byte : Byte) : Option Console :=
  if byte = newline then some { s with vgaRow := s.vgaRow + 1, vgaCol := 0 }
  else (s.write (s.vgaRow * vgaW + s.vgaCol) (paint s.vgaColor byte)).map advance

/-- One round of the loop of `vga_print`. -/
def printByte (s : Console) (byte : Byte) : Option Console := do
  let s ← putByte s byte
  if s.vgaRow ≥ vgaH then scroll s else return s

def vgaPrint (s : Console) (msg : List Byte) : Option Console := msg.foldlM printByte s

def vgaPrintChar (s : Console) (byte : Byte) : Option Console := vgaPrint s [byte]

def vgaSetColor (s : Console) (fg bg : Byte) : Console := { s with vgaColor := bg <<< 4 ||| fg }

def vgaClear (s : Console) : Option Console := do
  let s ← (List.range (vgaW * vgaH)).foldlM (clearCell 0) s
  return { s with vgaRow := 0, vgaCol := 0 }

variable {s : Console}

theorem write_eq {offset : Nat} (h : offset < 2000) (val : BitVec 16) :
    s.write offset val = some { s with cells := Function.update s.cells offset val } := if_pos h

theorem read_eq {offset : Nat} (h : offset < 2000) : s.read offset = some (s.cells offset) := if_pos h

def written (s : Console) (byte : Byte) : Console :=
  { s with cells := Function.update s.cells (s.vgaRow * 80 + s.vgaCol) (paint s.vgaColor byte) }

theorem putByte_eq {byte : Byte} (hrow : s.vgaRow < 25) (hcol : s.vgaCol < 80) (hbyte : byte ≠ newline) :
    putByte s byte = some (advance (written s byte)) := by
  have hcursor : s.vgaRow * vgaW + s.vgaCol < 2000 := by
    rw [show vgaW = 80 from rfl]
    omega
  rw [putByte, if_neg hbyte, write_eq hcursor]
  rfl

theorem advance_of_lt (hcol : s.vgaCol + 1 < 80) : advance s = { s with vgaCol := s.vgaCol + 1 } :=
  if_neg (not_le.mpr hcol)

theorem advance_of_le (hcol : 80 ≤ s.vgaCol + 1) :
    advance s = { s with vgaCol := 0, vgaRow := s.vgaRow + 1 } :=
  if_pos hcol

def Console.patch (s : Console) (lo n : Nat) (f : Nat → BitVec 16) : Console :=
  { s with cells := fun i => if lo ≤ i ∧ i < lo + n then f i else s.cells i }

variable {lo n : Nat} {f : Nat → BitVec 16}

theorem patch_zero (s : Console) (lo : Nat) (f : Nat → BitVec 16) : s.patch lo 0 f = s := by
  have hcells : (fun i => if lo ≤ i ∧ i < lo + 0 then f i else s.cells i) = s.cells := by
    funext i
    exact if_neg (by omega)
  rw [Console.patch, hcells]

theorem write_patch (h : lo + n < 2000) :
    (s.patch lo n f).write (lo + n) (f (lo + n)) = some (s.patch lo (n + 1) f) := by
  have hcells : Function.update (s.patch lo n f).cells (lo + n) (f (lo + n)) =
      fun i => if lo ≤ i ∧ i < lo + (n + 1) then f i else s.cells i := by
    funext i
    obtain rfl | hne := eq_or_ne i (lo + n)
    · rw [Function.update_self, if_pos (by omega)]
    · rw [Function.update_of_ne hne, Console.patch]
      exact if_congr (by omega) rfl rfl
  rw [write_eq h, hcells]
  rfl

theorem patch_patch (s : Console) (lo n m : Nat) (f : Nat → BitVec 16) :
    (s.patch lo n f).patch (lo + n) m f = s.patch lo (n + m) f := by
  have hcells : (fun i => if lo + n ≤ i ∧ i < lo + n + m then f i else (s.patch lo n f).cells i) =
      fun i => if lo ≤ i ∧ i < lo + (n + m) then f i else s.cells i := by
    funext i
    dsimp only [Console.patch]
    split_ifs <;> first | rfl | omega
  rw [Console.patch, hcells]
  rfl

theorem writes_eq {step : Console → Nat → Option Console} (h : lo + n ≤ 2000)
    (hstep : ∀ k < n, step (s.patch lo k f) k = (s.patch lo k f).write (lo + k) (f (lo + k))) :
    (List.range n).foldlM step s = some (s.patch lo n f) := by
  rw [List.range_eq_range']
  refine foldlM_range' (fun k => s.patch lo k f) (patch_zero s lo f) fun k hk => ?_
  rw [Nat.zero_add, hstep k hk, write_patch (by omega)]

theorem clearCells_eq (s : Console) (h : lo + n ≤ 2000) :
    (List.range n).foldlM (clearCell lo) s = some (s.patch lo n fun _ => blank) :=
  writes_eq h fun _ _ => rfl

theorem patch_congr {g : Nat → BitVec 16} (h : ∀ i, lo ≤ i → i < lo + n → f i = g i) :
    s.patch lo n f = s.patch lo n g := by
  have hcells : (fun i => if lo ≤ i ∧ i < lo + n then f i else s.cells i) =
      fun i => if lo ≤ i ∧ i < lo + n then g i else s.cells i := by
    funext i
    split_ifs with hi
    · exact h i hi.1 hi.2
    · rfl
  rw [Console.patch, hcells]
  rfl

theorem copyRow_eq (s : Console) {j : Nat} (hj : j < 24) :
    copyRow s (1 + j) = some (s.patch (j * 80) 80 fun i => s.cells (i + 80)) := by
  rw [copyRow, show vgaW = 80 from rfl]
  apply writes_eq
  · omega
  · intro k hk
    have hcell : (1 + j) * vgaW + k = j * 80 + k + 80 := by
      rw [show vgaW = 80 from rfl]
      omega
    have hread : (s.patch (j * 80) k fun i => s.cells (i + 80)).read ((1 + j) * vgaW + k) =
        some (s.cells (j * 80 + k + 80)) := by
      rw [hcell, read_eq (by omega)]
      exact congrArg some (if_neg (by omega))
    rw [copyCell, hread, Nat.add_sub_cancel_left]
    rfl

theorem copyRows_eq (s : Console) (hn : n ≤ 24) :
    (List.range' 1 n).foldlM copyRow s = some (s.patch 0 (n * 80) fun i => s.cells (i + 80)) := by
  apply foldlM_range' fun k => s.patch 0 (k * 80) fun i => s.cells (i + 80)
  · rw [Nat.zero_mul]
    exact patch_zero ..
  · intro k hk
    have hsame : ∀ i, k * 80 ≤ i → i < k * 80 + 80 →
        (s.patch 0 (k * 80) fun i => s.cells (i + 80)).cells (i + 80) = s.cells (i + 80) :=
      fun i hlo _ => if_neg (by omega)
    have hnext := patch_patch s 0 (k * 80) 80 fun i => s.cells (i + 80)
    rw [Nat.zero_add, ← Nat.succ_mul] at hnext
    rw [copyRow_eq _ (by omega), patch_congr hsame, hnext]

theorem scroll_eq (s : Console) : ∃ s', scroll s = some s' ∧ s'.vgaRow = 24 ∧ s'.vgaCol = 0 ∧
    s'.vgaColor = s.vgaColor ∧
    ∀ i < 2000, s'.cells i = if i < 24 * 80 then s.cells (i + 80) else blank := by
  refine ⟨{ (s.patch 0 (24 * 80) fun i => s.cells (i + 80)).patch (24 * 80) 80 fun _ => blank with
    vgaRow := 24, vgaCol := 0 }, ?_, rfl, rfl, rfl, fun i hi => ?_⟩
  · have hcopy := copyRows_eq s (le_refl 24)
    have hclear := clearCells_eq (s.patch 0 (24 * 80) fun i => s.cells (i + 80))
      (by decide : 24 * 80 + 80 ≤ 2000)
    rw [scroll, show vgaH - 1 = 24 from rfl, show vgaW = 80 from rfl, hcopy]
    dsimp only [Option.bind_eq_bind, Option.bind_some]
    rw [hclear]
    rfl
  · dsimp only [Console.patch]
    split_ifs <;> first | rfl | omega

end DeltaOS.Vga
