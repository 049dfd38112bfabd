import DeltaOS.Runs
import DeltaOS.Vga

namespace DeltaOS.ShellLine

open Runs Overflow Vga

section tidy

/-- The cursor is on the screen, and nothing stands behind it. -/
structure Tidy (s : Console) : Prop where
  row : s.vgaRow < 25
  col : s.vgaCol < 80
  ahead : ∀ i, s.vgaRow * 80 + s.vgaCol ≤ i → i < 2000 → s.cells i = blank

variable {s : Console} {byte : Byte}

theorem vgaClear_tidy (s : Console) : ∃ s', vgaClear s = some s' ∧ Tidy s' := by
  refine ⟨{ s.patch 0 2000 fun _ => blank with vgaRow := 0, vgaCol := 0 }, ?_, Nat.zero_lt_succ 24,
    Nat.zero_lt_succ 79, fun i _ hi => ?_⟩
  · have hclear := clearCells_eq s (Nat.zero_add 2000).le
    rw [vgaClear, show vgaW * vgaH = 2000 from rfl, hclear]
    rfl
  · exact if_pos ⟨Nat.zero_le i, by omega⟩

theorem tidy_scrolled (hrow : s.vgaRow ≤ 25) (hcol : s.vgaCol < 80) (hend : s.vgaRow = 25 → s.vgaCol = 0)
    (hahead : ∀ i, s.vgaRow * 80 + s.vgaCol ≤ i → i < 2000 → s.cells i = blank) :
    ∃ s', (if s.vgaRow ≥ vgaH then scroll s else pure s) = some s' ∧ Tidy s' ∧ s'.vgaCol = s.vgaCol := by
  by_cases hfull : s.vgaRow ≥ 25
  · obtain ⟨s', hscroll, hrow', hcol', -, hcells'⟩ := scroll_eq s
    refine ⟨s', (if_pos hfull).trans hscroll, ⟨by omega, by omega, fun i hlo hi => ?_⟩, ?_⟩
    · rw [hcells' i hi, if_neg (by omega)]
    · rw [hcol', hend (by omega)]
  · exact ⟨s, if_neg hfull, ⟨by omega, hcol, hahead⟩, rfl⟩

theorem Tidy.printByte_of_lt (h : Tidy s) (hbyte : byte ≠ newline) (hcol : s.vgaCol + 1 < 80) :
    printByte s byte = some { written s byte with vgaCol := s.vgaCol + 1 } := by
  have hrow : ¬s.vgaRow ≥ vgaH := not_le.mpr h.row
  have hlt : (written s byte).vgaCol + 1 < 80 := hcol
  rw [printByte, putByte_eq h.row h.col hbyte, advance_of_lt hlt]
  exact if_neg hrow

theorem Tidy.printByte_col (h : Tidy s) (hbyte : byte ≠ newline) :
    ∃ s', printByte s byte = some s' ∧ Tidy s' ∧ s'.vgaCol = (s.vgaCol + 1) % 80 := by
  have hrow := h.row
  have hcells : ∀ i, s.vgaRow * 80 + s.vgaCol + 1 ≤ i → i < 2000 → (written s byte).cells i = blank := by
    intro i hlo hi
    exact (Function.update_of_ne (by omega) ..).trans (h.ahead i (by omega) hi)
  obtain hlt | hlast := Nat.lt_or_eq_of_le (Nat.succ_le_of_lt h.col)
  · refine ⟨_, h.printByte_of_lt hbyte hlt, ⟨hrow, hlt, hcells⟩, ?_⟩
    exact (Nat.mod_eq_of_lt hlt).symm
  · have hge : 80 ≤ (written s byte).vgaCol + 1 := hlast.ge
    rw [printByte, putByte_eq h.row h.col hbyte, advance_of_le hge]
    obtain ⟨s', hs', htidy, hcol'⟩ := tidy_scrolled
      (s := { written s byte with vgaCol := 0, vgaRow := (written s byte).vgaRow + 1 }) hrow
        (Nat.zero_lt_succ 79)
      (fun _ => rfl) fun i hlo hi => hcells i (by dsimp only [written] at hlo; omega) hi
    have hwrap : (s.vgaCol + 1) % 80 = 0 := by omega
    exact ⟨s', hs', htidy, hcol'.trans hwrap.symm⟩

theorem Tidy.printNewline (h : Tidy s) : ∃ s', printByte s newline = some s' ∧ Tidy s' ∧ s'.vgaCol = 0 :=
  tidy_scrolled (s := { s with vgaRow := s.vgaRow + 1, vgaCol := 0 }) h.row (Nat.zero_lt_succ 79)
    (fun _ => rfl) fun i hlo hi =>
    h.ahead i (by have := h.col; dsimp only at hlo; omega) hi

theorem Tidy.print (h : Tidy s) (msg : List Byte) : ∃ s', vgaPrint s msg = some s' ∧ Tidy s' := by
  refine foldlM_total (P := fun _ s => Tidy s) (fun byte _ s hs => ?_) msg h
  obtain rfl | hbyte := eq_or_ne byte newline
  · obtain ⟨s', hs', htidy, -⟩ := hs.printNewline
    exact ⟨s', hs', htidy⟩
  · obtain ⟨s', hs', htidy, -⟩ := hs.printByte_col hbyte
    exact ⟨s', hs', htidy⟩

theorem tidy_of_cleared (s : Console) (msgs : List (List Byte)) :
    ∃ s₀ s', vgaClear s = some s₀ ∧ msgs.foldlM vgaPrint s₀ = some s' ∧ Tidy s' := by
  obtain ⟨s₀, hs₀, htidy⟩ := vgaClear_tidy s
  obtain ⟨s', hs', htidy'⟩ := foldlM_total (P := fun _ s => Tidy s)
    (fun msg _ s hs => hs.print msg) msgs htidy
  exact ⟨s₀, s', hs₀, hs', htidy'⟩

end tidy

structure Shell where
  inputBuf : Vector Byte 256
  inputPos : Nat
  console : Console

/-- A write to the input buffer, which panics behind its end. -/
def store (buf : Vector Byte 256) (i : Nat) (byte : Byte) : Option (Vector Byte 256) :=
  if h : i < 256 then some (buf.set i byte h) else none

def backspace : Byte := 8

def space : Byte := 32

/-- `"deltaos> "`. -/
def prompt : List Byte := [0x64, 0x65, 0x6C, 0x74, 0x61, 0x6F, 0x73, 0x3E, 0x20]

def beginLine (devMode : Bool) (buf : Vector Byte 256) (console : Console) : Option Shell := do
  let console := if devMode then vgaSetColor console 0x0A 0x00 else console
  let console ← vgaPrint console prompt
  let console := vgaSetColor console 0x0F 0x00
  let buf ← store buf 0 0
  return ⟨buf, 0, console⟩

/-- What the shell does with a character that is not a newline. -/
def keystroke (s : Shell) (ch : Byte) : Option Shell :=
  if ch = backspace then
    if s.inputPos > 0 then do
      let inputPos := s.inputPos - 1
      let inputBuf ← store s.inputBuf inputPos 0
      let console ← vgaPrintChar s.console backspace
      let console ← vgaPrintChar console space
      let console ← vgaPrintChar console backspace
      return ⟨inputBuf, inputPos, console⟩
    else
      some s
  else if ch.toNat ≥ 32 ∧ s.inputPos < 255 then do
    let inputBuf ← store s.inputBuf s.inputPos ch
    let console ← vgaPrintChar s.console ch
    return ⟨inputBuf, s.inputPos + 1, console⟩
  else
    some s

/-- What the shell does at a newline: the string for `execute_command`, and the console. -/
def enter (s : Shell) : Option (List Byte × Console) := do
  let console ← vgaPrint s.console [newline]
  let inputBuf ← store s.inputBuf s.inputPos 0
  return (inputBuf.toList.take s.inputPos, console)

def edit (line : List Byte) (ch : Byte) : List Byte :=
  if ch = backspace then line.dropLast else line ++ [ch]

/-- The line stands behind the prompt in the row, with a blank and the cursor behind it. -/
structure Agrees (row : Nat) (s : Shell) : Prop where
  cells : ∀ i < s.inputPos,
    s.console.cells (row * 80 + prompt.length + i) = paint 0x0F (s.inputBuf.toList.getD i 0)
  blank : s.console.cells (row * 80 + prompt.length + s.inputPos) = blank
  col : s.console.vgaCol = prompt.length + s.inputPos

/-- The screen agrees with the line at the beginning and after each keystroke. -/
def EachAgrees (row : Nat) : Shell → List Byte → Prop
  | s, [] => Agrees row s
  | s, ch :: keys => Agrees row s ∧ ∃ s', keystroke s ch = some s' ∧ EachAgrees row s' keys

structure Holds (line : List Byte) (s : Shell) : Prop where
  pos : s.inputPos = line.length
  le : line.length ≤ 255
  text : s.inputBuf.toList.take s.inputPos = line
  tidy : Tidy s.console

structure Typed (row : Nat) (line : List Byte) (s : Shell) : Prop extends Holds line s where
  vgaRow : s.console.vgaRow = row
  vgaCol : s.console.vgaCol = prompt.length + line.length
  vgaColor : s.console.vgaColor = 0x0F
  cells : ∀ i < line.length, s.console.cells (row * 80 + prompt.length + i) = paint 0x0F (line.getD i 0)

variable {s : Shell} {line keys : List Byte} {ch : Byte} {row : Nat}

theorem store_of_lt {buf : Vector Byte 256} {i : Nat} (h : i < 256) (byte : Byte) :
    store buf i byte = some (buf.set i byte h) := dif_pos h

theorem vgaPrintChar_eq (s : Console) (byte : Byte) : vgaPrintChar s byte = printByte s byte := by
  rw [vgaPrintChar, vgaPrint, List.foldlM_cons]
  exact bind_pure _

theorem Holds.erase (h : Holds line s) (hline : line ≠ []) : ∃ s', keystroke s backspace = some s' ∧
    Holds line.dropLast s' ∧ s'.console.vgaCol = (s.console.vgaCol + 3) % 80 := by
  have hpos : 0 < s.inputPos := by
    rw [h.pos]
    exact List.length_pos_of_ne_nil hline
  have hle := h.le
  have hlen := h.pos
  have hlt : s.inputPos - 1 < 256 := by omega
  obtain ⟨c₁, h₁, htidy₁, hcol₁⟩ := h.tidy.printByte_col (by decide : backspace ≠ newline)
  obtain ⟨c₂, h₂, htidy₂, hcol₂⟩ := htidy₁.printByte_col (by decide : space ≠ newline)
  obtain ⟨c₃, h₃, htidy₃, hcol₃⟩ := htidy₂.printByte_col (by decide : backspace ≠ newline)
  refine ⟨⟨s.inputBuf.set (s.inputPos - 1) 0 hlt, s.inputPos - 1, c₃⟩, ?_, ⟨?_, ?_, ?_, htidy₃⟩, ?_⟩
  · simp only [keystroke, if_true, if_pos hpos, store_of_lt hlt, vgaPrintChar_eq, h₁, h₂, h₃,
      Option.bind_eq_bind, Option.bind_some]
    rfl
  · rw [List.length_dropLast, ← h.pos]
  · rw [List.length_dropLast]
    omega
  · rw [Vector.toList_set, List.take_set_of_le (Nat.le_refl _), List.dropLast_eq_take, ← h.pos]
    conv_rhs => rw [← h.text]
    rw [List.take_take, Nat.min_eq_left (Nat.sub_le _ 1)]
  · dsimp only
    omega

theorem Holds.erase_nil (h : Holds [] s) : keystroke s backspace = some s := by
  have hpos : ¬s.inputPos > 0 := by
    rw [h.pos]
    exact Nat.lt_irrefl 0
  rw [keystroke, if_pos rfl, if_neg hpos]

theorem take_set_concat {buf : Vector Byte 256} {n : Nat} (hn : n < 256) (ch : Byte) :
    (buf.set n ch hn).toList.take (n + 1) = buf.toList.take n ++ [ch] := by
  rw [Vector.toList_set, List.take_add_one, List.take_set_of_le (Nat.le_refl n),
    List.getElem?_set_self (by simpa using hn)]
  rfl

theorem ne_newline (hch : 32 ≤ ch.toNat) : ch ≠ newline := by
  rintro rfl
  exact absurd hch (by decide)

theorem ne_backspace (hch : 32 ≤ ch.toNat) : ch ≠ backspace := by
  rintro rfl
  exact absurd hch (by decide)

theorem keystroke_char (hch : 32 ≤ ch.toNat) (hpos : s.inputPos < 255) {c : Console}
    (hc : printByte s.console ch = some c) :
    keystroke s ch = some ⟨s.inputBuf.set s.inputPos ch (hpos.trans (by decide)),
      s.inputPos + 1, c⟩ := by
  simp only [keystroke, if_neg (ne_backspace hch), if_pos (And.intro hch hpos),
    store_of_lt (hpos.trans (by decide)), vgaPrintChar_eq, hc, Option.bind_eq_bind, Option.bind_some]
  rfl

theorem Holds.insert (h : Holds line s) (hch : 32 ≤ ch.toNat) (hlen : line.length < 255) :
    ∃ s', keystroke s ch = some s' ∧ Holds (line ++ [ch]) s' := by
  have hpos : s.inputPos < 255 := h.pos.trans_lt hlen
  obtain ⟨c, hc, htidy, -⟩ := h.tidy.printByte_col (ne_newline hch)
  refine ⟨_, keystroke_char hch hpos hc, ?_, ?_, ?_, htidy⟩
  · rw [List.length_append, List.length_singleton, ← h.pos]
  · rw [List.length_append, List.length_singleton]
    omega
  · rw [take_set_concat, h.text]

theorem Typed.insert (h : Typed row line s) (hch : 32 ≤ ch.toNat)
    (hlen : prompt.length + line.length + 1 < 80) :
    ∃ s', keystroke s ch = some s' ∧ Typed row (line ++ [ch]) s' := by
  have hnine : prompt.length = 9 := rfl
  have hpos : s.inputPos < 255 := h.pos.trans_lt (by omega)
  have hcol : s.console.vgaCol + 1 < 80 := by
    rw [h.vgaCol]
    exact hlen
  have hc := h.tidy.printByte_of_lt (ne_newline hch) hcol
  obtain ⟨s', hs', hholds⟩ := h.toHolds.insert hch (by omega)
  obtain rfl := Option.some.inj ((keystroke_char hch hpos hc).symm.trans hs')
  refine ⟨_, hs', hholds, h.vgaRow, ?_, h.vgaColor, fun i hi => ?_⟩
  · rw [List.length_append, List.length_singleton, ← Nat.add_assoc, ← h.vgaCol]
  · dsimp only [written]
    rw [h.vgaRow, h.vgaCol, h.vgaColor, ← Nat.add_assoc]
    rw [List.length_append, List.length_singleton] at hi
    obtain rfl | hne := eq_or_ne i line.length
    · rw [Function.update_self, List.getD_append_right _ _ _ _ (Nat.le_refl _), Nat.sub_self]
      rfl
    · have hlt : i < line.length := by omega
      rw [Function.update_of_ne (by omega), List.getD_append _ _ _ _ hlt, h.cells i hlt]

theorem Typed.agrees (h : Typed row line s) (hlen : prompt.length + line.length < 80) :
    Agrees row s := by
  refine ⟨fun i hi => ?_, ?_, ?_⟩
  · have htext : s.inputBuf.toList.getD i 0 = line.getD i 0 := by
      rw [List.getD_eq_getElem?_getD, List.getD_eq_getElem?_getD, ← h.text, List.getElem?_take_of_lt hi]
    rw [htext]
    exact h.cells i (h.pos ▸ hi)
  · have hrow := h.tidy.row
    apply h.tidy.ahead
    · rw [h.vgaRow, h.vgaCol, h.pos]
      omega
    · rw [h.vgaRow] at hrow
      rw [h.pos]
      omega
  · rw [h.vgaCol, h.pos]

theorem Typed.erase_disagrees (h : Typed row line s) (hline : line ≠ []) {s' : Shell}
    (hs' : keystroke s backspace = some s') : ¬Agrees row s' := by
  intro hagrees
  obtain ⟨s'', hs'', hholds, hcol⟩ := h.toHolds.erase hline
  obtain rfl := Option.some.inj (hs''.symm.trans hs')
  have hcol' := hagrees.col
  have hpos : 0 < line.length := List.length_pos_of_ne_nil hline
  rw [hcol, h.vgaCol, hholds.pos, List.length_dropLast] at hcol'
  omega

theorem EachAgrees.first (h : EachAgrees row s keys) : Agrees row s := by
  cases keys with
  | nil => exact h
  | cons ch keys => exact h.1

/-- Every keystroke is a backspace or a character to be printed. -/
def Keys (keys : List Byte) : Prop := ∀ ch ∈ keys, ch = backspace ∨ 32 ≤ ch.toNat

/-- The line fits in the row behind the prompt, and the cursor behind it. -/
def Fits (line : List Byte) : Prop := prompt.length + line.length < 80

theorem eachAgrees_iff (h : Typed row line s) (hkeys : Keys keys) (hfits : Always edit Fits line keys) :
    EachAgrees row s keys ↔ Guarded edit (fun line ch => ch = backspace → line = []) line keys := by
  induction keys generalizing line s with
  | nil => exact iff_of_true (h.agrees hfits) trivial
  | cons ch keys ih =>
    obtain ⟨hch, hlater⟩ := List.forall_mem_cons.mp hkeys
    obtain ⟨hthis, hnext⟩ := hfits
    rw [EachAgrees, Guarded, and_iff_right (h.agrees hthis)]
    obtain rfl | hch := hch
    · obtain rfl | hline := eq_or_ne line []
      · have hnil : edit [] backspace = [] := rfl
        rw [hnil] at hnext ⊢
        rw [and_iff_right fun _ => rfl, ← ih h hlater hnext, h.toHolds.erase_nil]
        exact ⟨fun ⟨_, hs', hrest⟩ => Option.some.inj hs' ▸ hrest, fun hrest => ⟨s, rfl, hrest⟩⟩
      · refine iff_of_false ?_ fun hguard => hline (hguard.1 rfl)
        rintro ⟨s', hs', hrest⟩
        exact h.erase_disagrees hline hs' hrest.first
    · have hedit : edit line ch = line ++ [ch] := if_neg (ne_backspace hch)
      have hroom : prompt.length + line.length + 1 < 80 := by
        have hfits := hnext.first
        rw [hedit, Fits, List.length_append, List.length_singleton] at hfits
        omega
      obtain ⟨s', hs', htyped⟩ := h.insert hch hroom
      rw [and_iff_right fun hback => absurd hback (ne_backspace hch),
        ← ih (hedit ▸ htyped) hlater hnext, hs']
      exact ⟨fun ⟨_, hs'', hrest⟩ => Option.some.inj hs'' ▸ hrest, fun hrest => ⟨s', rfl, hrest⟩⟩

theorem Holds.keystrokes (h : Holds line s) (hkeys : Keys keys) (hfits : Always edit Fits line keys) :
    ∃ s', keys.foldlM keystroke s = some s' ∧ Holds (run edit line keys) s' := by
  induction keys generalizing line s with
  | nil => exact ⟨s, rfl, h⟩
  | cons ch keys ih =>
    obtain ⟨hch, hkeys⟩ := List.forall_mem_cons.mp hkeys
    obtain ⟨hthis, hnext⟩ := hfits
    have hstep : ∃ s', keystroke s ch = some s' ∧ Holds (edit line ch) s' := by
      obtain rfl | hch := hch
      · rw [edit, if_pos rfl]
        obtain rfl | hline := eq_or_ne line []
        · exact ⟨s, h.erase_nil, h⟩
        · obtain ⟨s', hs', hholds, -⟩ := h.erase hline
          exact ⟨s', hs', hholds⟩
      · have hlen : line.length < 255 := by
          rw [Fits] at hthis
          omega
        rw [edit, if_neg (ne_backspace hch)]
        exact h.insert hch hlen
    obtain ⟨s', hs', hholds⟩ := hstep
    obtain ⟨s'', hs'', hlast⟩ := ih hholds hkeys hnext
    exact ⟨s'', by rw [List.foldlM_cons, hs']; exact hs'', hlast⟩

theorem Holds.enter (h : Holds line s) : ∃ console, enter s = some (line, console) := by
  have hlt : s.inputPos < 256 := by
    rw [h.pos]
    exact Nat.lt_succ_of_le h.le
  obtain ⟨c, hc, -⟩ := h.tidy.print [newline]
  refine ⟨c, ?_⟩
  rw [ShellLine.enter, hc, store_of_lt hlt]
  dsimp only [Option.bind_eq_bind, Option.bind_some]
  rw [Vector.toList_set, List.take_set_of_le (Nat.le_refl _), h.text]
  rfl

theorem Tidy.print_inRow {c : Console} (h : Tidy c) {msg : List Byte} (hmsg : ∀ b ∈ msg, b ≠ newline)
    (hlen : c.vgaCol + msg.length < 80) : ∃ c', vgaPrint c msg = some c' ∧ Tidy c' ∧
      c'.vgaRow = c.vgaRow ∧ c'.vgaCol = c.vgaCol + msg.length := by
  induction msg generalizing c with
  | nil => exact ⟨c, rfl, h, rfl, rfl⟩
  | cons b msg ih =>
    obtain ⟨hb, hmsg⟩ := List.forall_mem_cons.mp hmsg
    rw [List.length_cons] at hlen ⊢
    have hprint := h.printByte_of_lt hb (by omega)
    obtain ⟨c₁, hc₁, htidy₁, hcol₁⟩ := h.printByte_col hb
    obtain rfl := Option.some.inj (hprint.symm.trans hc₁)
    obtain ⟨c', hc', htidy, hrow, hcol⟩ := ih htidy₁ hmsg (by dsimp only; omega)
    refine ⟨c', ?_, htidy, hrow, ?_⟩
    · rw [vgaPrint, List.foldlM_cons, hc₁]
      exact hc'
    · rw [hcol]
      omega

theorem Tidy.setColor {c : Console} (h : Tidy c) (fg bg : Byte) : Tidy (vgaSetColor c fg bg) :=
  ⟨h.row, h.col, h.ahead⟩

theorem beginLine_typed {c : Console} (h : Tidy c) (hcol : c.vgaCol = 0) (devMode : Bool)
    (buf : Vector Byte 256) : ∃ s, beginLine devMode buf c = some s ∧ Typed c.vgaRow [] s := by
  have hprompt : ∀ b ∈ prompt, b ≠ newline := by decide +kernel
  have hset : ∃ c₁, (if devMode then vgaSetColor c 0x0A 0x00 else c) = c₁ ∧ Tidy c₁ ∧
      c₁.vgaRow = c.vgaRow ∧ c₁.vgaCol = 0 := by
    cases devMode with
    | false => exact ⟨c, rfl, h, rfl, hcol⟩
    | true => exact ⟨_, rfl, h.setColor _ _, rfl, hcol⟩
  obtain ⟨c₁, hc₁, htidy₁, hrow₁, hcol₁⟩ := hset
  obtain ⟨c₂, hc₂, htidy₂, hrow₂, hcol₂⟩ := htidy₁.print_inRow hprompt (by rw [hcol₁]; decide)
  refine ⟨⟨buf.set 0 0, 0, vgaSetColor c₂ 0x0F 0x00⟩, ?_,
    ⟨rfl, Nat.zero_le 255, rfl, htidy₂.setColor _ _⟩, ?_, ?_, ?_, ?_⟩
  · rw [beginLine, hc₁, hc₂]
    rfl
  · exact hrow₂.trans hrow₁
  · exact hcol₂.trans (by rw [hcol₁]; rfl)
  · have hwhite : (0x00 <<< 4 ||| 0x0F : Byte) = 0x0F := by decide
    exact hwhite
  · intro i hi
    exact absurd hi (Nat.not_lt_zero i)

/-- From a prompt at the beginning of a row on, the shell hands over the line that the keystrokes
make; and the screen shows it after each of them exactly when none of them takes a character away. -/
theorem shellLine_agrees_iff {c : Console} (h : Tidy c) (hcol : c.vgaCol = 0) (devMode : Bool)
    (buf : Vector Byte 256)
    (hkeys : Keys keys) (hfits : Always edit Fits [] keys) : ∃ s, beginLine devMode buf c = some s ∧
      (EachAgrees c.vgaRow s keys ↔ Guarded edit (fun line ch => ch = backspace → line = []) [] keys) ∧
      ∃ s', keys.foldlM keystroke s = some s' ∧ s'.inputPos ≤ 255 ∧
        ∃ console, enter s' = some (run edit [] keys, console) := by
  obtain ⟨s, hs, htyped⟩ := beginLine_typed h hcol devMode buf
  obtain ⟨s', hs', hholds⟩ := htyped.toHolds.keystrokes hkeys hfits
  refine ⟨s, hs, eachAgrees_iff htyped hkeys hfits, s', hs', ?_, hholds.enter⟩
  rw [hholds.pos]
  exact hholds.le

/-- The console after `vga_clear`. -/
def cleared : Console := ⟨0, 0, 0x0F, fun _ => blank⟩

theorem cleared_tidy : Tidy cleared := ⟨by decide, by decide, fun _ _ _ => rfl⟩

instance : DecidablePred Fits :=
  fun line => inferInstanceAs (Decidable (prompt.length + line.length < 80))

/-- `ls` and a backspace before it, which does nothing. -/
theorem ls_agrees : ∃ s, beginLine false (Vector.replicate 256 0) cleared = some s ∧
    EachAgrees 0 s [backspace, 0x6C, 0x73] := by
  have hkeys : Keys [backspace, 0x6C, 0x73] := by
    unfold Keys
    decide
  have hfits : Always edit Fits [] [backspace, 0x6C, 0x73] :=
    ⟨by decide, by decide, by decide, (by decide : Fits [0x6C, 0x73])⟩
  obtain ⟨s, hs, hiff, -⟩ := shellLine_agrees_iff cleared_tidy rfl false
    (Vector.replicate 256 0) hkeys hfits
  exact ⟨s, hs, hiff.mpr ⟨fun _ => rfl, fun h => absurd h (by decide),
    fun h => absurd h (by decide), trivial⟩⟩

/-- A character and a backspace: the line is empty, and the cursor four columns behind the prompt. -/
theorem backspace_disagrees : ∃ s s', beginLine false (Vector.replicate 256 0) cleared = some s ∧
    [0x6C, backspace].foldlM keystroke s = some s' ∧ s'.inputPos = 0 ∧
      s'.console.vgaCol = prompt.length + 4 ∧
    ¬EachAgrees 0 s [0x6C, backspace] := by
  obtain ⟨s, hs, htyped⟩ := beginLine_typed cleared_tidy rfl false (Vector.replicate 256 0)
  obtain ⟨s₁, hs₁, htyped₁⟩ := htyped.insert (by decide : 32 ≤ (0x6C : Byte).toNat) (by decide)
  obtain ⟨s₂, hs₂, hholds₂, hcol₂⟩ := htyped₁.toHolds.erase (by decide)
  refine ⟨s, s₂, hs, ?_, hholds₂.pos, ?_, ?_⟩
  · rw [List.foldlM_cons, hs₁, Option.bind_eq_bind, Option.bind_some, List.foldlM_cons, hs₂]
    rfl
  · rw [hcol₂, htyped₁.vgaCol]
    rfl
  · rintro ⟨-, s₁', hs₁', -, s₂', hs₂', hagrees⟩
    obtain rfl := Option.some.inj (hs₁.symm.trans hs₁')
    exact htyped₁.erase_disagrees (by decide) hs₂' hagrees

end DeltaOS.ShellLine
