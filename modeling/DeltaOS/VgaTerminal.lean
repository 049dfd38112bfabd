import DeltaOS.Vga

namespace DeltaOS.VgaTerminal

open Terminal Vga

def cellAt (color : Byte) (rs : List (List Byte)) (row col : Nat) : BitVec 16 :=
  ((rs.getD row [])[col]?).elim blank (paint color)

def Painted (color : Byte) (rs : List (List Byte)) (s : Console) : Prop :=
  ∀ row < 25, ∀ col < 80, s.cells (row * 80 + col) = cellAt color rs row col

def visible (text : List Byte) : List (List Byte) :=
  (rows 80 newline text).drop ((rows 80 newline text).length - 25)

/-- The screen shows the end of the text, with the cursor behind it. -/
structure Shows (color : Byte) (text : List Byte) (s : Console) : Prop where
  row : s.vgaRow + 1 = (visible text).length
  col : s.vgaCol = ((visible text).getLastD []).length
  cells : Painted color (visible text) s

/-- The rows above the cursor's, and the cursor's row up to the cursor. -/
structure Screen (color : Byte) (above : List (List Byte)) (last : List Byte) (s : Console) : Prop where
  row : s.vgaRow = above.length
  col : s.vgaCol = last.length
  vgaColor : s.vgaColor = color
  height : above.length < 25
  width : last.length < 80
  cells : Painted color (above ++ [last]) s

def lastRows (rs : List (List Byte)) : List (List Byte) := rs.drop (rs.length - 24)

variable {color byte : Byte} {rs above : List (List Byte)} {last text : List Byte} {s : Console}

theorem lastRows_of_length_le (h : rs.length ≤ 24) : lastRows rs = rs := by
  rw [lastRows, Nat.sub_eq_zero_of_le h, List.drop_zero]

theorem lastRows_lastRows_append (rs : List (List Byte)) (last : List Byte) :
    lastRows (lastRows rs ++ [last]) = lastRows (rs ++ [last]) := by
  obtain hle | hgt := Nat.le_total rs.length 24
  · rw [lastRows_of_length_le hle]
  · have hlen : (lastRows rs).length = 24 := by
      rw [lastRows, List.length_drop]
      omega
    rw [lastRows, List.length_append, hlen, lastRows, lastRows, List.length_append,
      List.length_singleton, ← List.drop_append_of_le_length (by omega), List.drop_drop]
    congr 1
    omega

theorem cellAt_append_nil (color : Byte) (rs : List (List Byte)) (row col : Nat) :
    cellAt color (rs ++ [[]]) row col = cellAt color rs row col := by
  have hrow : (rs ++ [[]]).getD row [] = rs.getD row [] := by
    simp only [List.getD_eq_getElem?_getD, List.getElem?_append]
    split_ifs with hlt
    · rfl
    · rw [List.getElem?_eq_none (not_lt.mp hlt)]
      cases row - rs.length <;> rfl
  rw [cellAt, hrow]
  rfl

theorem cellAt_drop (color : Byte) (rs : List (List Byte)) (row col : Nat) :
    cellAt color (rs.drop 1) row col = cellAt color rs (row + 1) col := by
  rw [cellAt, cellAt, List.getD_eq_getElem?_getD, List.getD_eq_getElem?_getD, List.getElem?_drop,
    Nat.add_comm 1]

theorem cellAt_beyond {row : Nat} (h : rs.length ≤ row) (col : Nat) :
    cellAt color rs row col = blank := by
  rw [cellAt, List.getD_eq_getElem?_getD, List.getElem?_eq_none h]
  rfl

theorem cellAt_above {row : Nat} (h : row < above.length) (last : List Byte) (col : Nat) :
    cellAt color (above ++ [last]) row col = cellAt color above row col := by
  rw [cellAt, cellAt, List.getD_append _ _ _ _ h]

theorem cellAt_last (color : Byte) (above : List (List Byte)) (last : List Byte) (col : Nat) :
    cellAt color (above ++ [last]) above.length col = (last[col]?).elim blank (paint color) := by
  rw [cellAt, List.getD_append_right _ _ _ _ le_rfl, Nat.sub_self]
  rfl

theorem cellAt_extend (color byte : Byte) (above : List (List Byte)) (last : List Byte) (row col : Nat) :
    cellAt color (above ++ [last ++ [byte]]) row col =
      if row = above.length ∧ col = last.length then paint color byte
        else cellAt color (above ++ [last]) row col := by
  obtain hlt | rfl | hgt := lt_trichotomy row above.length
  · rw [if_neg (by omega), cellAt_above hlt, cellAt_above hlt]
  · rw [cellAt_last, cellAt_last]
    obtain hlt | rfl | hgt := lt_trichotomy col last.length
    · rw [if_neg (by omega), List.getElem?_append_left hlt]
    · rw [if_pos ⟨rfl, rfl⟩, List.getElem?_concat_length]
      rfl
    · rw [if_neg (by omega), List.getElem?_eq_none hgt.le, List.getElem?_eq_none]
      rw [List.length_append, List.length_singleton]
      omega
  · have hlen (last : List Byte) : (above ++ [last]).length ≤ row := by
      rw [List.length_append, List.length_singleton]
      omega
    rw [if_neg (by omega), cellAt_beyond (hlen _), cellAt_beyond (hlen _)]

theorem newRow (hrow : s.vgaRow = rs.length) (hcol : s.vgaCol = 0) (hcolor : s.vgaColor = color)
    (hheight : rs.length ≤ 25) (hcells : Painted color rs s) :
    ∃ s', (if s.vgaRow ≥ vgaH then scroll s else pure s) = some s' ∧
      Screen color (lastRows rs) [] s' := by
  by_cases hfull : s.vgaRow ≥ 25
  · obtain ⟨s', hscroll, hrow', hcol', hcolor', hcells'⟩ := scroll_eq s
    have hlen : rs.length = 25 := by omega
    have hlast : lastRows rs = rs.drop 1 := by rw [lastRows, hlen]
    have hdrop : (rs.drop 1).length = 24 := by
      rw [List.length_drop]
      omega
    refine ⟨s', (if_pos hfull).trans hscroll, ?_⟩
    rw [hlast]
    refine ⟨hrow'.trans hdrop.symm, hcol', hcolor'.trans hcolor,
      by omega, by decide, fun row hr col hc => ?_⟩
    rw [cellAt_append_nil, cellAt_drop, hcells' _ (by omega)]
    split_ifs with hlow
    · rw [show row * 80 + col + 80 = (row + 1) * 80 + col by omega]
      exact hcells (row + 1) (by omega) col hc
    · exact (cellAt_beyond (by omega) col).symm
  · refine ⟨s, if_neg hfull, ?_⟩
    rw [lastRows_of_length_le (by omega)]
    refine ⟨hrow, hcol, hcolor, by omega, by decide, fun row hr col hc => ?_⟩
    rw [cellAt_append_nil]
    exact hcells row hr col hc

theorem Screen.printNewline (h : Screen color above last s) :
    ∃ s', printByte s newline = some s' ∧ Screen color (lastRows (above ++ [last])) [] s' := by
  have hheight := h.height
  have hlen : (above ++ [last]).length = above.length + 1 := List.length_append
  have hrow : s.vgaRow + 1 = (above ++ [last]).length := by rw [hlen, h.row]
  exact newRow (s := { s with vgaRow := s.vgaRow + 1, vgaCol := 0 }) hrow rfl h.vgaColor
    (by omega) h.cells

theorem Screen.painted_written (h : Screen color above last s) (byte : Byte) :
    Painted color (above ++ [last ++ [byte]]) (written s byte) := by
  have hwidth := h.width
  intro row hr col hc
  rw [cellAt_extend, written, h.row, h.col, h.vgaColor]
  dsimp only
  split_ifs with hcursor
  · obtain ⟨rfl, rfl⟩ := hcursor
    exact Function.update_self ..
  · rw [Function.update_of_ne (by omega)]
    exact h.cells row hr col hc

theorem Screen.printByte_eq (h : Screen color above last s) (hbyte : byte ≠ newline) : printByte s byte =
    if (advance (written s byte)).vgaRow ≥ vgaH then scroll (advance (written s byte))
    else pure (advance (written s byte)) := by
  have hrow : s.vgaRow < 25 := h.row ▸ h.height
  have hcol : s.vgaCol < 80 := h.col ▸ h.width
  rw [printByte, putByte_eq hrow hcol hbyte]
  rfl

theorem Screen.printChar (h : Screen color above last s) (hbyte : byte ≠ newline) :
    ∃ s', printByte s byte = some s' ∧
      if last.length + 1 < 80 then Screen color above (last ++ [byte]) s'
      else Screen color (lastRows (above ++ [last ++ [byte]])) [] s' := by
  have hheight := h.height
  have hcells := h.painted_written byte
  have hlen : (last ++ [byte]).length = last.length + 1 := List.length_append
  have hrows : (above ++ [last ++ [byte]]).length = above.length + 1 := List.length_append
  have hcol : (written s byte).vgaCol + 1 = last.length + 1 := congrArg (· + 1) h.col
  rw [h.printByte_eq hbyte]
  by_cases hroom : last.length + 1 < 80
  · simp only [if_pos hroom]
    have hadvance : advance (written s byte) =
        { written s byte with vgaCol := (written s byte).vgaCol + 1 } :=
      advance_of_lt (hcol.trans_lt hroom)
    have hrow : (advance (written s byte)).vgaRow = above.length := by
      rw [hadvance]
      exact h.row
    refine ⟨_, if_neg (by rw [hrow]; exact not_le.mpr hheight), hrow, ?_, ?_, hheight,
      hlen.trans_lt hroom, ?_⟩
    · rw [hadvance, hlen]
      exact hcol
    · rw [hadvance]
      exact h.vgaColor
    · rw [hadvance]
      exact hcells
  · simp only [if_neg hroom]
    have hadvance : advance (written s byte) =
        { written s byte with vgaCol := 0, vgaRow := (written s byte).vgaRow + 1 } :=
      advance_of_le (hcol.symm ▸ not_lt.mp hroom)
    have hrow : (advance (written s byte)).vgaRow = (above ++ [last ++ [byte]]).length := by
      rw [hadvance, hrows]
      exact congrArg (· + 1) h.row
    apply newRow hrow
    · rw [hadvance]
    · rw [hadvance]
      exact h.vgaColor
    · omega
    · rw [hadvance]
      exact hcells

def Follows (color : Byte) (text : List Byte) (s : Console) : Prop :=
  ∃ rs last, rows 80 newline text = rs ++ [last] ∧ Screen color (lastRows rs) last s

theorem Follows.printByte (h : Follows color text s) (byte : Byte) :
    ∃ s', printByte s byte = some s' ∧ Follows color (text ++ [byte]) s' := by
  obtain ⟨rs, last, hrows, hscreen⟩ := h
  obtain rfl | hbyte := eq_or_ne byte newline
  · obtain ⟨s', hrun, hnext⟩ := hscreen.printNewline
    rw [lastRows_lastRows_append] at hnext
    exact ⟨s', hrun, rs ++ [last], [], by rw [rows_newline, hrows], hnext⟩
  · obtain ⟨s', hrun, hnext⟩ := hscreen.printChar hbyte
    obtain ⟨rs', last', hrows', -, happend⟩ := rows_append (by decide : 0 < 80) hbyte text
    obtain ⟨rfl, hlast⟩ := List.append_inj' (hrows.symm.trans hrows') rfl
    obtain rfl := List.singleton_inj.mp hlast
    refine ⟨s', hrun, ?_⟩
    split_ifs at hnext happend
    · exact ⟨rs, last ++ [byte], happend, hnext⟩
    · rw [lastRows_lastRows_append] at hnext
      exact ⟨rs ++ [last ++ [byte]], [], by rw [happend, List.append_assoc]; rfl, hnext⟩

theorem Follows.vgaPrint (h : Follows color text s) (msg : List Byte) :
    ∃ s', vgaPrint s msg = some s' ∧ Follows color (text ++ msg) s' := by
  induction msg generalizing text s with
  | nil => exact ⟨s, rfl, by rwa [List.append_nil]⟩
  | cons byte msg ih =>
    obtain ⟨s₁, hfirst, h₁⟩ := h.printByte byte
    obtain ⟨s', hrest, h'⟩ := ih h₁
    refine ⟨s', ?_, by rwa [List.append_assoc] at h'⟩
    rw [Vga.vgaPrint, List.foldlM_cons, hfirst]
    exact hrest

theorem foldlM_vgaPrint (s : Console) (msgs : List (List Byte)) :
    msgs.foldlM vgaPrint s = vgaPrint s msgs.flatten := by
  induction msgs generalizing s with
  | nil => rfl
  | cons msg msgs ih =>
    rw [List.foldlM_cons, List.flatten_cons, Vga.vgaPrint, Vga.vgaPrint, List.foldlM_append]
    exact bind_congr ih

theorem vgaClear_follows (s : Console) : ∃ s₀, vgaClear s = some s₀ ∧ Follows s.vgaColor [] s₀ := by
  have hclear : (List.range 2000).foldlM (clearCell 0) s = some (s.patch 0 2000 fun _ => blank) :=
    clearCells_eq s le_rfl
  refine ⟨{ s.patch 0 2000 fun _ => blank with vgaRow := 0, vgaCol := 0 }, ?_, [], [], rows_nil _ _, ?_⟩
  · rw [vgaClear, show vgaW * vgaH = 2000 from rfl, hclear]
    rfl
  · refine ⟨rfl, rfl, rfl, by decide, by decide, fun row hr col hc => ?_⟩
    have hcell : cellAt s.vgaColor ([] ++ [[]]) row col = blank := by
      rw [cellAt_append_nil]
      exact cellAt_beyond (Nat.zero_le row) col
    rw [lastRows_of_length_le (by decide), hcell]
    exact if_pos (by omega)

theorem Follows.shows (h : Follows color text s) : Shows color text s := by
  obtain ⟨rs, last, hrows, hscreen⟩ := h
  have hvisible : visible text = lastRows rs ++ [last] := by
    rw [visible, hrows, List.length_append, List.length_singleton,
      List.drop_append_of_le_length (by omega), lastRows,
      show rs.length + 1 - 25 = rs.length - 24 by omega]
  refine ⟨?_, ?_, ?_⟩
  · rw [hvisible, List.length_append, List.length_singleton, hscreen.row]
  · rw [hvisible, List.getLastD_concat, hscreen.col]
  · rw [hvisible]
    exact hscreen.cells

/-- The console shows the end of the text on a terminal that has no end, and never writes outside of
the screen. -/
theorem console_refines (s : Console) (msgs : List (List Byte)) : ∃ s₀, vgaClear s = some s₀ ∧
    (∀ bytes, bytes <+: msgs.flatten → ∃ s', vgaPrint s₀ bytes = some s' ∧ s'.vgaRow < 25 ∧
      s'.vgaCol < 80) ∧
    ∃ s', msgs.foldlM vgaPrint s₀ = some s' ∧ Shows s.vgaColor msgs.flatten s' := by
  obtain ⟨s₀, hclear, hstart⟩ := vgaClear_follows s
  refine ⟨s₀, hclear, fun bytes _ => ?_, ?_⟩
  · obtain ⟨s', hrun, rs, last, -, hscreen⟩ := hstart.vgaPrint bytes
    refine ⟨s', hrun, ?_, ?_⟩
    · rw [hscreen.row]
      exact hscreen.height
    · rw [hscreen.col]
      exact hscreen.width
  · obtain ⟨s', hrun, hend⟩ := hstart.vgaPrint msgs.flatten
    rw [foldlM_vgaPrint]
    exact ⟨s', hrun, hend.shows⟩

end DeltaOS.VgaTerminal
