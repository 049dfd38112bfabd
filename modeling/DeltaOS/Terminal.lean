import Mathlib

namespace DeltaOS.Terminal

variable {α : Type*} {w : Nat}

def wrap (w : Nat) (line : List α) : List (List α) :=
  (List.range (line.length / w + 1)).map fun i => (line.drop (w * i)).take w

/-- The rows of a text on a terminal that is `w` wide and has no end. -/
def rows [BEq α] (w : Nat) (newline : α) (text : List α) : List (List α) :=
  (text.splitOn newline).flatMap (wrap w)

theorem wrap_nil (w : Nat) : wrap w ([] : List α) = [[]] := by
  simp [wrap]

theorem wrap_eq (hw : 0 < w) (line : List α) : wrap w line =
    (List.range (line.length / w)).map (fun i => (line.drop (w * i)).take w) ++
      [line.drop (w * (line.length / w))] := by
  have hlast : (line.drop (w * (line.length / w))).length ≤ w := by
    rw [List.length_drop, ← Nat.mod_eq_sub]
    exact (Nat.mod_lt _ hw).le
  rw [wrap, List.range_succ, List.map_append, List.map_singleton, List.take_of_length_le hlast]

theorem take_drop_append {line : List α} {i : Nat} (hi : w * i + w ≤ line.length) (a : α) :
    ((line ++ [a]).drop (w * i)).take w = (line.drop (w * i)).take w := by
  rw [List.drop_append_of_le_length (by omega), List.take_append_of_le_length]
  rw [List.length_drop]
  omega

theorem wrap_append (hw : 0 < w) (line : List α) (a : α) : ∃ rs r, wrap w line = rs ++ [r] ∧
    r.length < w ∧
    wrap w (line ++ [a]) = if r.length + 1 < w then rs ++ [r ++ [a]] else rs ++ [r ++ [a], []] := by
  have hdiv : w * (line.length / w) + line.length % w = line.length := Nat.div_add_mod _ _
  have hmod : line.length % w < w := Nat.mod_lt _ hw
  have hlen : (line.drop (w * (line.length / w))).length = line.length % w := by
    rw [List.length_drop, Nat.mod_eq_sub]
  have hfull : (List.range (line.length / w)).map (fun i => ((line ++ [a]).drop (w * i)).take w) =
      (List.range (line.length / w)).map (fun i => (line.drop (w * i)).take w) := by
    apply List.map_congr_left
    intro i hi
    have hle : w * i + w ≤ w * (line.length / w) := Nat.mul_le_mul_left w (List.mem_range.mp hi)
    exact take_drop_append (by omega) a
  have hrow : (line ++ [a]).drop (w * (line.length / w)) = line.drop (w * (line.length / w)) ++ [a] :=
    List.drop_append_of_le_length (by omega)
  refine ⟨_, _, wrap_eq hw line, hlen.trans_lt hmod, ?_⟩
  rw [wrap_eq hw, List.length_append, List.length_singleton, hlen]
  split_ifs with hroom
  · have hquot : (line.length + 1) / w = line.length / w := by
      rw [Nat.div_eq_of_lt_le]
      · rw [Nat.mul_comm]; omega
      · rw [Nat.mul_comm, Nat.mul_succ]; omega
    rw [hquot, hfull, hrow]
  · have hquot : (line.length + 1) / w = line.length / w + 1 := by
      rw [Nat.div_eq_of_lt_le]
      · rw [Nat.mul_comm, Nat.mul_succ]; omega
      · rw [Nat.mul_comm, Nat.mul_succ, Nat.mul_succ]; omega
    have hend : (line ++ [a]).drop (w * (line.length / w + 1)) = [] := by
      apply List.drop_of_length_le
      rw [List.length_append, List.length_singleton, Nat.mul_succ]
      omega
    have hlast : (line.drop (w * (line.length / w)) ++ [a]).length ≤ w := by
      rw [List.length_append, hlen, List.length_singleton]
      omega
    rw [hquot, List.range_succ, List.map_append, List.map_singleton, hfull, hrow, hend,
      List.take_of_length_le hlast, List.append_assoc]
    rfl

section Rows

variable [BEq α] [LawfulBEq α] {newline : α}

theorem splitOn_newline (newline : α) (text : List α) :
    (text ++ [newline]).splitOn newline = text.splitOn newline ++ [[]] :=
  List.splitOnP_append_cons text [] (beq_self_eq_true newline)

theorem splitOn_append {a : α} (ha : a ≠ newline) (text : List α) : ∃ lines line,
    text.splitOn newline = lines ++ [line] ∧ (text ++ [a]).splitOn newline = lines ++ [line ++ [a]] := by
  induction text with
  | nil => exact ⟨[], [], rfl, by simp [List.splitOn, List.splitOnP_cons_eq_if_modifyHead, ha]⟩
  | cons b text ih =>
    obtain ⟨lines, line, htext, happend⟩ := ih
    rw [List.splitOn] at htext happend
    rw [List.cons_append, List.splitOn, List.splitOn, List.splitOnP_cons_eq_if_modifyHead,
      List.splitOnP_cons_eq_if_modifyHead, htext, happend]
    split_ifs
    · exact ⟨[] :: lines, line, rfl, rfl⟩
    · cases lines with
      | nil => exact ⟨[], b :: line, rfl, rfl⟩
      | cons first lines => exact ⟨(b :: first) :: lines, line, rfl, rfl⟩

omit [LawfulBEq α] in
theorem rows_nil (w : Nat) (newline : α) : rows w newline [] = [[]] := by
  rw [rows, List.splitOn_nil, List.flatMap_singleton, wrap_nil]

theorem rows_newline (w : Nat) (newline : α) (text : List α) :
    rows w newline (text ++ [newline]) = rows w newline text ++ [[]] := by
  rw [rows, splitOn_newline, List.flatMap_append, List.flatMap_singleton, wrap_nil]
  rfl

theorem rows_append (hw : 0 < w) {a : α} (ha : a ≠ newline) (text : List α) : ∃ rs r,
    rows w newline text = rs ++ [r] ∧ r.length < w ∧
      rows w newline (text ++ [a]) = if r.length + 1 < w then rs ++ [r ++ [a]] else rs ++
        [r ++ [a], []] := by
  obtain ⟨lines, line, htext, happend⟩ := splitOn_append ha text
  obtain ⟨rs, r, hwrap, hlen, hnext⟩ := wrap_append hw line a
  refine ⟨lines.flatMap (wrap w) ++ rs, r, ?_, hlen, ?_⟩
  · rw [rows, htext, List.flatMap_append, List.flatMap_singleton, hwrap, List.append_assoc]
  · rw [rows, happend, List.flatMap_append, List.flatMap_singleton, hnext]
    split_ifs <;> rw [List.append_assoc]

end Rows

end DeltaOS.Terminal
