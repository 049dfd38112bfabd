import Mathlib

namespace DeltaOS.Quanta

/-- Who has the turn, and who waits for one. -/
structure Line (α : Type*) where
  current : α
  queue : List α

structure Clock (α : Type*) extends Line α where
  left : Nat

variable {α β : Type*} [DecidableEq α] [LinearOrder β] (priority : α → β) (quantum : α → Nat)

def Line.members (l : Line α) : List α := l.queue ++ [l.current]

/-- Whoever had the turn goes to the back, and the earliest of the highest priority has the next one. -/
def next (l : Line α) : Line α :=
  let a := (l.members.argmax priority).getD l.current
  ⟨a, l.members.erase a⟩

/-- The line after `n` turns. -/
def after (l : Line α) (n : Nat) : Line α := (next priority)^[n] l

/-- How long the first `n` turns take. -/
def elapsed (l : Line α) (n : Nat) : Nat := ∑ i ∈ Finset.range n, quantum (after priority l i).current

def start (l : Line α) : Clock α := ⟨l, quantum l.current⟩

def tick (c : Clock α) : Clock α :=
  if c.left ≤ 1 then start quantum (next priority c.toLine) else { c with left := c.left - 1 }

variable {priority quantum} {l : Line α}

omit [DecidableEq α] in
theorem argmax_members_mem (l : Line α) : (l.members.argmax priority).getD l.current ∈ l.members := by
  cases h : l.members.argmax priority with
  | none => simp [Line.members]
  | some a => exact List.argmax_mem h

theorem members_next (l : Line α) : (next priority l).members.Perm l.members := by
  refine (List.perm_append_singleton _ _).trans ?_
  exact (List.perm_cons_erase (argmax_members_mem l)).symm

theorem members_tick (c : Clock α) : (tick priority quantum c).members.Perm c.members := by
  rw [tick]
  split
  · exact members_next c.toLine
  · exact .refl _

theorem after_succ (l : Line α) (n : Nat) :
    after priority l (n + 1) = next priority (after priority l n) :=
  Function.iterate_succ_apply' ..

theorem members_after (l : Line α) (n : Nat) : (after priority l n).members.Perm l.members := by
  induction n with
  | zero => exact .refl _
  | succ n ih =>
    rw [after_succ]
    exact (members_next _).trans ih

theorem next_eq {pre post : List α} {a : α} (hmem : l.members = pre ++ a :: post)
    (hpre : ∀ b ∈ pre, priority b < priority a) (hpost : ∀ b ∈ post, priority b ≤ priority a) :
    next priority l = ⟨a, pre ++ post⟩ := by
  have hout : a ∉ pre := fun ha => lt_irrefl _ (hpre a ha)
  have hidx : (pre ++ a :: post).idxOf a = pre.length := by
    rw [List.idxOf_append_of_notMem hout, List.idxOf_cons_self, Nat.add_zero]
  have hmax : l.members.argmax priority = some a := by
    rw [hmem, List.argmax_eq_some_iff]
    refine ⟨by simp, ?_, ?_⟩
    · intro b hb
      obtain hb | rfl | hb := by simpa using hb
      · exact (hpre b hb).le
      · exact le_rfl
      · exact hpost b hb
    · intro b hb hle
      have hb : b ∉ pre := fun hb => not_lt.mpr hle (hpre b hb)
      rw [hidx, List.idxOf_append_of_notMem hb]
      exact Nat.le_add_right _ _
  rw [next, hmax, hmem]
  simp only [Option.getD_some]
  rw [List.erase_append_right _ hout, List.erase_cons_head]

theorem iterate_tick (hpos : ∀ a ∈ l.members, 0 < quantum a) (m : Nat) :
    ∃ n k, m = elapsed priority quantum l n + k ∧ k < quantum (after priority l n).current ∧
      (tick priority quantum)^[m] (start quantum l) =
        ⟨after priority l n, quantum (after priority l n).current - k⟩ := by
  have hturn (n : Nat) : 0 < quantum (after priority l n).current := by
    have hmem : (after priority l n).current ∈ (after priority l n).members := by simp [Line.members]
    exact hpos _ ((members_after l n).mem_iff.mp hmem)
  induction m with
  | zero => exact ⟨0, 0, rfl, hturn 0, rfl⟩
  | succ m ih =>
    obtain ⟨n, k, rfl, hk, htick⟩ := ih
    rw [Function.iterate_succ_apply', htick, tick]
    dsimp only
    split_ifs with hlast
    · refine ⟨n + 1, 0, ?_, hturn (n + 1), ?_⟩
      · rw [elapsed, elapsed, Finset.sum_range_succ]
        omega
      · rw [after_succ]
        rfl
    · refine ⟨n, k + 1, rfl, by omega, ?_⟩
      rw [Nat.sub_sub]

end DeltaOS.Quanta
