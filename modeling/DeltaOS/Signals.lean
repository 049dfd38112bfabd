import DeltaOS.LeastFirst
import DeltaOS.Tasks

namespace DeltaOS.Signals

open Tasks LeastFirst

/-- `has_signal`. -/
def hasSignal (t : Task) (signal : Nat) : Bool :=
  if signal < 32 then t.pendingSignals &&& (1#32 <<< signal) != 0 else false

/-- The calls of a task's signal queue one after the other: what `pop_signal` returns in turn, and the
task. -/
def run (t : Task) : List (Op Nat) → List (Option Nat) × Task
  | [] => ([], t)
  | .send signal :: ops => run (t.sendSignal signal) ops
  | .pop :: ops => (t.popSignal.1 :: (run t.popSignal.2 ops).1, (run t.popSignal.2 ops).2)

def signals (mask : BitVec 32) : Finset Nat := (Finset.range 32).filter fun i => mask.getLsbD i

def pending (t : Task) : Finset Nat := signals t.pendingSignals

def blocked (t : Task) : Finset Nat := signals t.blockedSignals

variable {t : Task} {mask : BitVec 32} {signal i : Nat} {ops : List (Op Nat)}

@[simp] theorem mem_signals : i ∈ signals mask ↔ mask.getLsbD i = true := by
  rw [signals, Finset.mem_filter, Finset.mem_range]
  exact ⟨fun h => h.2, fun h => ⟨BitVec.lt_of_getLsbD h, h⟩⟩

theorem signals_or (a b : BitVec 32) : signals (a ||| b) = signals a ∪ signals b := by
  ext i
  rw [mem_signals, Finset.mem_union, mem_signals, mem_signals, BitVec.getLsbD_or, Bool.or_eq_true]

theorem signals_and (a b : BitVec 32) : signals (a &&& b) = signals a ∩ signals b := by
  ext i
  rw [mem_signals, Finset.mem_inter, mem_signals, mem_signals, BitVec.getLsbD_and, Bool.and_eq_true]

theorem signals_and_not (a b : BitVec 32) : signals (a &&& ~~~b) = signals a \ signals b := by
  ext i
  rw [mem_signals, Finset.mem_sdiff, mem_signals, mem_signals, BitVec.getLsbD_and, BitVec.getLsbD_not]
  by_cases hi : a.getLsbD i
  · have hlt : i < 32 := BitVec.lt_of_getLsbD hi
    simp [hi, hlt]
  · simp [hi]

theorem signals_one_shiftLeft (h : signal < 32) : signals (1#32 <<< signal) = {signal} := by
  ext i
  rw [mem_signals, Finset.mem_singleton]
  by_cases hi : i = signal
  · subst hi
    simp [h]
  · simp only [BitVec.getLsbD_shiftLeft, BitVec.getLsbD_one, hi]
    grind

theorem signals_eq_empty : signals mask = ∅ ↔ mask = 0 := by
  constructor
  · intro h
    ext i hi
    have hnot : i ∉ signals mask := h ▸ Finset.notMem_empty i
    simpa [BitVec.getLsbD_eq_getElem hi] using hnot
  · rintro rfl
    ext i
    simp

theorem isLeast_trailingZeros (h : mask ≠ 0) :
    IsLeast (signals mask : Set Nat) (trailingZeros mask) := by
  have hsome : ∃ i, (List.range 32).find? mask.getLsbD = some i := by
    obtain ⟨i, hi⟩ := Finset.nonempty_iff_ne_empty.mpr (mt signals_eq_empty.mp h)
    have hbit := mem_signals.mp hi
    rw [← Option.isSome_iff_exists, List.find?_isSome]
    exact ⟨i, List.mem_range.mpr (BitVec.lt_of_getLsbD hbit), hbit⟩
  obtain ⟨i, hi⟩ := hsome
  have htrailing : trailingZeros mask = i := by rw [trailingZeros, hi, Option.getD_some]
  rw [List.find?_range_eq_some] at hi
  obtain ⟨hbit, -, hbelow⟩ := hi
  rw [htrailing]
  refine ⟨mem_signals.mpr hbit, fun j hj => ?_⟩
  by_contra hlt
  have hclear := hbelow j (not_le.mp hlt)
  rw [mem_signals.mp hj] at hclear
  cases hclear

theorem pending_sendSignal (t : Task) (signal : Nat) : pending (t.sendSignal signal) =
    if signal ∈ Finset.range 32 then insert signal (pending t) else pending t := by
  rw [Task.sendSignal]
  by_cases h : signal < 32
  · rw [if_pos h, if_pos (Finset.mem_range.mpr h), Finset.insert_eq, Finset.union_comm,
      ← signals_one_shiftLeft h]
    exact signals_or t.pendingSignals _
  · rw [if_neg h, if_neg fun hmem => h (Finset.mem_range.mp hmem)]

@[simp] theorem blocked_sendSignal (t : Task) (signal : Nat) :
    blocked (t.sendSignal signal) = blocked t := by
  rw [Task.sendSignal]
  split <;> rfl

theorem popSignal_only (t : Task) : ∃ mask, t.popSignal.2 = { t with pendingSignals := mask } := by
  rw [Task.popSignal]
  dsimp only
  split
  · exact ⟨t.pendingSignals, rfl⟩
  · exact ⟨_, rfl⟩

@[simp] theorem blocked_popSignal (t : Task) : blocked t.popSignal.2 = blocked t := by
  obtain ⟨mask, hmask⟩ := popSignal_only t
  rw [hmask]
  rfl

theorem popSignal_takes (t : Task) :
    Takes (blocked t) (pending t) t.popSignal.1 (pending t.popSignal.2) := by
  have hsdiff : signals (t.pendingSignals &&& ~~~t.blockedSignals) = pending t \ blocked t :=
    signals_and_not _ _
  rw [Task.popSignal]
  dsimp only
  split
  next h =>
    rw [← signals_eq_empty, hsdiff, Finset.sdiff_eq_empty_iff_subset] at h
    exact .nothing h
  next h =>
    have hleast := isLeast_trailingZeros h
    have hlt : trailingZeros (t.pendingSignals &&& ~~~t.blockedSignals) < 32 :=
      BitVec.lt_of_getLsbD (mem_signals.mp hleast.1)
    rw [hsdiff, Finset.coe_sdiff] at hleast
    have hcleared : pending { t with pendingSignals := t.pendingSignals &&&
        ~~~(1#32 <<< trailingZeros (t.pendingSignals &&& ~~~t.blockedSignals)) } =
          _ := signals_and_not _ _
    rw [hcleared, signals_one_shiftLeft hlt, Finset.sdiff_singleton_eq_erase]
    exact .least hleast

@[simp] theorem blocked_run (t : Task) (ops : List (Op Nat)) : blocked (run t ops).2 = blocked t := by
  induction ops generalizing t with
  | nil => rfl
  | cons op ops ih =>
    cases op with
    | send signal => rw [run, ih, blocked_sendSignal]
    | pop => rw [run, ih, blocked_popSignal]

theorem run_refines (t : Task) (ops : List (Op Nat)) :
    Run (Finset.range 32) (blocked t) (pending t) ops (run t ops).1 (pending (run t ops).2) := by
  induction ops generalizing t with
  | nil => exact .done _
  | cons op ops ih =>
    cases op with
    | send signal =>
      have hrest := ih (t.sendSignal signal)
      rw [blocked_sendSignal, pending_sendSignal] at hrest
      exact .send hrest
    | pop =>
      have hrest := ih t.popSignal.2
      rw [blocked_popSignal] at hrest
      exact .pop (popSignal_takes t) hrest

theorem hasSignal_iff (t : Task) (signal : Nat) : hasSignal t signal = true ↔ signal ∈ pending t := by
  rw [hasSignal, pending]
  by_cases h : signal < 32
  · rw [if_pos h, bne_iff_ne, Ne, ← signals_eq_empty, signals_and, signals_one_shiftLeft h,
      ← Finset.disjoint_iff_inter_eq_empty, Finset.disjoint_singleton_right, not_not]
  · rw [if_neg h, mem_signals, BitVec.getLsbD_of_ge _ _ (not_lt.mp h)]

/-- `pop_signal` returns the least signal that is pending and not blocked, and clears that one only. -/
structure PopsLeast (t : Task) : Prop where
  none_iff : t.popSignal.1 = none ↔ pending t ⊆ blocked t
  some_iff : ∀ signal, t.popSignal.1 = some signal ↔ IsLeast (pending t \ blocked t : Set Nat) signal
  clears : ∀ signal, signal ∈ pending t.popSignal.2 ↔ signal ∈ pending t ∧ t.popSignal.1 ≠ some signal
  only : ∃ mask, t.popSignal.2 = { t with pendingSignals := mask }

theorem popsLeast (t : Task) : PopsLeast t where
  none_iff := (popSignal_takes t).none_iff
  some_iff _ := (popSignal_takes t).some_iff
  clears _ := (popSignal_takes t).mem_iff
  only := popSignal_only t

theorem mem_pending_sendSignal (h : signal < 32) : signal ∈ pending (t.sendSignal signal) := by
  rw [pending_sendSignal, if_pos (Finset.mem_range.mpr h)]
  exact Finset.mem_insert_self signal _

theorem returned_of_sent (h : signal < 32) (hblocked : signal ∉ blocked t)
    (hnone : (run (t.sendSignal signal) ops).2.popSignal.1 = none) :
    some signal ∈ (run (t.sendSignal signal) ops).1 := by
  have hrun := run_refines (t.sendSignal signal) ops
  rw [(popsLeast _).none_iff, blocked_run, blocked_sendSignal] at hnone
  rw [blocked_sendSignal] at hrun
  exact hrun.taken_of_nothing (mem_pending_sendSignal h) hblocked hnone

theorem not_returned_again (hpop : t.popSignal.1 = some signal) (hops : Op.send signal ∉ ops) :
    some signal ∉ (run t.popSignal.2 ops).1 := by
  refine (run_refines t.popSignal.2 ops).not_taken (fun hmem => ?_) hops
  exact (((popsLeast t).clears signal).mp hmem).2 hpop

theorem pending_of_none (hnone : (run t ops).2.popSignal.1 = none) : signal ∈ pending (run t ops).2 ↔
    signal ∈ blocked t ∧ (signal ∈ pending t ∨ signal < 32 ∧ Op.send signal ∈ ops) := by
  rw [(popsLeast _).none_iff, blocked_run] at hnone
  have hheld : signal ∈ blocked t → (signal ∈ pending (run t ops).2 ↔ _) := (run_refines t ops).held_iff
  rw [Finset.mem_range] at hheld
  exact ⟨fun h => ⟨hnone h, (hheld (hnone h)).mp h⟩, fun h => (hheld h.1).mpr h.2⟩

/-- Popping until there is nothing to return takes 32 calls at most, and leaves the pending signals
that are blocked. -/
theorem drain (t : Task) : ∃ n ≤ 32,
    (run t (List.replicate n .pop)).1 = ((pending t \ blocked t).sort (· ≤ ·)).map some ∧
    (run t (List.replicate n .pop)).2.popSignal.1 = none ∧
    pending (run t (List.replicate n .pop)).2 = pending t ∩ blocked t := by
  have hcard : (pending t \ blocked t).card ≤ 32 := by
    have hsub : pending t \ blocked t ⊆ Finset.range 32 :=
      Finset.sdiff_subset.trans (Finset.filter_subset _ _)
    exact (Finset.card_le_card hsub).trans (Finset.card_range 32).le
  obtain ⟨htaken, hleft⟩ :=
    (run_refines t (List.replicate (pending t \ blocked t).card .pop)).drained rfl
  refine ⟨_, hcard, htaken, ?_, hleft⟩
  rw [(popsLeast _).none_iff, blocked_run, hleft]
  exact Finset.inter_subset_right

/-- The signal queue of a task, whatever has been done with it before. -/
theorem signalQueue_correct (t : Task) (before : List (Op Nat)) :
    PopsLeast (run t before).2 ∧
    (∀ signal < 32, signal ∉ blocked t → ∀ ops,
      (run ((run t before).2.sendSignal signal) ops).2.popSignal.1 = none →
        some signal ∈ (run ((run t before).2.sendSignal signal) ops).1) ∧
    (∀ signal ops, Op.send signal ∉ ops →
      (run (run t before).2 ops).1.count (some signal) ≤ 1 ∧
      ((run t before).2.popSignal.1 = some signal →
        some signal ∉ (run (run t before).2.popSignal.2 ops).1)) ∧
    (∃ n ≤ 32, (run (run t before).2 (List.replicate n .pop)).2.popSignal.1 = none) ∧
    ∀ ops, (run (run t before).2 ops).2.popSignal.1 = none → ∀ signal,
      signal ∈ pending (run (run t before).2 ops).2 ↔
        signal ∈ blocked t ∧ (signal ∈ pending (run t before).2 ∨ signal < 32 ∧
          Op.send signal ∈ ops) := by
  refine ⟨popsLeast _, ?_, ?_, ?_, ?_⟩
  · intro signal h hblocked ops hnone
    exact returned_of_sent h (by rwa [blocked_run]) hnone
  · intro signal ops hops
    exact ⟨(run_refines _ ops).count_le_one hops, fun hpop => not_returned_again hpop hops⟩
  · obtain ⟨n, hn, -, hnone, -⟩ := drain (run t before).2
    exact ⟨n, hn, hnone⟩
  · intro ops hnone signal
    rw [pending_of_none hnone, blocked_run]

end DeltaOS.Signals
