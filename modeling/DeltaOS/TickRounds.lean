import DeltaOS.Quanta
import DeltaOS.ReadyQueue
import DeltaOS.TimerPaths

namespace DeltaOS.TickRounds

open Kernel Tasks Sched Runs Quanta

def ticked (s : Scheduler) (cpu : SavedRegisters) : Scheduler := (s.tick cpu).1

/-- The task runs at the start of its time slice, and the others wait for theirs. -/
structure Fresh (s : Scheduler) (r : TaskRef) : Prop where
  enabled : s.preemptEnabled = true
  unrequested : s.needReschedule = false
  current : s.current = some r
  running : (s.cells r).state = .running
  unqueued : r ∉ s.readyQueue
  distinct : s.readyQueue.Nodup
  ready : ∀ a ∈ s.readyQueue, (s.cells a).state = .ready
  silent : ∀ a ∈ s.readyQueue ++ [r], (s.cells a).pendingSignals = 0
  slice : ∀ a ∈ s.readyQueue ++ [r], (s.cells a).timeSlice = (s.cells a).defaultTimeSlice
  positive : ∀ a ∈ s.readyQueue ++ [r], 1 ≤ (s.cells a).defaultTimeSlice

def priorities (s : Scheduler) (r : TaskRef) : TaskPriority := (s.cells r).priority

def slices (s : Scheduler) (r : TaskRef) : Nat := (s.cells r).defaultTimeSlice

/-- The scheduler is where the clock says, with the priorities and time slices of the state it started
in. -/
structure InTurn (origin : Scheduler) (c : Clock TaskRef) (s : Scheduler) : Prop where
  enabled : s.preemptEnabled = true
  unrequested : s.needReschedule = false
  current : s.current = some c.current
  queue : s.readyQueue = c.queue
  running : (s.cells c.current).state = .running
  ready : ∀ a ∈ c.queue, (s.cells a).state = .ready
  left : (s.cells c.current).timeSlice = c.left
  reset : ∀ a ∈ c.queue, (s.cells a).timeSlice = slices origin a
  distinct : c.members.Nodup
  silent : ∀ a ∈ c.members, (s.cells a).pendingSignals = 0
  priorities : priorities s = priorities origin
  slices : slices s = slices origin

/-- The tick is charged to the current task, and to no other. -/
def Charged (s : Scheduler) (cpu : SavedRegisters) : Prop := ∀ r,
  ((ticked s cpu).cells r).totalCpuTicks.toNat =
    (s.cells r).totalCpuTicks.toNat + if s.current = some r then 1 else 0

/-- The counters of the tasks have room for some ticks. -/
def Countable (s : Scheduler) (members : List TaskRef) (ticks : Nat) : Prop :=
  ∀ a ∈ members, (s.cells a).totalCpuTicks.toNat + ticks < 2 ^ 64

variable {s origin : Scheduler} {r : TaskRef} {c : Clock TaskRef}

theorem Fresh.inTurn (h : Fresh s r) : InTurn s (start (slices s) ⟨r, s.readyQueue⟩) s where
  enabled := h.enabled
  unrequested := h.unrequested
  current := h.current
  queue := rfl
  running := h.running
  ready := h.ready
  left := h.slice r (by simp)
  reset a ha := h.slice a (List.mem_append_left _ ha)
  distinct := by
    rw [Line.members, List.nodup_append_comm, List.singleton_append, List.nodup_cons]
    exact ⟨h.unqueued, h.distinct⟩
  silent := h.silent
  priorities := rfl
  slices := rfl

structure Waiting (origin s : Scheduler) : Prop where
  distinct : s.readyQueue.Nodup
  ready : ∀ a ∈ s.readyQueue, (s.cells a).state = .ready
  reset : ∀ a ∈ s.readyQueue, (s.cells a).timeSlice = slices origin a
  silent : ∀ a ∈ s.readyQueue, (s.cells a).pendingSignals = 0
  priorities : priorities s = priorities origin
  slices : slices s = slices origin

def charged (s : Scheduler) (r : TaskRef) : Scheduler := s.countTick.charge r (s.cells r)

theorem charged_cells (s : Scheduler) (r a : TaskRef) :
    (charged s r).cells a = if a = r then consumeTick (s.cells a) else s.cells a := by
  rw [charged, Scheduler.charge_eq]
  obtain rfl | hne := eq_or_ne a r
  · simp
  · simp [hne]

theorem InTurn.tick_eq (h : InTurn origin c s) (cpu : SavedRegisters) :
    s.tick cpu = (charged s c.current).scheduleIfNeeded cpu := by
  have hsilent := h.silent c.current (by simp [Line.members])
  rw [Scheduler.tick_current h.enabled h.current, deliverSignal_of_pending_zero hsilent, charged]
  rw [if_neg (by simp [h.running])]

theorem InTurn.charged_reschedules (h : InTurn origin c s) :
    (charged s c.current).needReschedule = decide (c.left ≤ 1) := by
  rw [charged, Scheduler.charge_eq]
  simp only [Scheduler.countTick_needReschedule, h.unrequested, Bool.or_false, consumeTick, h.left,
    Nat.sub_eq_zero_iff_le]

theorem InTurn.charged_yielded (h : InTurn origin c s) :
    (charged s c.current).yielded = [c.current] := by
  apply Scheduler.yielded_of_running
  · rw [charged, Scheduler.charge_eq]
    exact h.current
  · rw [charged_cells, if_pos rfl]
    exact h.running

theorem InTurn.released_cells (h : InTurn origin c s) (a : TaskRef) :
    (charged s c.current).released.cells a =
    if a = c.current then { consumeTick (s.cells a) with state := .ready }.resetTimeSlice
      else s.cells a := by
  rw [Scheduler.released_cells, h.charged_yielded, charged_cells]
  simp only [List.mem_singleton]
  split <;> rfl

theorem InTurn.released_readyQueue (h : InTurn origin c s) :
    (charged s c.current).released.readyQueue = c.members := by
  have hqueue : (charged s c.current).readyQueue = c.queue := by
    rw [charged, Scheduler.charge_eq]
    exact h.queue
  rw [Scheduler.released_readyQueue, h.charged_yielded, hqueue]
  rfl

theorem InTurn.waiting (h : InTurn origin c s) : Waiting origin (charged s c.current).released := by
  have hmem {a : TaskRef} (ha : a ∈ c.members) (hne : a ≠ c.current) : a ∈ c.queue := by
    simpa [Line.members, hne] using ha
  constructor
  · rw [h.released_readyQueue]
    exact h.distinct
  · intro a ha
    rw [h.released_readyQueue] at ha
    rw [h.released_cells]
    split_ifs with hne
    · rfl
    · exact h.ready a (hmem ha hne)
  · intro a ha
    rw [h.released_readyQueue] at ha
    rw [h.released_cells]
    split_ifs with hne
    · exact congrFun h.slices a
    · exact h.reset a (hmem ha hne)
  · intro a ha
    rw [h.released_readyQueue] at ha
    rw [h.released_cells]
    split_ifs <;> exact h.silent a ha
  · funext a
    rw [← h.priorities, TickRounds.priorities, h.released_cells]
    split_ifs <;> rfl
  · funext a
    rw [← h.slices, TickRounds.slices, h.released_cells]
    split_ifs <;> rfl

theorem Waiting.pick (h : Waiting origin s) (hne : s.readyQueue ≠ []) : ∃ pre a post,
    s.readyQueue = pre ++ a :: post ∧ s.pickNextTask = (some a, { s with readyQueue := pre ++ post }) ∧
      (∀ b ∈ pre, TickRounds.priorities origin b < TickRounds.priorities origin a) ∧
      ∀ b ∈ post, TickRounds.priorities origin b ≤ TickRounds.priorities origin a := by
  obtain ⟨hn, -⟩ | ⟨pre, a, post, hq, hfirst, hp, -⟩ := s.pickNextTask_spec
  · exact absurd (ReadyQueue.eq_nil_of_nothingToPick h.ready hn) hne
  rw [← h.priorities]
  refine ⟨pre, a, post, hq, hp, fun b hb => ?_, fun b hb => ?_⟩
  · exact hfirst.before b hb (h.ready b (by simp [hq, hb]))
  · exact hfirst.after b hb (h.ready b (by simp [hq, hb]))

theorem Waiting.dispatched {pre post : List TaskRef} {a : TaskRef} {s' : Scheduler}
    (h : Waiting origin s) (hq : s.readyQueue = pre ++ a :: post) (henabled : s'.preemptEnabled = true)
    (hneed : s'.needReschedule = false)
    (hcurrent : s'.current = some a) (hqueue : s'.readyQueue = pre ++ post)
    (hcells : ∀ b, ∃ regs, s'.cells b =
      { if b = a then { s.cells a with state := .running } else s.cells b with regs := regs }) :
    InTurn origin (start (TickRounds.slices origin) ⟨a, pre ++ post⟩) s' := by
  have hperm : (pre ++ post ++ [a]).Perm s.readyQueue := by
    rw [hq]
    exact (List.perm_append_singleton _ _).trans List.perm_middle.symm
  have hmem {b : TaskRef} (hb : b ∈ pre ++ post) : b ∈ s.readyQueue :=
    hperm.subset (List.mem_append_left _ hb)
  have hfixed (b : TaskRef) : (s'.cells b).priority = (s.cells b).priority ∧
      (s'.cells b).defaultTimeSlice = (s.cells b).defaultTimeSlice ∧
        (s'.cells b).timeSlice = (s.cells b).timeSlice ∧
      (s'.cells b).pendingSignals = (s.cells b).pendingSignals := by
    obtain ⟨regs, hcell⟩ := hcells b
    rw [hcell]
    split_ifs with hb
    · subst hb
      exact ⟨rfl, rfl, rfl, rfl⟩
    · exact ⟨rfl, rfl, rfl, rfl⟩
  have hdistinct : (pre ++ post ++ [a]).Nodup := hperm.nodup_iff.mpr h.distinct
  constructor
  · exact henabled
  · exact hneed
  · exact hcurrent
  · exact hqueue
  · obtain ⟨regs, hcell⟩ := hcells a
    dsimp only [start]
    rw [hcell, if_pos rfl]
  · intro b hb
    have hne : b ≠ a := (List.nodup_append.mp hdistinct).2.2 b hb a (List.mem_singleton_self a)
    obtain ⟨regs, hcell⟩ := hcells b
    rw [hcell, if_neg hne]
    exact h.ready b (hmem hb)
  · exact (hfixed a).2.2.1.trans (h.reset a (by simp [hq]))
  · exact fun b hb => (hfixed b).2.2.1.trans (h.reset b (hmem hb))
  · exact hdistinct
  · exact fun b hb => (hfixed b).2.2.2.trans (h.silent b (hperm.subset hb))
  · rw [← h.priorities]
    exact funext fun b => (hfixed b).1
  · rw [← h.slices]
    exact funext fun b => (hfixed b).2.1

theorem Waiting.schedule {u : Scheduler} (h : Waiting origin u.released) {l : Line TaskRef}
    (hline : u.released.readyQueue = l.members) (he : u.released.preemptEnabled = true)
    (cpu : SavedRegisters) :
    InTurn origin (start (TickRounds.slices origin) (next (TickRounds.priorities origin) l))
    (u.schedule cpu).1 := by
  have hne : u.released.readyQueue ≠ [] := by
    rw [hline]
    exact List.append_ne_nil_of_right_ne_nil _ (List.cons_ne_nil _ _)
  obtain ⟨pre, a, post, hq, hp, hpre, hpost⟩ := h.pick hne
  obtain ⟨hqueue, hcurrent, henabled, hneed, hcells⟩ := Scheduler.schedule_of_pick cpu hp
  rw [next_eq (hline.symm.trans hq) hpre hpost]
  exact h.dispatched hq (henabled.trans he) hneed hcurrent hqueue hcells

theorem InTurn.charged (h : InTurn origin c s) (hleft : 1 < c.left) :
    InTurn origin { c with left := c.left - 1 } (charged s c.current) := by
  have hqueued : ∀ a ∈ c.queue, a ≠ c.current := by
    intro a ha heq
    exact (List.nodup_append.mp h.distinct).2.2 a ha c.current (List.mem_singleton_self _) heq
  constructor
  · rw [TickRounds.charged, Scheduler.charge_eq]
    exact h.enabled
  · rw [h.charged_reschedules]
    simpa using hleft
  · rw [TickRounds.charged, Scheduler.charge_eq]
    exact h.current
  · rw [TickRounds.charged, Scheduler.charge_eq]
    exact h.queue
  · rw [charged_cells, if_pos rfl]
    exact h.running
  · intro a ha
    rw [charged_cells, if_neg (hqueued a ha)]
    exact h.ready a ha
  · rw [charged_cells, if_pos rfl]
    exact congrArg (· - 1) h.left
  · intro a ha
    rw [charged_cells, if_neg (hqueued a ha)]
    exact h.reset a ha
  · exact h.distinct
  · intro a ha
    rw [charged_cells]
    split_ifs <;> exact h.silent a ha
  · rw [← h.priorities]
    funext a
    rw [TickRounds.priorities, charged_cells]
    split_ifs <;> rfl
  · rw [← h.slices]
    funext a
    rw [TickRounds.slices, charged_cells]
    split_ifs <;> rfl

theorem InTurn.tick (h : InTurn origin c s) (cpu : SavedRegisters) :
    InTurn origin (Quanta.tick (TickRounds.priorities origin) (TickRounds.slices origin) c)
    (ticked s cpu) := by
  rw [ticked, h.tick_eq, Scheduler.scheduleIfNeeded, h.charged_reschedules, Quanta.tick]
  by_cases hlast : c.left ≤ 1
  · rw [if_pos (decide_eq_true hlast), if_pos hlast]
    apply h.waiting.schedule h.released_readyQueue
    rw [Scheduler.released_preemptEnabled, TickRounds.charged, Scheduler.charge_eq]
    exact h.enabled
  · rw [if_neg (c := decide _ = true) (by simpa using hlast), if_neg hlast]
    exact h.charged (not_le.mp hlast)

theorem InTurn.totalCpuTicks (h : InTurn origin c s) (cpu : SavedRegisters) (r : TaskRef) :
    ((ticked s cpu).cells r).totalCpuTicks =
      (s.cells r).totalCpuTicks + if s.current = some r then 1 else 0 := by
  have hcharged : ((TickRounds.charged s c.current).cells r).totalCpuTicks =
      (s.cells r).totalCpuTicks + if s.current = some r then 1 else 0 := by
    rw [charged_cells, h.current]
    simp only [Option.some.injEq, eq_comm]
    split_ifs
    · rfl
    · exact BitVec.add_zero _
  rw [ticked, h.tick_eq, ← hcharged]
  exact Scheduler.scheduleIfNeeded_cases _ (P := fun x => (x.1.cells r).totalCpuTicks = _)
    (TimerPaths.schedule_totalCpuTicks _ cpu r) rfl

theorem InTurn.tick_charged (h : InTurn origin c s) {ticks : Nat}
    (hroom : Countable s c.members (ticks + 1)) (cpu : SavedRegisters) : Charged s cpu := by
  intro r
  rw [h.totalCpuTicks]
  split_ifs with hcurrent
  · obtain rfl : c.current = r := Option.some.inj (h.current.symm.trans hcurrent)
    have hlt := hroom c.current (by simp [Line.members])
    rw [BitVec.toNat_add, show BitVec.toNat (1 : Word) = 1 from rfl, Nat.mod_eq_of_lt (by omega)]
  · rw [show (s.cells r).totalCpuTicks + 0 = (s.cells r).totalCpuTicks
      from BitVec.add_zero _, Nat.add_zero]

theorem InTurn.run (h : InTurn origin c s) (cpus : List SavedRegisters) :
    InTurn origin ((Quanta.tick (TickRounds.priorities origin)
      (TickRounds.slices origin))^[cpus.length] c) (run ticked s cpus) := by
  induction cpus generalizing c s with
  | nil => exact h
  | cons cpu cpus ih => exact ih (h.tick cpu)

theorem InTurn.run_charged (h : InTurn origin c s) (cpus : List SavedRegisters)
    (hroom : Countable s c.members cpus.length) : Guarded ticked Charged s cpus := by
  induction cpus generalizing c s with
  | nil => trivial
  | cons cpu cpus ih =>
    have hcharged := h.tick_charged hroom cpu
    refine ⟨hcharged, ih (h.tick cpu) fun a ha => ?_⟩
    have hlt := hroom a ((members_tick c).subset ha)
    rw [List.length_cons] at hlt
    rw [hcharged a]
    split_ifs <;> omega

/-- Whoever has the turn keeps it for its whole time slice and no longer, however many ticks there
are. Each tick is counted, as long as the counters have room for all of them. -/
theorem tick_quanta (h : Fresh s r) (cpus : List SavedRegisters) :
    (∃ n k, cpus.length = elapsed (priorities s) (slices s) ⟨r, s.readyQueue⟩ n + k ∧
      k < slices s (after (priorities s) ⟨r, s.readyQueue⟩ n).current ∧
      InTurn s ⟨after (priorities s) ⟨r, s.readyQueue⟩ n,
        slices s (after (priorities s) ⟨r, s.readyQueue⟩ n).current - k⟩ (run ticked s cpus)) ∧
      (Countable s (s.readyQueue ++ [r]) cpus.length → Guarded ticked Charged s cpus) := by
  have hrun := h.inTurn.run cpus
  refine ⟨?_, h.inTurn.run_charged cpus⟩
  have hpos : ∀ a ∈ (⟨r, s.readyQueue⟩ : Line TaskRef).members, 0 < slices s a := h.positive
  obtain ⟨n, k, hlen, hk, hclock⟩ := @iterate_tick _ _ _ _ (priorities s) _ _ hpos cpus.length
  rw [hclock] at hrun
  exact ⟨n, k, hlen, hk, hrun⟩

def twoTurns : Scheduler :=
  run step (Scheduler.new { mem := fun _ => 0 })
    [.createKernelTask 0 "first" 0, .createKernelTask 0 "second" 0, .enablePreemption, .schedule {}]

theorem twoTurns_fresh : Fresh twoTurns 0 where
  enabled := rfl
  unrequested := rfl
  current := by decide +kernel
  running := by decide +kernel
  unqueued := by decide +kernel
  distinct := by decide +kernel
  ready := by decide +kernel
  silent := by decide +kernel
  slice := by decide +kernel
  positive := by decide +kernel

theorem twoTurns_quanta : Fresh twoTurns 0 ∧ Guarded ticked Charged twoTurns (List.replicate 25 {}) ∧
    ∃ n k, 25 = elapsed (priorities twoTurns) (slices twoTurns) ⟨0, [1]⟩ n + k ∧
      k < slices twoTurns (after (priorities twoTurns) ⟨0, [1]⟩ n).current ∧
      InTurn twoTurns ⟨after (priorities twoTurns) ⟨0, [1]⟩ n,
        slices twoTurns (after (priorities twoTurns) ⟨0, [1]⟩ n).current - k⟩
        (run ticked twoTurns (List.replicate 25 {})) := by
  have hqueue : twoTurns.readyQueue = [1] := by decide +kernel
  obtain ⟨hturn, hcharged⟩ := tick_quanta twoTurns_fresh (List.replicate 25 {})
  rw [List.length_replicate, hqueue] at hturn hcharged
  refine ⟨twoTurns_fresh, hcharged ?_, hturn⟩
  rw [Countable]
  decide +kernel

def countedOut : Scheduler := twoTurns.modify 0 fun t => { t with totalCpuTicks := -1 }

/-- The counter of a running task wraps around at a tick. -/
theorem countedOut_not_charged : Fresh countedOut 0 ∧
    ((ticked countedOut {}).cells 0).totalCpuTicks = 0 ∧ ¬Charged countedOut {} := by
  refine ⟨?_, by decide +kernel, fun h => ?_⟩
  · exact ⟨rfl, rfl,
      by decide +kernel, by decide +kernel, by decide +kernel, by decide +kernel, by decide +kernel,
      by decide +kernel, by decide +kernel, by decide +kernel⟩
  · have hcount := h 0
    revert hcount
    decide +kernel

end DeltaOS.TickRounds
