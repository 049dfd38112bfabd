import DeltaOS.Runs
import DeltaOS.SchedSteps

namespace DeltaOS.TimerPaths

open Kernel Tasks Sched Runs

variable {s : Scheduler} {r : TaskRef}

/-- What a timer interrupt is to leave behind the same on both paths. -/
structure Agree (a b : Scheduler) : Prop where
  current : a.current = b.current
  state : ∀ r, (a.cells r).state = (b.cells r).state
  timeSlice : ∀ r, (a.cells r).timeSlice = (b.cells r).timeSlice
  totalCpuTicks : ∀ r, (a.cells r).totalCpuTicks = (b.cells r).totalCpuTicks
  pendingSignals : ∀ r, (a.cells r).pendingSignals = (b.cells r).pendingSignals

/-- A timer interrupt through `rust_timer_handler` and one through `rust_isr_handler`. -/
structure PathsAgree (s : Scheduler) (rsp : Word) (cpu : SavedRegisters) : Prop where
  same : Agree (s.preemptSchedule rsp).1 (s.tick cpu).1
  delivered : ∀ r, s.current = some r →
    (s.cells r).pendingSignals &&& ~~~(s.cells r).blockedSignals ≠ 0 →
    ((s.preemptSchedule rsp).1.cells r).pendingSignals = (s.cells r).popSignal.2.pendingSignals ∧
      ((s.tick cpu).1.cells r).pendingSignals = (s.cells r).popSignal.2.pendingSignals
  quantum : ∀ r, s.current = some r → (s.cells r).state = .running → (s.cells r).pendingSignals = 0 →
    1 < (s.cells r).timeSlice →
    (s.preemptSchedule rsp).1.current = some r ∧ (s.tick cpu).1.current = some r

section Running

theorem preemptSchedule_runs (he : s.preemptEnabled = true) (hc : s.current = some r) (rsp : Word) :
    (∃ a, (s.preemptSchedule rsp).1.current = some a ∧
        ((s.preemptSchedule rsp).1.cells a).state = .running) ∧
      ∀ a, ((s.preemptSchedule rsp).1.cells a).totalCpuTicks = (s.cells a).totalCpuTicks := by
  have hsave : ∀ a, ((s.saveCurrent rsp).cells a).totalCpuTicks = (s.cells a).totalCpuTicks :=
    fun a => by
    rw [Scheduler.saveCurrent_eq]
    dsimp only
    split <;> rfl
  obtain ⟨-, hs⟩ | ⟨pre, next, post, -, -, -, hs⟩ := Scheduler.preemptSchedule_cases he rsp
  · have hcur : (s.saveCurrent rsp).current = some r := by
      rw [Scheduler.saveCurrent_eq, hc]
    rw [hs, Scheduler.restoreCurrent_eq]
    dsimp only
    refine ⟨⟨r, hcur, by rw [if_pos hcur]⟩, fun a => ?_⟩
    rw [← hsave a]
    split <;> rfl
  · rw [hs]
    refine ⟨⟨next, rfl, ?_⟩, fun a => ?_⟩
    · rw [Scheduler.countSwitch_cells, Scheduler.dispatch_cells_apply, if_pos rfl]
    · rw [Scheduler.countSwitch_cells, Scheduler.dispatch_cells_apply, ← hsave a]
      split_ifs with ha
      · rw [ha]
      · rfl

theorem schedule_totalCpuTicks (s : Scheduler) (cpu : SavedRegisters) (a : TaskRef) :
    ((s.schedule cpu).1.cells a).totalCpuTicks = (s.cells a).totalCpuTicks := by
  have hrel : (s.released.cells a).totalCpuTicks = (s.cells a).totalCpuTicks := by
    rw [Scheduler.released_cells]
    split <;> rfl
  have hdispatch : ∀ queue next, ((Scheduler.dispatch { s.released with readyQueue := queue } next).cells
      a).totalCpuTicks = (s.cells a).totalCpuTicks := fun queue next => by
    rw [Scheduler.dispatch_cells_apply, ← hrel]
    split_ifs with ha
    · rw [ha]
    · rfl
  obtain ⟨-, hs⟩ | ⟨pre, next, post, -, -, ⟨-, hs⟩ | ⟨-, hs⟩⟩ := s.schedule_cases cpu
  · rw [hs]
    exact hrel
  · rw [hs]
    exact hdispatch (pre ++ post) next
  · rw [hs, ← hdispatch (pre ++ post) next, Scheduler.countSwitch_cells]
    dsimp only
    split <;> rfl

theorem deliverSignal_totalCpuTicks (t : Task) :
    (deliverSignal t).1.totalCpuTicks = t.totalCpuTicks := by
  obtain ⟨pending, ht | ⟨-, ht⟩ | ht | ⟨-, -, ht⟩⟩ := deliverSignal_cases t
  all_goals rw [ht]

theorem tick_current_cases (he : s.preemptEnabled = true) (hc : s.current = some r)
    (cpu : SavedRegisters) :
    ((s.tick cpu).1.current = some r ∧ ((s.tick cpu).1.cells r).state ≠ .running) ∨
      ((s.tick cpu).1.cells r).totalCpuTicks = (s.cells r).totalCpuTicks + 1 := by
  obtain ⟨hoff, -⟩ | ⟨-, hnone, -⟩ | ⟨a, -, ha, hs⟩ := s.tick_cases cpu
  · rw [he] at hoff
    cases hoff
  · rw [hc] at hnone
    cases hnone
  obtain rfl : r = a := Option.some.inj (hc.symm.trans ha)
  obtain ⟨hstate, hs⟩ | ⟨-, hs⟩ := hs
  · refine .inl ⟨by rw [hs]; exact hc, ?_⟩
    rw [hs]
    simpa only [Scheduler.requestReschedule_cells, Scheduler.modify_cells, Function.update_self]
      using hstate
  · right
    have hcharge : ((s.countTick.charge r (deliverSignal (s.cells r)).1).cells r).totalCpuTicks =
        (s.cells r).totalCpuTicks + 1 := by
      rw [Scheduler.charge_eq]
      simp [consumeTick, deliverSignal_totalCpuTicks]
    rw [hs, ← hcharge]
    exact Scheduler.scheduleIfNeeded_cases _ (P := fun x => (x.1.cells r).totalCpuTicks = _)
      (schedule_totalCpuTicks _ cpu r) rfl

theorem not_agree_of_current (he : s.preemptEnabled = true) (hc : s.current = some r) (rsp : Word)
    (cpu : SavedRegisters) : ¬Agree (s.preemptSchedule rsp).1 (s.tick cpu).1 := by
  intro h
  obtain ⟨⟨a, ha, hrun⟩, hticks⟩ := preemptSchedule_runs he hc rsp
  obtain ⟨hcur, hstate⟩ | hcharged := tick_current_cases he hc cpu
  · have hra : a = r := Option.some.inj (ha.symm.trans (h.current.trans hcur))
    rw [← h.state, ← hra] at hstate
    exact hstate hrun
  · have heq := h.totalCpuTicks r
    rw [hcharged, hticks] at heq
    have hone : (1 : Word) = 0 := add_eq_left.mp heq.symm
    cases hone

end Running

section Idle

theorem pickNextTask_congr {s t : Scheduler} (hq : t.readyQueue = s.readyQueue)
    (hcells : t.cells = s.cells) : t.pickNextTask.1 = s.pickNextTask.1 := by
  simp only [Scheduler.pickNextTask, hq, hcells]
  split
  · rfl
  · split <;> rfl

/-- Without a current task both paths come down to one pick. -/
structure Picks (s t : Scheduler) : Prop where
  current : t.current = s.pickNextTask.1
  cells : ∀ r, t.cells r = if s.pickNextTask.1 = some r then { s.cells r with state := .running }
    else s.cells r

theorem preemptSchedule_picks (he : s.preemptEnabled = true) (hc : s.current = none) (rsp : Word) :
    Picks s (s.preemptSchedule rsp).1 := by
  have hsave : s.saveCurrent rsp = s := by simp [Scheduler.saveCurrent, hc]
  obtain ⟨-, hp⟩ | ⟨pre, next, post, -, -, hp, -⟩ := s.pickNextTask_cases
  · have hs : (s.preemptSchedule rsp).1 = s := by
      simp [Scheduler.preemptSchedule, he, hsave, hp, Scheduler.restoreCurrent, hc]
    rw [hs]
    exact ⟨by rw [hc, hp], fun r => by simp [hp]⟩
  · have hs : (s.preemptSchedule rsp).1 =
        (Scheduler.dispatch { s with readyQueue := pre ++ post } next).countSwitch := by
      simp [Scheduler.preemptSchedule, he, hsave, hp]
    rw [hs]
    refine ⟨by rw [hp]; rfl, fun r => ?_⟩
    rw [Scheduler.countSwitch_cells, Scheduler.dispatch_cells_apply, hp]
    simp only [Option.some.injEq, eq_comm (a := r)]
    split_ifs with hr
    · rw [hr]
    · rfl

theorem schedule_picks (hc : s.current = none) (cpu : SavedRegisters) : Picks s (s.schedule cpu).1 := by
  have hrel : s.released.cells = s.cells := by
    funext r
    have hy : r ∉ s.yielded := fun hy => by
      have hcur := (Scheduler.mem_yielded.mp hy).1
      rw [hc] at hcur
      cases hcur
    rw [Scheduler.released_cells, if_neg hy]
  have hqueue : s.released.readyQueue = s.readyQueue := by
    simp [Scheduler.released_readyQueue, Scheduler.yielded, hc]
  have hsame := pickNextTask_congr hqueue hrel
  obtain ⟨-, hp⟩ | ⟨pre, next, post, -, -, hp, -⟩ := s.released.pickNextTask_cases
  · have hs : (s.schedule cpu).1 = { s.released with current := none } := by
      simp [Scheduler.schedule, hp, hc]
    rw [hp] at hsame
    rw [hs]
    exact ⟨hsame, fun r => by simp [← hsame, hrel]⟩
  · have hs : (s.schedule cpu).1 = { (Scheduler.dispatch { s.released with readyQueue := pre ++ post }
        next).countSwitch with dummyRegs := cpu } := by
      simp [Scheduler.schedule, hp, hc, Scheduler.doContextSwitch, Scheduler.countSwitch]
    rw [hp] at hsame
    rw [hs]
    refine ⟨hsame, fun r => ?_⟩
    rw [← hsame]
    simp only [Scheduler.countSwitch_cells, Scheduler.dispatch_cells_apply, hrel, Option.some.injEq,
      eq_comm (a := r)]
    split_ifs with hr
    · rw [hr]
    · rfl

theorem Picks.agree {a b : Scheduler} (ha : Picks s a) (hb : Picks s b) : Agree a b := by
  have hcells : ∀ r, a.cells r = b.cells r := fun r => (ha.cells r).trans (hb.cells r).symm
  refine ⟨ha.current.trans hb.current.symm, fun r => ?_, fun r => ?_, fun r => ?_, fun r => ?_⟩
  all_goals rw [hcells]

theorem tick_waits (he : s.preemptEnabled = true) (hc : s.current = none) (hn : s.needReschedule = false)
    (cpu : SavedRegisters) : (s.tick cpu).1 = s.countTick := by
  rw [Scheduler.tick_idle he hc]
  simp [Scheduler.scheduleIfNeeded, hn]

theorem tick_picks (he : s.preemptEnabled = true) (hc : s.current = none)
    (hn : s.needReschedule = true ∨ s.NothingToPick) (cpu : SavedRegisters) :
    Picks s (s.tick cpu).1 := by
  have hcount : s.countTick.pickNextTask.1 = s.pickNextTask.1 := pickNextTask_congr rfl rfl
  cases hresched : s.needReschedule with
  | true =>
    have hs : s.tick cpu = s.countTick.schedule cpu := by
      rw [Scheduler.tick_idle he hc]
      simp [Scheduler.scheduleIfNeeded, hresched]
    obtain ⟨hcur, hcells⟩ := schedule_picks (s := s.countTick) hc cpu
    rw [hs]
    rw [hcount] at hcur hcells
    exact ⟨hcur, hcells⟩
  | false =>
    have hnone : s.pickNextTask.1 = none := by
      obtain ⟨-, hp⟩ | ⟨-, -, -, -, -, -, hpick⟩ := s.pickNextTask_cases
      · rw [hp]
      · exact absurd (hn.resolve_left (by simp [hresched])) hpick
    rw [tick_waits he hc hresched]
    exact ⟨hc.trans hnone.symm, fun r => by simp [hnone]⟩

theorem nothingToPick_of_pick_none (h : s.pickNextTask.1 = none) : s.NothingToPick := by
  obtain ⟨hn, -⟩ | ⟨_, _, _, -, -, hp, -⟩ := s.pickNextTask_cases
  · exact hn
  · rw [hp] at h
    cases h

end Idle

/-- The two paths of a timer interrupt agree only where no task is current, and then only if the
tick reschedules as well or nothing can be picked. -/
theorem paths_agree_iff (he : s.preemptEnabled = true) (rsp : Word) (cpu : SavedRegisters) :
    PathsAgree s rsp cpu ↔ s.current = none ∧ (s.needReschedule = true ∨ s.NothingToPick) := by
  constructor
  · intro h
    cases hc : s.current with
    | some r => exact absurd h.same (not_agree_of_current he hc rsp cpu)
    | none =>
      refine ⟨rfl, ?_⟩
      cases hn : s.needReschedule with
      | true => exact .inl rfl
      | false =>
        have hcur := h.same.current
        rw [(preemptSchedule_picks he hc rsp).current, tick_waits he hc hn] at hcur
        exact .inr (nothingToPick_of_pick_none (hcur.trans hc))
  · rintro ⟨hc, hn⟩
    have hsame := (preemptSchedule_picks he hc rsp).agree (tick_picks he hc hn cpu)
    refine ⟨hsame, fun r hr => ?_, fun r hr => ?_⟩
    · rw [hc] at hr
      cases hr
    · rw [hc] at hr
      cases hr

/-- Two tasks wait, a third has been killed, and none is current yet: both paths start the first. -/
theorem waitingTasks_paths_agree :
    let s := run step (Scheduler.new { mem := fun _ => 0 }) [.createKernelTask 0 "first" 0,
      .createKernelTask 0 "second" 0, .createKernelTask 0 "third" 0, .enablePreemption,
        .terminateTask 3 (-9)]
    s.current = none ∧ s.readyQueue = [0, 1] ∧ s.needReschedule = true ∧ PathsAgree s 0 {} ∧
      (s.preemptSchedule 0).1.current = some 0 ∧ (s.tick {}).1.current = some 0 := by
  refine ⟨rfl, by decide +kernel, rfl, (paths_agree_iff rfl 0 {}).mpr ⟨rfl, .inl rfl⟩, ?_, ?_⟩
  · decide +kernel
  · decide +kernel

/-- One task that runs with its whole quantum left and no signal: `tick` lets it run on, and
`preempt_schedule` takes the processor from it. -/
theorem runningTask_paths_differ :
    let s := run step (Scheduler.new { mem := fun _ => 0 }) [.createKernelTask 0 "first" 0,
      .createKernelTask 0 "second" 0, .enablePreemption, .schedule {}]
    s.preemptEnabled = true ∧ s.current = some 0 ∧ (s.preemptSchedule 0).1.current = some 1 ∧
      (s.tick {}).1.current = some 0 ∧ ¬PathsAgree s 0 {} := by
  refine ⟨rfl, by decide +kernel, by decide +kernel, by decide +kernel, fun h => ?_⟩
  have hcur := h.same.current
  revert hcur
  decide +kernel

end DeltaOS.TimerPaths
