import DeltaOS.Runs
import DeltaOS.SchedSteps

namespace DeltaOS.Termination

open Kernel Tasks Sched Runs

def Alive (t : Task) : Prop := t.state = .ready ∨ t.state = .running

/-- The operations that write `Ready` or `Running` into a task without looking at its state,
and the unblocking of a task that was blocked after it had been terminated. -/
def Revives (s : Scheduler) (t : TaskRef) : Op → Prop
  | .preemptSchedule _ => s.preemptEnabled = true ∧ s.current = some t
  | .tick _ => s.preemptEnabled = true ∧ s.current = some t ∧
      (s.cells t).foreground = .stopped ∧ (s.cells t).popSignal.1 = some sigcont
  | .unblockTask taskId => s.findBlocked taskId = some t
  | .backgroundTask taskId => s.findTask taskId = some t ∧ (s.cells t).foreground = .stopped
  | _ => False

def Selects (s : Scheduler) (t : TaskRef) (op : Op) : Prop :=
  s.current ≠ some t ∧ (step s op).current = some t

variable {s : Scheduler} {t : TaskRef}

/-- What a step may do to a task that is neither ready nor running, short of reviving it. -/
structure Undisturbed (s s' : Scheduler) (t : TaskRef) : Prop where
  dead : ¬Alive (s'.cells t)
  unselected : s'.current = some t → s.current = some t

theorem deliverSignal_revived {t : Task} (hf : t.foreground = .stopped)
    (hp : t.popSignal.1 = some sigcont) :
    (deliverSignal t).2 = false ∧ (deliverSignal t).1.state = .running := by
  obtain ⟨pending, hsame⟩ := popSignal_eq t
  rw [deliverSignal_of_pop hp, hsame]
  simp [sigcont, sigkill, sigtstp, hf]

theorem deliverSignal_dead {t : Task} (h : ¬Alive t)
    (hr : ¬(t.foreground = .stopped ∧ t.popSignal.1 = some sigcont)) :
    ¬Alive (deliverSignal t).1 := by
  obtain ⟨pending, hd | ⟨-, hd⟩ | hd | ⟨hstopped, hcont, -⟩⟩ := deliverSignal_cases t
  · rw [hd]
    exact h
  · rw [hd]
    simp [Alive]
  · rw [hd]
    simp [Alive]
  · exact absurd ⟨hstopped, hcont⟩ hr

theorem not_alive_released (h : ¬Alive (s.cells t)) : s.released.cells t = s.cells t := by
  have hy : t ∉ s.yielded := fun hy => h (.inr (Scheduler.mem_yielded.mp hy).2)
  rw [Scheduler.released_cells, if_neg hy]

theorem undisturbed_schedule (h : ¬Alive (s.cells t)) (cpu : SavedRegisters) :
    Undisturbed s (s.schedule cpu).1 t := by
  have hrel := not_alive_released h
  obtain ⟨-, hs⟩ | ⟨pre, next, post, hq, hready, hs⟩ := s.schedule_cases cpu
  · rw [hs]
    exact ⟨by rwa [hrel], id⟩
  · have hne : t ≠ next := by
      rintro rfl
      exact h (.inl (hrel ▸ hready))
    obtain ⟨-, hs⟩ | ⟨-, hs⟩ := hs
    · rw [hs]
      exact ⟨by simpa [hne, hrel] using h, fun hc => absurd (by simpa using hc) (Ne.symm hne)⟩
    · rw [hs]
      refine ⟨?_, fun hc => absurd (by simpa using hc) (Ne.symm hne)⟩
      simp only [Scheduler.countSwitch_cells, Scheduler.dispatch_cells, Scheduler.modify_cells,
        Function.update_of_ne hne, hrel]
      split <;> exact h

theorem alive_schedule (hc : s.current = some t) (hr : (s.cells t).state = .running)
    (cpu : SavedRegisters) : Alive ((s.schedule cpu).1.cells t) := by
  have hrel : Alive (s.released.cells t) := by
    rw [Scheduler.released_cells, if_pos (Scheduler.mem_yielded.mpr ⟨hc, hr⟩)]
    exact .inl rfl
  obtain ⟨-, hs⟩ | ⟨pre, next, post, hq, hready, ⟨-, hs⟩ | ⟨-, hs⟩⟩ := s.schedule_cases cpu
  · rw [hs]
    exact hrel
  · rw [hs, Scheduler.dispatch_cells_apply]
    split
    · exact .inr rfl
    · exact hrel
  · rw [hs, Scheduler.countSwitch_cells]
    dsimp only
    rw [if_pos hc, Scheduler.dispatch_cells_apply]
    split
    · exact .inr rfl
    · exact hrel

theorem undisturbed_scheduleIfNeeded (h : ¬Alive (s.cells t)) (cpu : SavedRegisters) :
    Undisturbed s (s.scheduleIfNeeded cpu).1 t :=
  s.scheduleIfNeeded_cases (P := fun x => Undisturbed s x.1 t) (undisturbed_schedule h cpu) ⟨h, id⟩

theorem undisturbed_preemptSchedule (h : ¬Alive (s.cells t)) (rsp : Word)
    (hr : ¬Revives s t (.preemptSchedule rsp)) : Undisturbed s (s.preemptSchedule rsp).1 t := by
  cases he : s.preemptEnabled with
  | false =>
    rw [Scheduler.preemptSchedule_disabled he]
    exact ⟨h, id⟩
  | true =>
    have hc : s.current ≠ some t := fun hc => hr ⟨he, hc⟩
    have hsave : (s.saveCurrent rsp).cells t = s.cells t := by
      rw [Scheduler.saveCurrent_eq]
      exact if_neg hc
    have hcur : (s.saveCurrent rsp).current = s.current := by rw [Scheduler.saveCurrent_eq]
    obtain ⟨-, hs⟩ | ⟨pre, next, post, hq, hready, -, hs⟩ := Scheduler.preemptSchedule_cases he rsp
    · rw [hs, Scheduler.restoreCurrent_eq]
      refine ⟨?_, fun h => hcur ▸ h⟩
      dsimp only
      rwa [hcur, if_neg hc, hsave]
    · have hne : t ≠ next := by
        rintro rfl
        exact h (.inl (hsave ▸ hready))
      rw [hs]
      exact ⟨by simpa [hne, hsave] using h, fun hc => absurd (by simpa using hc) (Ne.symm hne)⟩

theorem alive_preemptSchedule (rsp : Word) (hr : Revives s t (.preemptSchedule rsp)) :
    Alive ((s.preemptSchedule rsp).1.cells t) := by
  obtain ⟨he, hc⟩ := hr
  have hsave : Alive ((s.saveCurrent rsp).cells t) := by
    rw [Scheduler.saveCurrent_eq]
    dsimp only
    rw [if_pos hc]
    exact .inl rfl
  obtain ⟨-, hs⟩ | ⟨pre, next, post, hq, hready, -, hs⟩ := Scheduler.preemptSchedule_cases he rsp
  · have hcur : (s.saveCurrent rsp).current = some t := by rw [Scheduler.saveCurrent_eq]; exact hc
    rw [hs, Scheduler.restoreCurrent_eq]
    dsimp only
    rw [if_pos hcur]
    exact .inr rfl
  · rw [hs, Scheduler.countSwitch_cells, Scheduler.dispatch_cells_apply]
    split
    · exact .inr rfl
    · exact hsave

theorem undisturbed_update {s' : Scheduler} (h : ¬Alive (s.cells t)) {r : TaskRef} {u : Task}
    (hcur : s'.current = s.current) (hcells : s'.cells = Function.update s.cells r u)
    (hu : r = t → ¬Alive u) : Undisturbed s s' t := by
  refine ⟨?_, fun hc => hcur ▸ hc⟩
  rw [hcells]
  by_cases hr : t = r
  · subst r
    simpa using hu rfl
  · simpa [hr] using h

theorem undisturbed_tick (h : ¬Alive (s.cells t)) (cpu : SavedRegisters)
    (hr : ¬Revives s t (.tick cpu)) : Undisturbed s (s.tick cpu).1 t := by
  obtain ⟨-, hs⟩ | ⟨-, -, hs⟩ | ⟨r, he, hc, hs⟩ := s.tick_cases cpu
  · rw [hs]
    exact ⟨h, id⟩
  · have hsub := undisturbed_scheduleIfNeeded (s := s.countTick) h cpu
    rw [hs]
    exact ⟨hsub.dead, hsub.unselected⟩
  have hsignals : r = t → ¬Alive (deliverSignal (s.cells r)).1 := by
    rintro rfl
    exact deliverSignal_dead h fun hd => hr ⟨he, hc, hd⟩
  obtain ⟨-, hs⟩ | ⟨hrun, hs⟩ := hs
  · rw [hs]
    exact undisturbed_update h rfl rfl hsignals
  · have hrt : t ≠ r := fun hrt => hsignals hrt.symm (.inr hrun)
    have hch : ¬Alive ((s.countTick.charge r (deliverSignal (s.cells r)).1).cells t) := by
      rw [Scheduler.charge_eq]
      simpa [hrt] using h
    have hsub := undisturbed_scheduleIfNeeded hch cpu
    rw [hs]
    refine ⟨hsub.dead, fun hcur => ?_⟩
    have hcur' := hsub.unselected hcur
    rwa [Scheduler.charge_eq] at hcur'

theorem alive_tick (cpu : SavedRegisters) (hr : Revives s t (.tick cpu)) :
    Alive ((s.tick cpu).1.cells t) := by
  obtain ⟨he, hc, hf, hp⟩ := hr
  obtain ⟨hflag, hrun⟩ := deliverSignal_revived hf hp
  rw [Scheduler.tick_current he hc]
  simp only [hflag, hrun, ne_eq, not_true_eq_false, decide_false, Bool.or_self,
    Bool.false_eq_true, ↓reduceIte]
  have hcur : (s.countTick.charge t (deliverSignal (s.cells t)).1).current = some t := by
    rw [Scheduler.charge_eq]
    exact hc
  have hcell : ((s.countTick.charge t (deliverSignal (s.cells t)).1).cells t).state = .running := by
    rw [Scheduler.charge_eq]
    simpa [consumeTick] using hrun
  exact Scheduler.scheduleIfNeeded_cases _ (P := fun x => Alive (x.1.cells t))
    (alive_schedule hcur hcell cpu) (.inr hcell)

theorem Undisturbed.trans_schedule {s' : Scheduler} (h : Undisturbed s s' t) (cpu : SavedRegisters) :
    Undisturbed s (s'.schedule cpu).1 t := by
  have hs := undisturbed_schedule h.dead cpu
  exact ⟨hs.dead, fun hc => h.unselected (hs.unselected hc)⟩

theorem undisturbed_steps {s' : Scheduler} {op : Op} (hs : Steps s op s') (hlt : t < s.nextRef)
    (h : ¬Alive (s.cells t)) (hr : ¬Revives s t op) : Undisturbed s s' t := by
  cases hs with
  | unchanged => exact ⟨h, id⟩
  | created =>
    refine ⟨?_, id⟩
    rwa [Scheduler.addTask_cells_of_ne _ _ hlt.ne]
  | tick cpu => exact undisturbed_tick h cpu hr
  | schedule cpu => exact undisturbed_schedule h cpu
  | yieldCurrent cpu =>
    have hs : Undisturbed s s.requestReschedule t := ⟨h, id⟩
    exact hs.trans_schedule cpu
  | preemptSchedule rsp => exact undisturbed_preemptSchedule h rsp hr
  | blockCurrent => exact undisturbed_update h rfl rfl fun _ => by simp [Alive]
  | unblockTask hfind => exact undisturbed_update h rfl rfl fun he => absurd (he ▸ hfind) hr
  | @terminateNone _ cpu =>
    have hs : Undisturbed s s.requestReschedule t := ⟨h, id⟩
    exact hs.trans_schedule cpu
  | @terminateCurrent exitCode cpu =>
    refine Undisturbed.trans_schedule ?_ cpu
    exact undisturbed_update h rfl rfl fun _ => by simp [Alive]
  | terminateTask => exact undisturbed_update h rfl rfl fun _ => by simp [Alive]
  | @sendSignal taskId signal r =>
    refine undisturbed_update (u := (s.cells r).sendSignal signal) h rfl rfl ?_
    rintro rfl
    simpa [Alive] using h
  | backgroundTask hfind hf =>
    exact undisturbed_update h rfl rfl fun he => absurd ⟨he ▸ hfind, he ▸ hf⟩ hr
  | foregroundTask =>
    refine undisturbed_update h rfl rfl ?_
    rintro rfl
    exact h
  | cleanupTerminated =>
    rw [Scheduler.cleanupTerminated, Scheduler.foldl_retain]
    exact ⟨h, id⟩
  | enablePreemption => exact ⟨h, id⟩
  | disablePreemption => exact ⟨h, id⟩

theorem undisturbed_step (hlt : t < s.nextRef) (h : ¬Alive (s.cells t)) (op : Op)
    (hr : ¬Revives s t op) : Undisturbed s (step s op) t := undisturbed_steps (step_steps s op) hlt h hr

theorem alive_of_revives (op : Op) (hr : Revives s t op) : Alive ((step s op).cells t) := by
  cases op with
  | tick cpu => exact alive_tick cpu hr
  | preemptSchedule rsp => exact alive_preemptSchedule rsp hr
  | unblockTask taskId =>
    simp only [Revives] at hr
    simp [step, Scheduler.unblockTask, hr, Alive]
  | backgroundTask taskId =>
    obtain ⟨hfind, hf⟩ := hr
    simp [step, Scheduler.backgroundTask, hfind, hf, Alive]
  | _ => exact absurd hr (by simp [Revives])

/-- From a state in which a task is terminated, a run leaves it dead and unselected exactly
when none of its operations writes a live state back. -/
theorem terminated_absorbing_iff (g : Statics) (before ops : List Op) (t : TaskRef)
    (hlt : t < (run step (Scheduler.new g) before).nextRef)
    (ht : ((run step (Scheduler.new g) before).cells t).state = .terminated) :
    (Always step (fun s => ¬Alive (s.cells t)) (run step (Scheduler.new g) before) ops ∧
      Guarded step (fun s op => ¬Selects s t op) (run step (Scheduler.new g) before) ops) ↔
      Guarded step (fun s op => ¬Revives s t op) (run step (Scheduler.new g) before) ops := by
  have h0 : ¬Alive ((run step (Scheduler.new g) before).cells t) := by simp [Alive, ht]
  have hstep : ∀ s op, (t < s.nextRef ∧ ¬Alive (s.cells t)) → ¬Revives s t op →
      t < (step s op).nextRef ∧ ¬Alive ((step s op).cells t) := by
    intro s op h hr
    exact ⟨h.1.trans_le (nextRef_le_step s op), (undisturbed_step h.1 h.2 op hr).dead⟩
  have hiff : Always step (fun s => ¬Alive (s.cells t)) (run step (Scheduler.new g) before) ops ↔
      Guarded step (fun s op => ¬Revives s t op) (run step (Scheduler.new g) before) ops :=
    always_iff_guarded (fun s h => h.2) hstep
      (fun s op _ hdead hr => hdead (alive_of_revives op hr)) ⟨hlt, h0⟩
  constructor
  · exact fun h => hiff.mp h.1
  · intro h
    refine ⟨hiff.mpr h, h.imp hstep ?_ ⟨hlt, h0⟩⟩
    intro s op hs hr hsel
    exact hsel.1 ((undisturbed_step hs.1 hs.2 op hr).unselected hsel.2)

/-- Three tasks are created and the third one is running when it is killed. -/
def killedWhileRunning : List Op :=
  [.createIdleTask 0x100000 0, .createKernelTask 0x101000 "demo" 0,
    .createKernelTask 0x102000 "counter" 0, .enablePreemption, .preemptSchedule 0x180000,
    .preemptSchedule 0xA1FF00, .terminateTask 3 (-9)]

theorem killedWhileRunning_stays_dead :
    Always step (fun s => ¬Alive (s.cells 2))
        (run step (Scheduler.new { mem := fun _ => 0 }) killedWhileRunning) [.schedule {}] ∧
      Guarded step (fun s op => ¬Selects s 2 op)
        (run step (Scheduler.new { mem := fun _ => 0 }) killedWhileRunning) [.schedule {}] :=
  (terminated_absorbing_iff _ killedWhileRunning [.schedule {}] 2 (by decide) (by decide)).mpr
    ⟨id, trivial⟩

/-- The next timer interrupt puts the killed task back into the queue. -/
theorem killedWhileRunning_revived :
    ((run step (Scheduler.new { mem := fun _ => 0 }) killedWhileRunning).cells 2).state = .terminated ∧
      ¬Always step (fun s => ¬Alive (s.cells 2))
        (run step (Scheduler.new { mem := fun _ => 0 }) killedWhileRunning)
        [.preemptSchedule 0xA2FF00] := by
  refine ⟨by decide, fun h => h.2 (.inl ?_)⟩
  decide

end DeltaOS.Termination
