import DeltaOS.Runs
import DeltaOS.SchedSteps

namespace DeltaOS.Blocking

open Kernel Tasks Sched Runs

/-- The task is blocked and waits outside of the queue. -/
structure Held (r : TaskRef) (s : Scheduler) : Prop where
  blocked : (s.cells r).state = .blocked
  unqueued : r ∉ s.readyQueue

/-- The call wakes or ends this very task. -/
def Releases (r : TaskRef) (s : Scheduler) : Op → Prop
  | .unblockTask taskId | .backgroundTask taskId | .foregroundTask taskId => taskId = (s.cells r).id
  | .terminateTask taskId _ => taskId = (s.cells r).id ∧ 2 < taskId
  | .terminateCurrent _ _ => s.current = some r
  | .tick _ => s.preemptEnabled = true ∧ s.current = some r ∧
      ((s.cells r).popSignal.1 = some sigcont ∨ (s.cells r).popSignal.1 = some sigkill)
  | _ => False

/-- A timer interrupt finds the task still current. -/
def Interrupts (r : TaskRef) (s : Scheduler) : Op → Prop
  | .preemptSchedule _ => s.preemptEnabled = true ∧ s.current = some r
  | _ => False

variable {s s' : Scheduler} {r : TaskRef}

theorem Held.of_eq (h : Held r s) (hcell : (s'.cells r).state = (s.cells r).state)
    (hq : r ∈ s'.readyQueue → r ∈ s.readyQueue) : Held r s' :=
  ⟨hcell.trans h.blocked, fun hr => h.unqueued (hq hr)⟩

theorem Held.requestReschedule (h : Held r s) : Held r s.requestReschedule := h.of_eq rfl id

theorem Held.modify (h : Held r s) {a : TaskRef} {f : Task → Task}
    (hf : a = r → (f (s.cells r)).state = .blocked) : Held r (s.modify a f) := by
  refine ⟨?_, h.unqueued⟩
  obtain rfl | hne := eq_or_ne a r
  · rw [Scheduler.modify_cells, Function.update_self]
    exact hf rfl
  · rw [Scheduler.modify_cells, Function.update_of_ne (Ne.symm hne)]
    exact h.blocked

theorem Held.pushBack (h : Held r s) {a : TaskRef} (hne : a ≠ r) : Held r (s.pushBack a) := by
  refine h.of_eq rfl fun hr => ?_
  obtain hr | hr := List.mem_append.mp hr
  · exact hr
  · exact absurd (List.mem_singleton.mp hr).symm hne

theorem Held.released (h : Held r s) : Held r s.released := by
  have hy : r ∉ s.yielded := by
    intro hy
    have hrun := (Scheduler.mem_yielded.mp hy).2
    rw [h.blocked] at hrun
    cases hrun
  constructor
  · rw [Scheduler.released_cells, if_neg hy]
    exact h.blocked
  · rw [Scheduler.released_readyQueue, List.mem_append, not_or]
    exact ⟨h.unqueued, hy⟩

theorem Held.dispatch (h : Held r s) {pre post : List TaskRef} {next : TaskRef}
    (hq : s.readyQueue = pre ++ next :: post) :
    Held r (Scheduler.dispatch { s with readyQueue := pre ++ post } next) := by
  have hout : r ≠ next ∧ r ∉ pre ++ post := by
    have hunqueued := h.unqueued
    rw [hq] at hunqueued
    simpa [not_or, and_left_comm] using hunqueued
  refine ⟨?_, hout.2⟩
  rw [Scheduler.dispatch_cells_apply, if_neg hout.1]
  exact h.blocked

theorem Held.schedule (h : Held r s) (cpu : SavedRegisters) : Held r (s.schedule cpu).1 := by
  obtain ⟨-, hs⟩ | ⟨pre, next, post, hq, -, ⟨-, hs⟩ | ⟨-, hs⟩⟩ := s.schedule_cases cpu
  · rw [hs]
    exact h.released.of_eq rfl id
  · rw [hs]
    exact h.released.dispatch hq
  · rw [hs]
    refine (h.released.dispatch hq).of_eq ?_ id
    rw [Scheduler.countSwitch_cells]
    dsimp only
    split <;> rfl

theorem Held.scheduleIfNeeded (h : Held r s) (cpu : SavedRegisters) :
    Held r (s.scheduleIfNeeded cpu).1 :=
  s.scheduleIfNeeded_cases (P := fun x => Held r x.1) (h.schedule cpu) h

theorem Held.preemptSchedule (h : Held r s) (rsp : Word) (hi : ¬Interrupts r s (.preemptSchedule rsp)) :
    Held r (s.preemptSchedule rsp).1 := by
  cases he : s.preemptEnabled with
  | false =>
    rw [Scheduler.preemptSchedule_disabled he]
    exact h
  | true =>
    have hc : s.current ≠ some r := fun hc => hi ⟨he, hc⟩
    have hsave : Held r (s.saveCurrent rsp) := by
      rw [Scheduler.saveCurrent_eq]
      refine h.of_eq (by simp only [if_neg hc]) fun hr => ?_
      obtain hr | hr := List.mem_append.mp hr
      · exact hr
      · exact absurd (Option.mem_toList.mp hr) hc
    obtain ⟨-, hs⟩ | ⟨pre, next, post, hq, -, -, hs⟩ := Scheduler.preemptSchedule_cases he rsp
    · rw [hs, Scheduler.restoreCurrent_eq]
      refine hsave.of_eq ?_ id
      have hcur : (s.saveCurrent rsp).current ≠ some r := by
        rw [Scheduler.saveCurrent_eq]
        exact hc
      simp only [if_neg hcur]
    · rw [hs]
      exact (hsave.dispatch hq).of_eq rfl id

theorem deliverSignal_blocked {t : Task} (h : t.state = .blocked) (hcont : t.popSignal.1 ≠ some sigcont)
    (hkill : t.popSignal.1 ≠ some sigkill) : (deliverSignal t).1.state = .blocked := by
  obtain ⟨pending, ht | ⟨hpop, -⟩ | ht | ⟨-, hpop, -⟩⟩ := deliverSignal_cases t
  · rw [ht]
    exact h
  · exact absurd hpop hkill
  · rw [ht]
  · exact absurd hpop hcont

theorem Held.tick (h : Held r s) (cpu : SavedRegisters) (hr : ¬Releases r s (.tick cpu)) :
    Held r (s.tick cpu).1 := by
  have hcount : Held r s.countTick := h.of_eq rfl id
  obtain ⟨-, hs⟩ | ⟨-, -, hs⟩ | ⟨a, he, hc, ⟨-, hs⟩ | ⟨hrun, hs⟩⟩ := s.tick_cases cpu
  · rw [hs]
    exact hcount
  · rw [hs]
    exact hcount.scheduleIfNeeded cpu
  all_goals
    have hdeliver : a = r → (deliverSignal (s.cells a)).1.state = .blocked := by
      rintro rfl
      apply deliverSignal_blocked h.blocked
      · exact fun hcont => hr ⟨he, hc, .inl hcont⟩
      · exact fun hkill => hr ⟨he, hc, .inr hkill⟩
    rw [hs]
  · have hmod : Held r (s.countTick.modify a fun _ => (deliverSignal (s.cells a)).1) :=
      hcount.modify hdeliver
    exact hmod.requestReschedule
  · have hmod : Held r (s.countTick.modify a fun _ => consumeTick (deliverSignal (s.cells a)).1) :=
      hcount.modify hdeliver
    refine Held.scheduleIfNeeded ?_ cpu
    rw [Scheduler.charge_eq]
    exact hmod.of_eq rfl id

theorem held_steps {op : Op} (hs : Steps s op s')
    (hrefused : ∀ taskId exitCode, op = .terminateTask taskId exitCode → 2 < taskId)
    (hlt : r < s.nextRef) (hrel : ¬Releases r s op) (hint : ¬Interrupts r s op) (h : Held r s) :
    Held r s' := by
  have hother {a : TaskRef} (hid : (s.cells a).id ≠ (s.cells r).id) : a ≠ r := fun heq => hid (heq ▸ rfl)
  cases hs with
  | unchanged => exact h
  | @created _ t now hc =>
    refine h.of_eq (by rw [Scheduler.addTask_cells_of_ne t now hlt.ne]) fun hr => ?_
    obtain hr | hr := List.mem_append.mp hr
    · exact hr
    · exact absurd (List.mem_singleton.mp hr) hlt.ne
  | tick cpu => exact h.tick cpu hrel
  | schedule cpu => exact h.schedule cpu
  | yieldCurrent cpu => exact h.requestReschedule.schedule cpu
  | preemptSchedule rsp => exact h.preemptSchedule rsp hint
  | @blockCurrent a =>
    have hmod : Held r (s.modify a fun t => { t with state := .blocked }) := h.modify fun _ => rfl
    exact hmod.requestReschedule
  | @unblockTask taskId a hfind =>
    have hne : a ≠ r := hother ((Scheduler.findBlocked_mem hfind).2.1.trans_ne hrel)
    have hmod : Held r (s.modify a fun t => { t with state := .ready }) :=
      h.modify fun heq => absurd heq hne
    exact (hmod.pushBack hne).requestReschedule
  | terminateNone => exact h.requestReschedule.schedule _
  | @terminateCurrent exitCode cpu a hc =>
    have hne : a ≠ r := fun heq => hrel (heq ▸ hc)
    have hmod : Held r (s.modify a fun t => { t with state := .terminated, exitCode := exitCode }) :=
      h.modify fun heq => absurd heq hne
    exact hmod.requestReschedule.schedule cpu
  | @terminateTask taskId exitCode a hfind =>
    have hid := (Scheduler.findTask_mem hfind).2
    have hne : a ≠ r := hother (hid.trans_ne fun heq => hrel ⟨heq, hrefused taskId exitCode rfl⟩)
    have hmod : Held r (s.modify a fun t => { t with state := .terminated, exitCode := exitCode }) :=
      h.modify fun heq => absurd heq hne
    exact hmod.of_eq rfl List.mem_of_mem_filter
  | sendSignal => exact h.modify fun _ => (Task.sendSignal_state _ _).trans h.blocked
  | @backgroundTask taskId a hfind =>
    have hne : a ≠ r := hother ((Scheduler.findTask_mem hfind).2.trans_ne hrel)
    have hmod :
        Held r (s.modify a fun t =>
          { t with foreground := .background, state := .ready }.sendSignal sigcont) :=
      h.modify fun heq => absurd heq hne
    exact (hmod.pushBack hne).requestReschedule
  | foregroundTask => exact h.modify fun _ => h.blocked
  | cleanupTerminated =>
    rw [Scheduler.cleanupTerminated, Scheduler.foldl_retain]
    exact h.of_eq rfl List.mem_of_mem_filter
  | enablePreemption => exact h.of_eq rfl id
  | disablePreemption => exact h.of_eq rfl id

theorem held_step {op : Op} (hlt : r < s.nextRef) (hrel : ¬Releases r s op) (hint : ¬Interrupts r s op)
    (h : Held r s) : Held r (step s op) := by
  by_cases hrefused : ∃ taskId exitCode, op = .terminateTask taskId exitCode ∧ taskId ≤ 2
  · obtain ⟨taskId, exitCode, rfl, hsmall⟩ := hrefused
    rw [step, Scheduler.terminateTask, if_pos hsmall]
    exact h
  · refine held_steps (step_steps s op) ?_ hlt hrel hint h
    intro taskId exitCode hop
    by_contra hsmall
    exact hrefused ⟨taskId, exitCode, hop, not_lt.mp hsmall⟩

theorem not_held_of_interrupts {op : Op} (h : Interrupts r s op) : ¬Held r (step s op) := by
  cases op with
  | preemptSchedule rsp =>
    obtain ⟨he, hc⟩ := h
    intro hheld
    have hblocked := hheld.blocked
    have hsave : ((s.saveCurrent rsp).cells r).state = .ready := by
      rw [Scheduler.saveCurrent_eq]
      dsimp only
      rw [if_pos hc]
      rfl
    rw [step] at hblocked
    obtain ⟨-, hs⟩ | ⟨pre, next, post, -, -, -, hs⟩ := Scheduler.preemptSchedule_cases he rsp
    · have hcur : (s.saveCurrent rsp).current = some r := by
        rw [Scheduler.saveCurrent_eq]
        exact hc
      rw [hs, Scheduler.restoreCurrent_eq] at hblocked
      simp only [if_pos hcur] at hblocked
      cases hblocked
    · rw [hs, Scheduler.countSwitch_cells, Scheduler.dispatch_cells_apply] at hblocked
      split_ifs at hblocked
      rw [hsave] at hblocked
      cases hblocked
  | _ => exact absurd h id

/-- As long as nothing wakes or ends a blocked task, it stays blocked and outside of the queue exactly
if it was outside when it was blocked, and no timer interrupt finds it still current. -/
theorem blocked_stays_iff (g : Statics) (ops : List Op) {r : TaskRef}
    (hlt : r < (run step (Scheduler.new g) ops).nextRef)
    (hblocked : ((run step (Scheduler.new g) ops).cells r).state = .blocked) (rest : List Op)
    (hrel : Guarded step (fun s op => ¬Releases r s op) (run step (Scheduler.new g) ops) rest) :
    Always step (Held r) (run step (Scheduler.new g) ops) rest ↔
      r ∉ (run step (Scheduler.new g) ops).readyQueue ∧
        Guarded step (fun s op => ¬Interrupts r s op) (run step (Scheduler.new g) ops) rest := by
  by_cases hout : r ∈ (run step (Scheduler.new g) ops).readyQueue
  · exact iff_of_false (fun h => h.first.unqueued hout) fun h => h.1 hout
  rw [and_iff_right hout]
  apply always_iff_guarded_of (I := fun s => r < s.nextRef ∧ Held r s) hrel
  · exact fun s h => h.2
  · intro s op h hop hint
    exact ⟨h.1.trans_le (nextRef_le_step s op), held_step h.1 hop hint h.2⟩
  · intro s op _ _ hheld hint
    exact not_held_of_interrupts hint hheld
  · exact ⟨hlt, hblocked, hout⟩

def firstBlocks : List Op :=
  [.createKernelTask 0x100000 "first" 0, .createKernelTask 0x100000 "second" 0,
    .enablePreemption, .schedule {}, .blockCurrent]

theorem firstBlocks_stays : Always step (Held 0)
    (run step (Scheduler.new { mem := fun _ => 0 }) firstBlocks)
    [.schedule {}, .tick {}, .preemptSchedule 0x180000] := by
  apply (blocked_stays_iff _ firstBlocks (by decide) (by decide) _ ?_).mpr
  · refine ⟨by decide, id, id, ?_, trivial⟩
    rintro ⟨-, hc⟩
    exact absurd hc (by decide)
  · refine ⟨id, ?_, id, trivial⟩
    rintro ⟨-, hc, -⟩
    exact absurd hc (by decide)

/-- The timer interrupts between the block and the switch to another task. -/
theorem firstBlocks_interrupted :
    Guarded step (fun s op => ¬Releases 0 s op)
    (run step (Scheduler.new { mem := fun _ => 0 }) firstBlocks)
        [.preemptSchedule 0x180000] ∧
      ¬Always step (Held 0) (run step (Scheduler.new { mem := fun _ => 0 }) firstBlocks)
        [.preemptSchedule 0x180000] := by
  refine ⟨⟨id, trivial⟩, fun h => ?_⟩
  exact h.last.unqueued (by decide)

end DeltaOS.Blocking
