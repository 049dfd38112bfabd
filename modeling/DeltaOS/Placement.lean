import DeltaOS.Runs
import DeltaOS.SchedSteps

namespace DeltaOS.Placement

open Kernel Tasks Sched Runs

/-- No two tasks have the same id, and the next one will not have one of theirs. -/
structure Labelled (s : Scheduler) : Prop where
  fresh : ∀ r < s.nextRef, (s.cells r).id < s.statics.nextTaskId
  unique : ∀ r < s.nextRef, ∀ a < s.nextRef, (s.cells r).id = (s.cells a).id → r = a

/-- A task that is ready is queued, and a task that runs is the current one. -/
structure Placed (s : Scheduler) : Prop where
  ready : ∀ r < s.nextRef, (s.cells r).state = .ready → r ∈ s.readyQueue
  running : ∀ r < s.nextRef, (s.cells r).state = .running → s.current = some r

/-- Between the release of a task and the dispatch of the next one no task runs. -/
structure Parked (s : Scheduler) : Prop where
  ready : ∀ r < s.nextRef, (s.cells r).state = .ready → r ∈ s.readyQueue
  stopped : ∀ r < s.nextRef, (s.cells r).state ≠ .running

variable {s s' : Scheduler} {r next : TaskRef} {pre post : List TaskRef}

theorem Placed.of_states (h : Placed s) (hn : s'.nextRef = s.nextRef) (hq : s'.readyQueue = s.readyQueue)
    (hc : s'.current = s.current) (hst : ∀ r, (s'.cells r).state = (s.cells r).state) : Placed s' := by
  constructor
  · intro a ha hready
    rw [hq]
    exact h.ready a (hn ▸ ha) (hst a ▸ hready)
  · intro a ha hrun
    rw [hc]
    exact h.running a (hn ▸ ha) (hst a ▸ hrun)

theorem Placed.modify_state (h : Placed s) (r : TaskRef) (f : Task → Task)
    (hf : ∀ t, (f t).state = t.state) : Placed (s.modify r f) := by
  refine h.of_states rfl rfl rfl fun a => ?_
  obtain rfl | hne := eq_or_ne a r
  · simp [hf]
  · simp [hne]

theorem Placed.modify (h : Placed s) {f : Task → Task}
    (hready : (f (s.cells r)).state = .ready → (s.cells r).state = .ready)
    (hrun : (f (s.cells r)).state = .running → s.current = some r) : Placed (s.modify r f) := by
  constructor
  · intro a ha hst
    obtain rfl | hne := eq_or_ne a r
    · exact h.ready a ha (hready (by simpa using hst))
    · exact h.ready a ha (by simpa [hne] using hst)
  · intro a ha hst
    obtain rfl | hne := eq_or_ne a r
    · exact hrun (by simpa using hst)
    · exact h.running a ha (by simpa [hne] using hst)

theorem Placed.enqueue (h : Placed s) {f : Task → Task} (hf : (f (s.cells r)).state ≠ .running) :
    Placed ((s.modify r f).pushBack r) := by
  constructor
  · intro a ha hst
    obtain rfl | hne := eq_or_ne a r
    · simp
    · have hold : (s.cells a).state = .ready := by simpa [hne] using hst
      exact List.mem_append_left _ (h.ready a ha hold)
  · intro a ha hst
    obtain rfl | hne := eq_or_ne a r
    · exact absurd (by simpa using hst) hf
    · exact h.running a ha (by simpa [hne] using hst)

theorem addTask_cells_new (s : Scheduler) (t : Task × Statics) (now : Nat) :
    ((s.addTask t now).1.cells s.nextRef).state = t.1.state ∧
      ((s.addTask t now).1.cells s.nextRef).id = t.1.id := by
  rw [Scheduler.addTask_cells_self, Task.setupInitialStack]
  exact ⟨rfl, rfl⟩

theorem Placed.addTask (h : Placed s) {t : Task × Statics} (ht : Created s.statics t) (now : Nat) :
    Placed (s.addTask t now).1 := by
  have hold : ∀ a < s.nextRef, _ := fun a ha => Scheduler.addTask_cells_of_ne t now (Nat.ne_of_lt ha)
  have hnew := (addTask_cells_new s t now).1.trans ht.state
  constructor
  · intro a ha hst
    obtain hlt | rfl := Nat.lt_succ_iff_lt_or_eq.mp ha
    · exact List.mem_append_left _ (h.ready a hlt (hold a hlt ▸ hst))
    · exact List.mem_append_right _ List.mem_cons_self
  · intro a ha hst
    obtain hlt | rfl := Nat.lt_succ_iff_lt_or_eq.mp ha
    · exact h.running a hlt (hold a hlt ▸ hst)
    · rw [hnew] at hst
      cases hst

theorem Placed.filter (h : Placed s) (p q : TaskRef → Bool)
    (hp : ∀ r < s.nextRef, (s.cells r).state = .ready → p r) :
    Placed { s with readyQueue := s.readyQueue.filter p, allTasks := s.allTasks.filter q } :=
  ⟨fun r hr hst => List.mem_filter.mpr ⟨h.ready r hr hst, hp r hr hst⟩, h.running⟩

theorem Parked.dispatch (h : Parked s) (hq : s.readyQueue = pre ++ next :: post) :
    Placed (Scheduler.dispatch { s with readyQueue := pre ++ post } next) := by
  constructor
  · intro a ha hst
    rw [Scheduler.dispatch_cells_apply] at hst
    split_ifs at hst with hne
    have hmem := h.ready a ha hst
    rw [hq, List.mem_append, List.mem_cons] at hmem
    exact List.mem_append.mpr (hmem.imp_right fun hm => hm.resolve_left hne)
  · intro a ha hst
    rw [Scheduler.dispatch_cells_apply] at hst
    split_ifs at hst with hne
    · simp [hne]
    · exact absurd hst (h.stopped a ha)

theorem Placed.released (h : Placed s) : Parked s.released := by
  constructor
  · intro a ha hst
    rw [Scheduler.released_nextRef] at ha
    rw [Scheduler.released_cells] at hst
    rw [Scheduler.released_readyQueue, List.mem_append]
    split_ifs at hst with hy
    · exact .inr hy
    · exact .inl (h.ready a ha hst)
  · intro a ha hst
    rw [Scheduler.released_nextRef] at ha
    rw [Scheduler.released_cells] at hst
    split_ifs at hst with hy
    · cases hst
    · exact hy (Scheduler.mem_yielded.mpr ⟨h.running a ha hst, hst⟩)

theorem Placed.saveCurrent (h : Placed s) (rsp : Word) : Parked (s.saveCurrent rsp) := by
  rw [Scheduler.saveCurrent_eq]
  constructor
  · intro a ha hst
    dsimp only at ha hst ⊢
    split_ifs at hst with hc
    · exact List.mem_append_right _ (by simp [hc])
    · exact List.mem_append_left _ (h.ready a ha hst)
  · intro a ha hst
    dsimp only at ha hst
    split_ifs at hst with hc
    · cases hst
    · exact hc (h.running a ha hst)

theorem Parked.restoreCurrent (h : Parked s) : Placed s.restoreCurrent := by
  rw [Scheduler.restoreCurrent_eq]
  constructor
  · intro a ha hst
    dsimp only at ha hst ⊢
    split_ifs at hst with hc
    exact h.ready a ha hst
  · intro a ha hst
    dsimp only at ha hst ⊢
    split_ifs at hst with hc
    · exact hc
    · exact absurd hst (h.stopped a ha)

theorem Placed.schedule (h : Placed s) (cpu : SavedRegisters) : Placed (s.schedule cpu).1 := by
  obtain ⟨-, hs⟩ | ⟨pre, next, post, hq, -, ⟨-, hs⟩ | ⟨-, hs⟩⟩ := s.schedule_cases cpu
  · rw [hs]
    have hparked := h.released
    exact ⟨hparked.ready, fun a ha hrun => absurd hrun (hparked.stopped a ha)⟩
  · rw [hs]
    exact h.released.dispatch hq
  · rw [hs]
    refine (h.released.dispatch hq).of_states rfl rfl rfl fun a => ?_
    simp only [Scheduler.countSwitch_cells]
    split <;> rfl

theorem Placed.scheduleIfNeeded (h : Placed s) (cpu : SavedRegisters) :
    Placed (s.scheduleIfNeeded cpu).1 :=
  s.scheduleIfNeeded_cases (P := fun x => Placed x.1) (h.schedule cpu) h

theorem Placed.preemptSchedule (h : Placed s) (rsp : Word) : Placed (s.preemptSchedule rsp).1 := by
  cases he : s.preemptEnabled with
  | false =>
    rw [Scheduler.preemptSchedule_disabled he]
    exact h
  | true =>
    obtain ⟨-, hs⟩ | ⟨pre, next, post, hq, -, -, hs⟩ := Scheduler.preemptSchedule_cases he rsp
    · rw [hs]
      exact (h.saveCurrent rsp).restoreCurrent
    · rw [hs]
      exact ((h.saveCurrent rsp).dispatch hq).of_states rfl rfl rfl fun _ => rfl

theorem deliverSignal_frame (t : Task) :
    (deliverSignal t).1.id = t.id ∧ ((deliverSignal t).1.state = .ready → t.state = .ready) := by
  obtain ⟨pending, h | ⟨-, h⟩ | h | ⟨-, -, h⟩⟩ := deliverSignal_cases t
  · rw [h]
    exact ⟨rfl, id⟩
  · rw [h]
    exact ⟨rfl, nofun⟩
  · rw [h]
    exact ⟨rfl, nofun⟩
  · rw [h]
    exact ⟨rfl, nofun⟩

theorem Placed.tick (h : Placed s) (cpu : SavedRegisters) : Placed (s.tick cpu).1 := by
  have hcount : Placed s.countTick := h.of_states rfl rfl rfl fun _ => rfl
  obtain ⟨-, hs⟩ | ⟨-, -, hs⟩ | ⟨r, -, hc, ⟨-, hs⟩ | ⟨-, hs⟩⟩ := s.tick_cases cpu
  · rw [hs]
    exact hcount
  · rw [hs]
    exact hcount.scheduleIfNeeded cpu
  · have hmod : Placed (s.countTick.modify r fun _ => (deliverSignal (s.cells r)).1) :=
      hcount.modify (deliverSignal_frame (s.cells r)).2 fun _ => hc
    rw [hs]
    exact hmod.of_states rfl rfl rfl fun _ => rfl
  · have hmod : Placed (s.countTick.modify r fun _ => consumeTick (deliverSignal (s.cells r)).1) :=
      hcount.modify (deliverSignal_frame (s.cells r)).2 fun _ => hc
    rw [hs, Scheduler.charge_eq]
    refine Placed.scheduleIfNeeded ?_ cpu
    exact hmod.of_states rfl rfl rfl fun _ => rfl

def labels (s : Scheduler) : TaskRef × Nat × (TaskRef → Nat) :=
  (s.nextRef, s.statics.nextTaskId, fun r => (s.cells r).id)

theorem Labelled.of_labels (h : Labelled s) (hs : labels s' = labels s) : Labelled s' := by
  obtain ⟨hnext, hid, hids⟩ : s'.nextRef = s.nextRef ∧ s'.statics.nextTaskId = s.statics.nextTaskId ∧
      ∀ r, (s'.cells r).id = (s.cells r).id := by
    simpa only [labels, Prod.mk.injEq, funext_iff] using hs
  constructor
  · intro r hr
    rw [hids, hid]
    exact h.fresh r (hnext ▸ hr)
  · intro r hr a ha heq
    rw [hids, hids] at heq
    exact h.unique r (hnext ▸ hr) a (hnext ▸ ha) heq

theorem labels_of_ids (hnext : s'.nextRef = s.nextRef)
    (hid : s'.statics.nextTaskId = s.statics.nextTaskId)
    (hids : ∀ r, (s'.cells r).id = (s.cells r).id) : labels s' = labels s := by
  simp only [labels, hnext, hid, hids]

theorem labels_modify (s : Scheduler) (r : TaskRef) (f : Task → Task)
    (hf : (f (s.cells r)).id = (s.cells r).id) : labels (s.modify r f) = labels s := by
  refine labels_of_ids rfl rfl fun a => ?_
  obtain rfl | hne := eq_or_ne a r
  · simpa using hf
  · simp [hne]

theorem labels_wake (s : Scheduler) (r : TaskRef) (f : Task → Task)
    (hf : (f (s.cells r)).id = (s.cells r).id) :
    labels ((s.modify r f).pushBack r).requestReschedule = labels s :=
  labels_modify s r f hf

theorem sendSignal_id (t : Task) (signal : Nat) : (t.sendSignal signal).id = t.id := by
  rw [Task.sendSignal]
  split <;> rfl

theorem labels_released (s : Scheduler) : labels s.released = labels s := by
  refine labels_of_ids (Scheduler.released_nextRef s) ?_ fun r => ?_
  · unfold Scheduler.released Scheduler.requeueCurrent
    dsimp only
    split
    · rfl
    · split <;> rfl
  · rw [Scheduler.released_cells]
    split <;> rfl

theorem labels_dispatch (s : Scheduler) (queue : List TaskRef) (next : TaskRef) :
    labels (Scheduler.dispatch { s with readyQueue := queue } next) = labels s :=
  labels_modify s next (fun t => { t with state := .running }) rfl

theorem labels_schedule (s : Scheduler) (cpu : SavedRegisters) :
    labels (s.schedule cpu).1 = labels s := by
  obtain ⟨-, hs⟩ | ⟨pre, next, post, -, -, ⟨-, hs⟩ | ⟨-, hs⟩⟩ := s.schedule_cases cpu
  · rw [hs]
    exact labels_released s
  · rw [hs]
    exact (labels_dispatch s.released (pre ++ post) next).trans (labels_released s)
  · rw [hs, ← (labels_dispatch s.released (pre ++ post) next).trans (labels_released s)]
    refine labels_of_ids rfl rfl fun r => ?_
    simp only [Scheduler.countSwitch_cells]
    split <;> rfl

theorem labels_scheduleIfNeeded (s : Scheduler) (cpu : SavedRegisters) :
    labels (s.scheduleIfNeeded cpu).1 = labels s :=
  s.scheduleIfNeeded_cases (P := fun x => labels x.1 = labels s) (labels_schedule s cpu) rfl

theorem labels_restoreCurrent (s : Scheduler) : labels s.restoreCurrent = labels s := by
  rw [Scheduler.restoreCurrent_eq]
  refine labels_of_ids rfl rfl fun r => ?_
  dsimp only
  split <;> rfl

theorem labels_preemptSchedule (s : Scheduler) (rsp : Word) :
    labels (s.preemptSchedule rsp).1 = labels s := by
  have hsave : labels (s.saveCurrent rsp) = labels s := by
    rw [Scheduler.saveCurrent_eq]
    refine labels_of_ids rfl rfl fun r => ?_
    dsimp only
    split <;> rfl
  cases he : s.preemptEnabled with
  | false => rw [Scheduler.preemptSchedule_disabled he]
  | true =>
    obtain ⟨-, hs⟩ | ⟨pre, next, post, -, -, -, hs⟩ := Scheduler.preemptSchedule_cases he rsp
    · rw [hs]
      exact (labels_restoreCurrent (s.saveCurrent rsp)).trans hsave
    · rw [hs]
      exact (labels_dispatch (s.saveCurrent rsp) (pre ++ post) next).trans hsave

theorem labels_tick (s : Scheduler) (cpu : SavedRegisters) : labels (s.tick cpu).1 = labels s := by
  obtain ⟨-, hs⟩ | ⟨-, -, hs⟩ | ⟨r, -, -, ⟨-, hs⟩ | ⟨-, hs⟩⟩ := s.tick_cases cpu
  · rw [hs]
    rfl
  · rw [hs]
    exact labels_scheduleIfNeeded s.countTick cpu
  · rw [hs]
    exact labels_modify s r (fun _ => (deliverSignal (s.cells r)).1) (deliverSignal_frame (s.cells r)).1
  · rw [hs, labels_scheduleIfNeeded, Scheduler.charge_eq]
    exact labels_modify s r (fun _ => consumeTick (deliverSignal (s.cells r)).1)
      (deliverSignal_frame (s.cells r)).1

theorem Labelled.addTask (h : Labelled s) {t : Task × Statics} (ht : Created s.statics t) (now : Nat) :
    Labelled (s.addTask t now).1 := by
  have hold : ∀ a < s.nextRef, _ := fun a ha => Scheduler.addTask_cells_of_ne t now (Nat.ne_of_lt ha)
  have hnew := (addTask_cells_new s t now).2.trans ht.id
  have hstatics : (s.addTask t now).1.statics.nextTaskId = s.statics.nextTaskId + 1 := by
    simp only [Scheduler.addTask, ht.nextTaskId]
  constructor
  · intro r hr
    rw [hstatics]
    obtain hlt | rfl := Nat.lt_succ_iff_lt_or_eq.mp hr
    · rw [hold r hlt]
      exact Nat.lt_succ_of_lt (h.fresh r hlt)
    · rw [hnew]
      exact Nat.lt_succ_self _
  · intro r hr a ha heq
    obtain hrl | rfl := Nat.lt_succ_iff_lt_or_eq.mp hr
    · obtain hal | rfl := Nat.lt_succ_iff_lt_or_eq.mp ha
      · rw [hold r hrl, hold a hal] at heq
        exact h.unique r hrl a hal heq
      · rw [hold r hrl, hnew] at heq
        exact absurd heq (Nat.ne_of_lt (h.fresh r hrl))
    · obtain hal | rfl := Nat.lt_succ_iff_lt_or_eq.mp ha
      · rw [hold a hal, hnew] at heq
        exact absurd heq.symm (Nat.ne_of_lt (h.fresh a hal))
      · rfl

theorem labelled_steps {op : Op} (hs : Steps s op s') (h : Labelled s) : Labelled s' := by
  cases hs with
  | unchanged => exact h
  | created hc => exact h.addTask (created_spec hc) _
  | tick cpu => exact h.of_labels (labels_tick s cpu)
  | schedule cpu => exact h.of_labels (labels_schedule s cpu)
  | yieldCurrent cpu => exact h.of_labels (labels_schedule s.requestReschedule cpu)
  | preemptSchedule rsp => exact h.of_labels (labels_preemptSchedule s rsp)
  | blockCurrent => exact h.of_labels (labels_modify s _ (fun t => { t with state := .blocked }) rfl)
  | unblockTask => exact h.of_labels (labels_wake s _ (fun t => { t with state := .ready }) rfl)
  | terminateNone => exact h.of_labels (labels_schedule s.requestReschedule _)
  | @terminateCurrent exitCode cpu r =>
    exact h.of_labels ((labels_schedule _ cpu).trans
      (labels_modify s r (fun t => { t with state := .terminated, exitCode := exitCode }) rfl))
  | @terminateTask taskId exitCode r =>
    exact h.of_labels (labels_modify s r
      (fun t => { t with state := .terminated, exitCode := exitCode }) rfl)
  | @sendSignal taskId signal r =>
    exact h.of_labels (labels_modify s r (fun t => t.sendSignal signal) (sendSignal_id _ _))
  | backgroundTask => exact h.of_labels (labels_wake s _ _ (sendSignal_id _ _))
  | foregroundTask =>
    exact h.of_labels
      (labels_modify s _ (fun t => { t with foreground := .foreground }) rfl)
  | cleanupTerminated =>
    rw [Scheduler.cleanupTerminated, Scheduler.foldl_retain]
    exact h.of_labels rfl
  | enablePreemption => exact h.of_labels rfl
  | disablePreemption => exact h.of_labels rfl

theorem labelled_step (h : Labelled s) (op : Op) : Labelled (step s op) :=
  labelled_steps (step_steps s op) h

theorem Placed.requestReschedule (h : Placed s) : Placed s.requestReschedule :=
  h.of_states rfl rfl rfl fun _ => rfl

theorem Placed.terminated (h : Placed s) (hb : s.Bounded) (hl : Labelled s) {taskId : Nat}
    (hfind : s.findTask taskId = some r) (exitCode : Int) : Placed (s.terminated r taskId exitCode) := by
  obtain ⟨hmem, hid⟩ := Scheduler.findTask_mem hfind
  have hr : r < s.nextRef := hb r (.inr (.inr hmem))
  have hmod : Placed (s.modify r fun t => { t with state := .terminated, exitCode := exitCode }) :=
    h.modify nofun nofun
  refine (hmod.filter (fun a => ((s.modify r fun t =>
    { t with state := .terminated, exitCode := exitCode }).cells a).id ≠ taskId) (fun _ => true)
    ?_).of_states rfl rfl rfl fun _ => rfl
  intro a ha hready
  obtain rfl | hne := eq_or_ne a r
  · simp at hready
  · have hids : (s.cells a).id ≠ taskId := fun heq => hne (hl.unique a ha r hr (heq.trans hid.symm))
    simpa [hne] using hids

theorem Placed.cleanupTerminated (h : Placed s) (hb : s.Bounded) (hl : Labelled s) :
    Placed s.cleanupTerminated := by
  rw [Scheduler.cleanupTerminated, Scheduler.foldl_retain]
  refine h.filter _ _ fun a ha hready => ?_
  simp only [List.mem_map, List.mem_filter, decide_eq_true_eq, not_exists, not_and, and_imp]
  intro b hb' hterm heq
  obtain rfl := hl.unique b (hb b (.inr (.inr hb'))) a ha heq
  rw [hterm] at hready
  cases hready

theorem placed_steps {op : Op} (hs : Steps s op s') (h : Placed s) (hb : s.Bounded) (hl : Labelled s) :
    Placed s' := by
  cases hs with
  | unchanged => exact h
  | created hc => exact h.addTask (created_spec hc) _
  | tick cpu => exact h.tick cpu
  | schedule cpu => exact h.schedule cpu
  | yieldCurrent cpu => exact h.requestReschedule.schedule cpu
  | preemptSchedule rsp => exact h.preemptSchedule rsp
  | @blockCurrent r =>
    have hmod : Placed (s.modify r fun t => { t with state := .blocked }) := h.modify nofun nofun
    exact hmod.requestReschedule
  | @unblockTask taskId r =>
    have hwake : Placed ((s.modify r fun t => { t with state := .ready }).pushBack r) := h.enqueue nofun
    exact hwake.requestReschedule
  | terminateNone => exact h.requestReschedule.schedule _
  | @terminateCurrent exitCode cpu r =>
    have hmod : Placed (s.modify r fun t => { t with state := .terminated, exitCode := exitCode }) :=
      h.modify nofun nofun
    exact hmod.requestReschedule.schedule cpu
  | terminateTask hr => exact h.terminated hb hl hr _
  | @sendSignal taskId signal r =>
    exact h.modify_state r (fun t => t.sendSignal signal) fun t => t.sendSignal_state signal
  | backgroundTask =>
    refine (h.enqueue ?_).requestReschedule
    rw [Task.sendSignal_state]
    exact nofun
  | @foregroundTask taskId r =>
    exact h.modify_state r (fun t => { t with foreground := .foreground }) fun _ => rfl
  | cleanupTerminated => exact h.cleanupTerminated hb hl
  | enablePreemption => exact h.of_states rfl rfl rfl fun _ => rfl
  | disablePreemption => exact h.of_states rfl rfl rfl fun _ => rfl

theorem placed_step (h : Placed s) (hb : s.Bounded) (hl : Labelled s) (op : Op) : Placed (step s op) :=
  placed_steps (step_steps s op) h hb hl

theorem placed_new (g : Statics) : Placed (Scheduler.new g) := ⟨nofun, nofun⟩

theorem labelled_new (g : Statics) : Labelled (Scheduler.new g) := ⟨nofun, nofun⟩

theorem always_reachable (g : Statics) (ops : List Op) :
    Always step (fun s => s.Bounded ∧ Labelled s ∧ Placed s) (Scheduler.new g) ops := by
  refine always_of_step (fun s op h => ?_) ⟨bounded_new g, labelled_new g, placed_new g⟩
  obtain ⟨hb, hl, hp⟩ := h
  exact ⟨bounded_step hb op, labelled_step hl op, placed_step hp hb hl op⟩

theorem always_placed (g : Statics) (ops : List Op) : Always step Placed (Scheduler.new g) ops :=
  (always_reachable g ops).mono fun _ h => h.2.2

/-- No ready task is lost. -/
theorem ready_queued (g : Statics) (ops : List Op) : Always step
    (fun s => ∀ r < s.nextRef, (s.cells r).state = .ready → r ∈ s.readyQueue) (Scheduler.new g) ops :=
  (always_placed g ops).mono fun _ h => h.ready

/-- At most one task runs, and it is the current one. -/
theorem running_current (g : Statics) (ops : List Op) : Always step
    (fun s => (∀ r < s.nextRef, (s.cells r).state = .running → s.current = some r) ∧
      ∀ r < s.nextRef, ∀ a < s.nextRef, r ≠ a → (s.cells r).state = .running →
        (s.cells a).state ≠ .running) (Scheduler.new g) ops := by
  refine (always_placed g ops).mono fun s h => ⟨h.running, fun r hr a ha hne hrun harun => hne ?_⟩
  exact Option.some.inj ((h.running r hr hrun).symm.trans (h.running a ha harun))

end DeltaOS.Placement
