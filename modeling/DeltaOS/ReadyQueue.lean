import DeltaOS.Runs
import DeltaOS.SchedSteps

namespace DeltaOS.ReadyQueue

open Kernel Tasks Sched Runs

structure QueueSane (s : Scheduler) : Prop where
  nodup : s.readyQueue.Nodup
  ready : ∀ r ∈ s.readyQueue, (s.cells r).state = .ready
  current : ∀ r, s.current = some r → r ∉ s.readyQueue

/-- The operation puts no task into the queue that is the current one or queued already.
Only the two commands that wake a task by its id can do so. -/
def WakesOnce (s : Scheduler) : Op → Prop
  | .unblockTask taskId => ∀ r, s.findBlocked taskId = some r → s.current ≠ some r ∧ r ∉ s.readyQueue
  | .backgroundTask taskId => ∀ r, s.findTask taskId = some r → (s.cells r).foreground = .stopped →
      s.current ≠ some r ∧ r ∉ s.readyQueue
  | _ => True

theorem queueSane_new (g : Statics) : QueueSane (Scheduler.new g) :=
  ⟨List.nodup_nil, by simp [Scheduler.new], by simp [Scheduler.new]⟩

variable {s s' : Scheduler}

theorem QueueSane.of_sublist (h : QueueSane s) (hq : s'.readyQueue.Sublist s.readyQueue)
    (hc : s'.current = s.current)
    (hst : ∀ r ∈ s'.readyQueue, (s'.cells r).state = (s.cells r).state) : QueueSane s' where
  nodup := hq.nodup h.nodup
  ready r hr := (hst r hr).trans (h.ready r (hq.subset hr))
  current r hr hm := h.current r (hc ▸ hr) (hq.subset hm)

theorem QueueSane.requestReschedule (h : QueueSane s) : QueueSane s.requestReschedule :=
  h.of_sublist (List.Sublist.refl _) rfl fun _ _ => rfl

theorem QueueSane.modify (h : QueueSane s) {r : TaskRef} (hr : r ∉ s.readyQueue) (f : Task → Task) :
    QueueSane (s.modify r f) := by
  refine h.of_sublist (List.Sublist.refl _) rfl ?_
  intro a ha
  have hne : a ≠ r := fun he => hr (he ▸ ha)
  simp [hne]

theorem QueueSane.modify_state (h : QueueSane s) (r : TaskRef) (f : Task → Task)
    (hf : ∀ t, (f t).state = t.state) : QueueSane (s.modify r f) := by
  refine h.of_sublist (List.Sublist.refl _) rfl ?_
  intro a _
  by_cases ha : a = r
  · subst a; simp [hf]
  · simp [ha]

theorem QueueSane.enqueue (h : QueueSane s) {r : TaskRef} (hc : s.current ≠ some r)
    (hr : r ∉ s.readyQueue) {f : Task → Task} (hf : (f (s.cells r)).state = .ready) :
    QueueSane ((s.modify r f).pushBack r) where
  nodup := List.nodup_append.mpr ⟨h.nodup, List.nodup_singleton r, by
    intro a ha b hb
    rw [List.mem_singleton.mp hb]
    exact fun he => hr (he ▸ ha)⟩
  ready a ha := by
    by_cases hne : a = r
    · subst a; simp [hf]
    · have hq : a ∈ s.readyQueue := by simpa [hne] using ha
      simpa [hne] using h.ready a hq
  current a ha hm := by
    obtain hm | hm := List.mem_append.mp hm
    · exact h.current a ha hm
    · rw [List.mem_singleton.mp hm] at ha
      exact hc ha

theorem QueueSane.nodup_released (h : QueueSane s) : s.released.readyQueue.Nodup := by
  rw [Scheduler.released_readyQueue]
  refine List.nodup_append.mpr ⟨h.nodup, ?_, ?_⟩
  · refine List.Nodup.filter _ ?_
    cases s.current <;> simp
  · intro a ha b hb he
    exact h.current a (he ▸ (Scheduler.mem_yielded.mp hb).1) ha

theorem QueueSane.ready_released (h : QueueSane s) :
    ∀ r ∈ s.released.readyQueue, (s.released.cells r).state = .ready := by
  intro r hr
  rw [Scheduler.released_cells]
  split
  · rfl
  · next hy =>
    rw [Scheduler.released_readyQueue, List.mem_append] at hr
    exact h.ready r (hr.resolve_right hy)

theorem eq_nil_of_nothingToPick (hready : ∀ r ∈ s.readyQueue, (s.cells r).state = .ready)
    (hn : s.NothingToPick) : s.readyQueue = [] := by
  cases hq : s.readyQueue with
  | nil => rfl
  | cons r queue =>
    have hr : (s.cells r).state = .ready := hready r (by simp [hq])
    exact absurd hr (hn.1 r (by simp [hq]))

theorem queueSane_dispatch {pre post : List TaskRef} {next : TaskRef}
    (hq : s.readyQueue = pre ++ next :: post) (hnodup : s.readyQueue.Nodup)
    (hready : ∀ r ∈ s.readyQueue, (s.cells r).state = .ready) :
    QueueSane (Scheduler.dispatch { s with readyQueue := pre ++ post } next) := by
  rw [hq] at hnodup
  have hnext : next ∉ pre ++ post := (List.nodup_middle.mp hnodup).notMem
  refine ⟨(List.nodup_middle.mp hnodup).of_cons, ?_, ?_⟩
  · intro r hr
    have hne : r ≠ next := fun he => hnext (he ▸ hr)
    have hm : r ∈ s.readyQueue := by
      have hm : r ∈ pre ∨ r ∈ post := by simpa using hr
      simp only [hq, List.mem_append, List.mem_cons]
      tauto
    simpa [hne] using hready r hm
  · intro r hr
    obtain rfl : next = r := by simpa using hr
    exact hnext

theorem QueueSane.schedule (h : QueueSane s) (cpu : SavedRegisters) :
    QueueSane (s.schedule cpu).1 := by
  obtain ⟨hn, hs⟩ | ⟨pre, next, post, hq, -, ⟨-, hs⟩ | ⟨-, hs⟩⟩ := s.schedule_cases cpu
  · have hnil : s.released.readyQueue = [] := eq_nil_of_nothingToPick h.ready_released hn
    rw [hs]
    exact ⟨by simp [hnil], by simp [hnil], by simp [hnil]⟩
  · rw [hs]
    exact queueSane_dispatch hq h.nodup_released h.ready_released
  · rw [hs]
    refine (queueSane_dispatch hq h.nodup_released h.ready_released).of_sublist
      (List.Sublist.refl _) rfl ?_
    intro r _
    simp only [Scheduler.countSwitch_cells]
    split <;> rfl

theorem QueueSane.scheduleIfNeeded (h : QueueSane s) (cpu : SavedRegisters) :
    QueueSane (s.scheduleIfNeeded cpu).1 :=
  s.scheduleIfNeeded_cases (P := fun x => QueueSane x.1) (h.schedule cpu) h

theorem QueueSane.tick (h : QueueSane s) (cpu : SavedRegisters) : QueueSane (s.tick cpu).1 := by
  have hcount : QueueSane s.countTick := h.of_sublist (List.Sublist.refl _) rfl fun _ _ => rfl
  obtain ⟨-, hs⟩ | ⟨-, -, hs⟩ | ⟨r, -, hc, ⟨-, hs⟩ | ⟨-, hs⟩⟩ := s.tick_cases cpu
  · rw [hs]
    exact hcount
  · rw [hs]
    exact hcount.scheduleIfNeeded cpu
  · have hr : r ∉ s.countTick.readyQueue := h.current r hc
    rw [hs]
    exact (hcount.modify hr _).requestReschedule
  · have hr : r ∉ s.countTick.readyQueue := h.current r hc
    have hmodify := hcount.modify hr fun _ => consumeTick (deliverSignal (s.cells r)).1
    rw [hs, Scheduler.charge_eq]
    refine QueueSane.scheduleIfNeeded ?_ cpu
    exact hmodify.of_sublist (List.Sublist.refl _) rfl fun _ _ => rfl

theorem QueueSane.preemptSchedule (h : QueueSane s) (rsp : Word) :
    QueueSane (s.preemptSchedule rsp).1 := by
  cases he : s.preemptEnabled with
  | false =>
    rw [Scheduler.preemptSchedule_disabled he]
    exact h
  | true =>
    have hnodup : (s.saveCurrent rsp).readyQueue.Nodup := by
      simp only [Scheduler.saveCurrent_eq]
      refine List.nodup_append.mpr ⟨h.nodup, ?_, ?_⟩
      · cases s.current <;> simp
      · intro a ha b hb hab
        exact h.current a (hab ▸ Option.mem_toList.mp hb) ha
    have hready : ∀ r ∈ (s.saveCurrent rsp).readyQueue,
        ((s.saveCurrent rsp).cells r).state = .ready := by
      simp only [Scheduler.saveCurrent_eq]
      intro r hr
      split
      · rfl
      · next hc =>
        obtain hr | hr := List.mem_append.mp hr
        · exact h.ready r hr
        · exact absurd (Option.mem_toList.mp hr) hc
    obtain ⟨hn, hs⟩ | ⟨pre, next, post, hq, -, -, hs⟩ := Scheduler.preemptSchedule_cases he rsp
    · have hnil : (s.saveCurrent rsp).readyQueue = [] := eq_nil_of_nothingToPick hready hn
      rw [hs, Scheduler.restoreCurrent_eq]
      exact ⟨by simp [hnil], by simp [hnil], by simp [hnil]⟩
    · rw [hs]
      exact (queueSane_dispatch hq hnodup hready).of_sublist (List.Sublist.refl _) rfl fun _ _ => rfl

theorem QueueSane.addTask (h : QueueSane s) (hb : s.Bounded) (t : Task × Statics) (now : Nat)
    (ht : t.1.state = .ready) : QueueSane (s.addTask t now).1 := by
  have hfresh : ∀ r, s.Refs r → r ≠ s.nextRef := fun r hr => Nat.ne_of_lt (hb r hr)
  refine ⟨?_, ?_, ?_⟩
  · refine List.nodup_append.mpr ⟨h.nodup, List.nodup_singleton _, ?_⟩
    intro a ha b hb'
    rw [List.mem_singleton.mp hb']
    exact hfresh a (.inl ha)
  · intro r hr
    by_cases hn : r = s.nextRef
    · subst hn
      simpa [Scheduler.addTask, Task.setupInitialStack] using ht
    · have hq : r ∈ s.readyQueue := by simpa [Scheduler.addTask, hn] using hr
      simpa [Scheduler.addTask, hn] using h.ready r hq
  · intro r hr hm
    obtain hm | hm := List.mem_append.mp hm
    · exact h.current r hr hm
    · exact hfresh r (.inr (.inl hr)) (List.mem_singleton.mp hm)

theorem QueueSane.terminated (h : QueueSane s) {r : TaskRef} {taskId : Nat}
    (hr : s.findTask taskId = some r) (exitCode : Int) : QueueSane (s.terminated r taskId exitCode) := by
  refine h.of_sublist List.filter_sublist rfl ?_
  intro a ha
  have hid : (s.cells r).id = taskId := (Scheduler.findTask_mem hr).2
  have hne : a ≠ r := by
    rintro rfl
    simp [Scheduler.terminated, hid] at ha
  simp [Scheduler.terminated, hne]

theorem queueSane_steps {op : Op} (hs : Steps s op s') (hb : s.Bounded) (h : QueueSane s)
    (hg : WakesOnce s op) : QueueSane s' := by
  cases hs with
  | unchanged => exact h
  | created hc => exact h.addTask hb _ _ (created_spec hc).state
  | tick cpu => exact h.tick cpu
  | schedule cpu => exact h.schedule cpu
  | yieldCurrent cpu => exact h.requestReschedule.schedule cpu
  | preemptSchedule rsp => exact h.preemptSchedule rsp
  | blockCurrent hc => exact (h.modify (h.current _ hc) _).requestReschedule
  | unblockTask hr =>
    obtain ⟨hc, hq⟩ := hg _ hr
    exact (h.enqueue hc hq rfl).requestReschedule
  | terminateNone => exact h.requestReschedule.schedule _
  | terminateCurrent hc => exact (h.modify (h.current _ hc) _).requestReschedule.schedule _
  | terminateTask hr => exact h.terminated hr _
  | @sendSignal taskId signal r =>
    exact h.modify_state r (·.sendSignal signal) fun t => t.sendSignal_state signal
  | backgroundTask hr hf =>
    obtain ⟨hc, hq⟩ := hg _ hr hf
    refine (h.enqueue hc hq ?_).requestReschedule
    simp
  | @foregroundTask taskId r =>
    exact h.modify_state r (fun t => { t with foreground := .foreground }) fun _ => rfl
  | cleanupTerminated =>
    rw [Scheduler.cleanupTerminated, Scheduler.foldl_retain]
    exact h.of_sublist List.filter_sublist rfl fun _ _ => rfl
  | enablePreemption => exact h.of_sublist (List.Sublist.refl _) rfl fun _ _ => rfl
  | disablePreemption => exact h.of_sublist (List.Sublist.refl _) rfl fun _ _ => rfl

theorem queueSane_step (hb : s.Bounded) (h : QueueSane s) (op : Op) (hg : WakesOnce s op) :
    QueueSane (step s op) := queueSane_steps (step_steps s op) hb h hg

theorem not_queueSane_pushBack {r : TaskRef} (h : s.current = some r ∨ r ∈ s.readyQueue) :
    ¬QueueSane (s.pushBack r) := by
  intro hs
  have hm : r ∈ (s.pushBack r).readyQueue := by simp
  obtain h | h := h
  · exact hs.current r h hm
  · have hd := List.nodup_append.mp hs.nodup
    exact hd.2.2 r h r (List.mem_singleton_self r) rfl

theorem wakesOnce_of_queueSane_step (op : Op) (h : QueueSane (step s op)) : WakesOnce s op := by
  cases op with
  | unblockTask taskId =>
    intro r hr
    simp only [step, Scheduler.unblockTask, hr] at h
    by_contra hcon
    refine not_queueSane_pushBack (s := s.modify r fun t => { t with state := .ready }) ?_
      (h.of_sublist (List.Sublist.refl _) rfl fun _ _ => rfl)
    simpa only [Scheduler.modify_current, Scheduler.modify_readyQueue, not_and_or, not_not] using hcon
  | backgroundTask taskId =>
    intro r hr hf
    simp only [step, Scheduler.backgroundTask, hr, hf, ne_eq, not_true_eq_false, ↓reduceIte] at h
    by_contra hcon
    refine not_queueSane_pushBack (s := s.modify r fun t =>
      { t with foreground := .background, state := .ready }.sendSignal sigcont) ?_
      (h.of_sublist (List.Sublist.refl _) rfl fun _ _ => rfl)
    simpa only [Scheduler.modify_current, Scheduler.modify_readyQueue, not_and_or, not_not] using hcon
  | _ => trivial

/-- Along a run from a new scheduler the queue stays sane exactly as long as no wake-up
command hits the current task or a task that is queued already. -/
theorem queueSane_iff_wakesOnce (g : Statics) (ops : List Op) :
    Always step QueueSane (Scheduler.new g) ops ↔ Guarded step WakesOnce (Scheduler.new g) ops := by
  refine always_iff_guarded (I := fun s => s.Bounded ∧ QueueSane s) (fun s h => h.2) ?_ ?_
    ⟨bounded_new g, queueSane_new g⟩
  · intro s op h hg
    exact ⟨bounded_step h.1 op, queueSane_step h.1 h.2 op hg⟩
  · intro s op _ h
    exact wakesOnce_of_queueSane_step op h

def unblockedWhileCurrent : List Op :=
  [.createKernelTask 0x100000 "demo" 0, .schedule {}, .blockCurrent, .unblockTask 1]

theorem unblockedWhileCurrent_queued :
    ¬Always step QueueSane (Scheduler.new { mem := fun _ => 0 }) unblockedWhileCurrent := by
  rintro ⟨-, -, -, -, h⟩
  exact h.current 0 (by decide) (by decide)

end DeltaOS.ReadyQueue
