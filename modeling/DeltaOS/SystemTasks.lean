import DeltaOS.Placement

namespace DeltaOS.SystemTasks

open Kernel Tasks Sched Runs Placement

/-- The tasks that `terminate_task` refuses: the idle task, and the first one that `run` starts. -/
def IsSystem (t : Task) : Prop := t.id = 1 ∨ t.id = 2

def Protected (s : Scheduler) : Prop := ∀ r < s.nextRef, IsSystem (s.cells r) →
    (s.cells r).state ≠ .terminated

/-- A system task ends itself. -/
def Exits (s : Scheduler) : Op → Prop
  | .terminateCurrent _ _ => ∃ r, s.current = some r ∧ IsSystem (s.cells r)
  | _ => False

/-- A tick delivers a pending SIGKILL to a system task. -/
def Kills (s : Scheduler) : Op → Prop
  | .tick _ => s.preemptEnabled = true ∧
      ∃ r, s.current = some r ∧ IsSystem (s.cells r) ∧ (s.cells r).popSignal.1 = some sigkill
  | _ => False

/-- No system task is terminated by the step, and tasks keep their ids. -/
structure Spares (s s' : Scheduler) : Prop where
  labels : labels s' = labels s
  alive : ∀ r, IsSystem (s.cells r) → (s'.cells r).state = .terminated → (s.cells r).state = .terminated

variable {s s' s'' : Scheduler} {r : TaskRef}

theorem Spares.nextRef (h : Spares s s') : s'.nextRef = s.nextRef := congrArg Prod.fst h.labels

theorem Spares.id (h : Spares s s') (r : TaskRef) : (s'.cells r).id = (s.cells r).id :=
  congrFun (congrArg (fun l => l.2.2) h.labels) r

theorem Spares.isSystem (h : Spares s s') : IsSystem (s'.cells r) ↔ IsSystem (s.cells r) := by
  rw [IsSystem, IsSystem, h.id]

theorem Spares.keeps (h : Spares s s') (hs : Protected s) : Protected s' := by
  intro r hr hsys hdead
  rw [h.nextRef] at hr
  rw [h.isSystem] at hsys
  exact hs r hr hsys (h.alive r hsys hdead)

theorem Spares.trans (h : Spares s s') (h' : Spares s' s'') : Spares s s'' := by
  refine ⟨h'.labels.trans h.labels, fun r hsys hdead => ?_⟩
  exact h.alive r hsys (h'.alive r (h.isSystem.mpr hsys) hdead)

theorem Spares.of_states (hl : Placement.labels s' = Placement.labels s)
    (h : ∀ r, (s'.cells r).state = .terminated → (s.cells r).state = .terminated) : Spares s s' :=
  ⟨hl, fun r _ => h r⟩

theorem spares_modify {f : Task → Task} (hid : (f (s.cells r)).id = (s.cells r).id)
    (hf : IsSystem (s.cells r) → (f (s.cells r)).state = .terminated → (s.cells r).state = .terminated) :
    Spares s (s.modify r f) := by
  refine ⟨labels_modify s r f hid, fun a hsys hdead => ?_⟩
  obtain rfl | hne := eq_or_ne a r
  · exact hf hsys (by simpa using hdead)
  · simpa [hne] using hdead

theorem released_alive (h : (s.released.cells r).state = .terminated) :
    (s.cells r).state = .terminated := by
  rw [Scheduler.released_cells] at h
  split at h
  · cases h
  · exact h

theorem dispatch_alive {queue : List TaskRef} {next : TaskRef}
    (h : ((Scheduler.dispatch { s with readyQueue := queue } next).cells r).state = .terminated) :
    (s.cells r).state = .terminated := by
  rw [Scheduler.dispatch_cells_apply] at h
  split at h
  · cases h
  · exact h

theorem spares_schedule (s : Scheduler) (cpu : SavedRegisters) : Spares s (s.schedule cpu).1 := by
  refine .of_states (labels_schedule s cpu) fun r hdead => ?_
  obtain ⟨-, hs⟩ | ⟨pre, next, post, -, -, ⟨-, hs⟩ | ⟨-, hs⟩⟩ := s.schedule_cases cpu
  · rw [hs] at hdead
    exact released_alive hdead
  · rw [hs] at hdead
    exact released_alive (dispatch_alive hdead)
  · rw [hs, Scheduler.countSwitch_cells] at hdead
    dsimp only at hdead
    split at hdead
    · exact released_alive (dispatch_alive hdead)
    · exact released_alive (dispatch_alive hdead)

theorem spares_scheduleIfNeeded (s : Scheduler) (cpu : SavedRegisters) :
    Spares s (s.scheduleIfNeeded cpu).1 :=
  s.scheduleIfNeeded_cases (P := fun x => Spares s x.1) (spares_schedule s cpu) ⟨rfl, fun _ _ => id⟩

theorem spares_preemptSchedule (s : Scheduler) (rsp : Word) : Spares s (s.preemptSchedule rsp).1 := by
  refine .of_states (labels_preemptSchedule s rsp) fun r hdead => ?_
  have hsave (h : ((s.saveCurrent rsp).cells r).state = .terminated) :
      (s.cells r).state = .terminated := by
    rw [Scheduler.saveCurrent_eq] at h
    dsimp only at h
    split at h
    · cases h
    · exact h
  cases he : s.preemptEnabled with
  | false =>
    rw [Scheduler.preemptSchedule_disabled he] at hdead
    exact hdead
  | true =>
    obtain ⟨-, hs⟩ | ⟨pre, next, post, -, -, -, hs⟩ := Scheduler.preemptSchedule_cases he rsp
    · rw [hs, Scheduler.restoreCurrent_eq] at hdead
      dsimp only at hdead
      split at hdead
      · cases hdead
      · exact hsave hdead
    · rw [hs, Scheduler.countSwitch_cells] at hdead
      exact hsave (dispatch_alive hdead)

theorem deliverSignal_of_sigkill {t : Task} (h : t.popSignal.1 = some sigkill) :
    (deliverSignal t).1.state = .terminated := by
  rw [deliverSignal_of_pop h, if_pos rfl]

theorem deliverSignal_terminated {t : Task} (h : (deliverSignal t).1.state = .terminated)
    (hsignal : t.popSignal.1 ≠ some sigkill) : t.state = .terminated := by
  obtain ⟨pending, hd | ⟨hkill, -⟩ | hd | ⟨-, -, hd⟩⟩ := deliverSignal_cases t
  · rw [hd] at h
    exact h
  · exact absurd hkill hsignal
  · rw [hd] at h
    cases h
  · rw [hd] at h
    cases h

theorem spares_tick {cpu : SavedRegisters} (h : ¬Kills s (.tick cpu)) : Spares s (s.tick cpu).1 := by
  have hcount : Spares s s.countTick := ⟨rfl, fun _ _ => id⟩
  obtain ⟨-, hs⟩ | ⟨-, -, hs⟩ | ⟨r, he, hc, hs⟩ := s.tick_cases cpu
  · rw [hs]
    exact hcount
  · rw [hs]
    exact hcount.trans (spares_scheduleIfNeeded s.countTick cpu)
  have hsignal (hsys : IsSystem (s.cells r)) (hdead : (deliverSignal (s.cells r)).1.state =
      .terminated) :
      (s.cells r).state = .terminated :=
    deliverSignal_terminated hdead fun hkill => h ⟨he, r, hc, hsys, hkill⟩
  have hid := (deliverSignal_frame (s.cells r)).1
  obtain ⟨-, hs⟩ | ⟨-, hs⟩ := hs
  · have hmod : Spares s (s.modify r fun _ => (deliverSignal (s.cells r)).1) := spares_modify hid hsignal
    rw [hs]
    exact ⟨hmod.labels, hmod.alive⟩
  · have hmod : Spares s (s.modify r fun _ => consumeTick (deliverSignal (s.cells r)).1) :=
      spares_modify hid hsignal
    rw [hs]
    refine Spares.trans ?_ (spares_scheduleIfNeeded _ cpu)
    rw [Scheduler.charge_eq]
    exact ⟨hmod.labels, hmod.alive⟩

theorem kills_tick {cpu : SavedRegisters} (hb : s.Bounded) (h : Kills s (.tick cpu)) :
    ¬Protected (s.tick cpu).1 := by
  obtain ⟨he, r, hc, hsys, hkill⟩ := h
  have hdead := deliverSignal_of_sigkill hkill
  have htick :
      s.tick cpu = ((s.countTick.modify r fun _ => (deliverSignal (s.cells r)).1).requestReschedule,
        cpu) := by
    rw [Scheduler.tick_current he hc, if_pos (by simp [hdead])]
  intro hp
  rw [htick] at hp
  have hid := (deliverSignal_frame (s.cells r)).1
  refine hp r (hb r (.inr (.inl hc))) ?_ (by simpa using hdead)
  simpa [IsSystem, hid] using hsys

theorem protected_addTask (h : Protected s) {t : Task × Statics} (ht : Created s.statics t) (now : Nat) :
    Protected (s.addTask t now).1 := by
  intro r hr hsys
  obtain hlt | rfl := Nat.lt_succ_iff_lt_or_eq.mp hr
  · rw [Scheduler.addTask_cells_of_ne t now hlt.ne] at hsys ⊢
    exact h r hlt hsys
  · rw [(addTask_cells_new s t now).1, ht.state]
    exact nofun

theorem protected_steps {op : Op} (hs : Steps s op s')
    (hrefused : ∀ taskId exitCode, op = .terminateTask taskId exitCode → 2 < taskId)
    (hexits : ¬Exits s op) (hkills : ¬Kills s op) (h : Protected s) : Protected s' := by
  cases hs with
  | unchanged => exact h
  | created hc => exact protected_addTask h (created_spec hc) _
  | tick cpu => exact (spares_tick hkills).keeps h
  | schedule cpu => exact (spares_schedule s cpu).keeps h
  | yieldCurrent cpu => exact (spares_schedule s.requestReschedule cpu).keeps h
  | preemptSchedule rsp => exact (spares_preemptSchedule s rsp).keeps h
  | @blockCurrent r =>
    have hmod : Spares s (s.modify r fun t => { t with state := .blocked }) := spares_modify rfl nofun
    exact hmod.keeps h
  | @unblockTask taskId r =>
    have hmod : Spares s (s.modify r fun t => { t with state := .ready }) := spares_modify rfl nofun
    exact hmod.keeps h
  | terminateNone => exact (spares_schedule s.requestReschedule _).keeps h
  | @terminateCurrent exitCode cpu r hc =>
    have hmod : Spares s (s.modify r fun t => { t with state := .terminated, exitCode := exitCode }) :=
      spares_modify rfl fun hsys => absurd ⟨r, hc, hsys⟩ hexits
    exact (spares_schedule _ cpu).keeps (hmod.keeps h)
  | @terminateTask taskId exitCode r hr =>
    have hid := (Scheduler.findTask_mem hr).2
    have hother : ¬IsSystem (s.cells r) := by
      have hbig := hrefused taskId exitCode rfl
      rw [IsSystem]
      omega
    have hmod : Spares s (s.modify r fun t => { t with state := .terminated, exitCode := exitCode }) :=
      spares_modify rfl fun hsys => absurd hsys hother
    exact hmod.keeps h
  | @sendSignal taskId signal r =>
    have hmod : Spares s (s.modify r fun t => t.sendSignal signal) :=
      spares_modify (sendSignal_id _ _) fun _ hdead => by rwa [Task.sendSignal_state] at hdead
    exact hmod.keeps h
  | @backgroundTask taskId r =>
    have hmod :
        Spares s (s.modify r fun t =>
          { t with foreground := .background, state := .ready }.sendSignal sigcont) :=
      spares_modify (sendSignal_id _ _) fun _ hdead => by
        rw [Task.sendSignal_state] at hdead
        cases hdead
    exact hmod.keeps h
  | @foregroundTask taskId r =>
    have hmod : Spares s (s.modify r fun t => { t with foreground := .foreground }) :=
      spares_modify rfl fun _ => id
    exact hmod.keeps h
  | cleanupTerminated =>
    rw [Scheduler.cleanupTerminated, Scheduler.foldl_retain]
    exact h
  | enablePreemption => exact h
  | disablePreemption => exact h

theorem protected_step {op : Op} (h : Protected s) (hexits : ¬Exits s op) (hkills : ¬Kills s op) :
    Protected (step s op) := by
  by_cases hrefused : ∃ taskId exitCode, op = .terminateTask taskId exitCode ∧ taskId ≤ 2
  · obtain ⟨taskId, exitCode, rfl, hsmall⟩ := hrefused
    rw [step, Scheduler.terminateTask, if_pos hsmall]
    exact h
  · refine protected_steps (step_steps s op) ?_ hexits hkills h
    intro taskId exitCode hop
    by_contra hsmall
    exact hrefused ⟨taskId, exitCode, hop, not_lt.mp hsmall⟩

/-- In a run in which no system task ends itself. -/
theorem system_tasks_protected_iff (g : Statics) (ops : List Op)
    (hexits : Guarded step (fun s op => ¬Exits s op) (Scheduler.new g) ops) :
    Always step Protected (Scheduler.new g) ops ↔
      Guarded step (fun s op => ¬Kills s op) (Scheduler.new g) ops := by
  apply always_iff_guarded_of (I := fun s => s.Bounded ∧ Protected s) hexits
  · exact fun s h => h.2
  · intro s op h he hk
    exact ⟨bounded_step h.1 op, protected_step h.2 he hk⟩
  · intro s op h _ hp hk
    cases op with
    | tick cpu => exact kills_tick h.1 hk hp
    | _ => exact hk
  · exact ⟨bounded_new g, nofun⟩

def shellRuns : List Op :=
  [.createIdleTask 0x100000 0, .createKernelTask 0x101000 "shell" 0, .enablePreemption,
    .preemptSchedule 0x180000]

theorem shellRuns_refuses_kill :
    Always step Protected (Scheduler.new { mem := fun _ => 0 })
    (shellRuns ++ [.terminateTask 2 (-9), .tick {}]) := by
  apply (system_tasks_protected_iff _ _ ?_).mpr
  · refine ⟨id, id, id, id, id, ?_, trivial⟩
    rintro ⟨-, r, hr, -, hkill⟩
    obtain rfl : 1 = r := Option.some.inj hr
    revert hkill
    decide
  · exact ⟨id, id, id, id, id, id, trivial⟩

/-- A signal sent to the shell ends it at the next tick. -/
theorem shellRuns_killed :
    Guarded step (fun s op => ¬Exits s op) (Scheduler.new { mem := fun _ => 0 })
    (shellRuns ++ [.sendSignal 2 9, .tick {}]) ∧
      ¬Always step Protected (Scheduler.new { mem := fun _ => 0 })
      (shellRuns ++ [.sendSignal 2 9, .tick {}]) := by
  refine ⟨⟨id, id, id, id, id, id, trivial⟩, fun h => ?_⟩
  exact h.last 1 (by decide) (.inr (by decide)) (by decide)

end DeltaOS.SystemTasks
