import DeltaOS.Runs
import DeltaOS.SchedSteps
import DeltaOS.Signals

namespace DeltaOS.Selection

open Kernel Tasks Sched Runs
open Signals (pending blocked popSignal_takes)

/-- Nothing is taken if no queued task is ready, and otherwise the earliest of the ready tasks of the
highest priority. -/
structure PicksRight (s : Scheduler) : Prop where
  nothing : s.pickNextTask = (none, s) ↔ ∀ r ∈ s.readyQueue, (s.cells r).state ≠ .ready
  foremost : (∃ r ∈ s.readyQueue, (s.cells r).state = .ready) →
    ∃ pre next post, s.readyQueue = pre ++ next :: post ∧ s.Foremost pre next post ∧
      s.pickNextTask = (some next, { s with readyQueue := pre ++ post })

/-- The scan does not fall back on a front task that cannot run. -/
def Pickable (s : Scheduler) : Prop :=
  (∀ r ∈ s.readyQueue, (s.cells r).state ≠ .ready) ∨
    (∃ r ∈ s.readyQueue.head?, (s.cells r).state = .ready) ∨
    ∃ r ∈ s.readyQueue, (s.cells r).state = .ready ∧ .low < (s.cells r).priority

variable {s : Scheduler} {r : TaskRef}

theorem nothingToPick_iff (hready : ∃ r ∈ s.readyQueue, (s.cells r).state = .ready) :
    s.NothingToPick ↔ ¬Pickable s := by
  obtain ⟨a, ha, hstate⟩ := hready
  constructor
  · rintro ⟨hfront, hlow⟩ (hnone | ⟨r, hr, hrs⟩ | ⟨r, hr, hrs, hlt⟩)
    · exact hnone a ha hstate
    · exact hfront r hr hrs
    · rw [hlow r hr hrs] at hlt
      exact lt_irrefl _ hlt
  · intro h
    refine ⟨fun r hr hrs => h (.inr (.inl ⟨r, hr, hrs⟩)), fun r hr hrs => ?_⟩
    by_contra hne
    have hlt : .low < (s.cells r).priority := lt_of_le_of_ne (Scheduler.low_le _) (Ne.symm hne)
    exact h (.inr (.inr ⟨r, hr, hrs, hlt⟩))

/-- `pick_next_task` is right exactly on the queues that are pickable. -/
theorem pickNextTask_right_iff (s : Scheduler) : PicksRight s ↔ Pickable s := by
  by_cases hready : ∃ r ∈ s.readyQueue, (s.cells r).state = .ready
  · have hiff := nothingToPick_iff hready
    obtain ⟨hn, hp⟩ | ⟨pre, next, post, hq, hfirst, hp, hn⟩ := s.pickNextTask_spec
    · refine iff_of_false (fun h => ?_) (hiff.mp hn)
      obtain ⟨r, hr, hrs⟩ := hready
      exact h.nothing.mp hp r hr hrs
    · refine iff_of_true ⟨?_, fun _ => ⟨pre, next, post, hq, hfirst, hp⟩⟩
        (not_not.mp fun h => hn (hiff.mpr h))
      obtain ⟨r, hr, hrs⟩ := hready
      refine iff_of_false (fun h => ?_) fun h => h r hr hrs
      rw [hp] at h
      cases h
  · have hnone : ∀ r ∈ s.readyQueue, (s.cells r).state ≠ .ready := fun r hr hrs => hready ⟨r, hr, hrs⟩
    refine iff_of_true ⟨?_, fun h => absurd h hready⟩ (.inl hnone)
    refine iff_of_true ?_ hnone
    obtain ⟨-, hp⟩ | ⟨pre, next, post, hq, hfirst, -, -⟩ := s.pickNextTask_spec
    · exact hp
    · exact absurd hfirst.ready (hnone next (by simp [hq]))

def blockedInFront : List Op :=
  [.createIdleTask 0x100000 0, .createIdleTask 0x100000 0, .schedule {}, .blockCurrent, .unblockTask 1,
    .blockCurrent, .schedule {}, .createIdleTask 0x100000 0]

theorem blockedInFront_not_picked :
    ¬PicksRight (run step (Scheduler.new { mem := fun _ => 0 }) blockedInFront) := by
  intro h
  obtain ⟨pre, next, post, -, -, hp⟩ := h.foremost ⟨2, by decide, by decide⟩
  have hnone : (run step (Scheduler.new { mem := fun _ => 0 }) blockedInFront).pickNextTask.1 =
    none := by decide
  rw [hp] at hnone
  cases hnone

def Delivers (t : Task) (signal : Nat) : Prop := IsLeast (pending t \ blocked t : Set Nat) signal

def Halted (t : Task) : Prop := Delivers t sigkill ∨ Delivers t sigtstp ∨ t.state = .blocked ∨
    t.state = .terminated

/-- After a tick some task runs, and a current task that is halted has been replaced. -/
structure KeepsRunning (s s' : Scheduler) (r : TaskRef) : Prop where
  running : ∃ a, s'.current = some a ∧ (s'.cells a).state = .running
  replaced : Halted (s.cells r) → s'.current ≠ some r

/-- The task runs and no signal puts an end to that, or it is stopped and a signal lets it go on. -/
def GoesOn (t : Task) : Prop :=
  t.state = .running ∧ ¬Delivers t sigkill ∧ ¬Delivers t sigtstp ∨ Delivers t sigcont ∧
    t.foreground = .stopped

/-- The tick ends the turn of the current task. -/
def Reschedules (s : Scheduler) (r : TaskRef) : Prop :=
  s.needReschedule = true ∨ (s.cells r).timeSlice ≤ 1

/-- The queue starts with a task that cannot run, and all that can have the lowest priority. -/
def Stuck (s : Scheduler) (r : TaskRef) : Prop :=
  (∀ a ∈ s.readyQueue.head?, a ≠ r ∧ (s.cells a).state ≠ .ready) ∧ (s.cells r).priority = .low ∧
    ∀ a ∈ s.readyQueue, (s.cells a).state = .ready → (s.cells a).priority = .low

/-- Some queued task comes before the current one, which joins the queue at its end. -/
def Outranked (s : Scheduler) (r : TaskRef) : Prop :=
  ∃ pre a post, s.readyQueue = pre ++ a :: post ∧ a ≠ r ∧ (s.cells a).state = .ready ∧
    (∀ b ∈ pre, b = r ∨ (s.cells b).state = .ready → (s.cells b).priority < (s.cells a).priority) ∧
    ∀ b ∈ post ++ [r], b = r ∨ (s.cells b).state = .ready → (s.cells b).priority ≤ (s.cells a).priority

theorem popSignal_eq_some_iff {t : Task} {signal : Nat} :
    t.popSignal.1 = some signal ↔ Delivers t signal :=
  (popSignal_takes t).some_iff

theorem Delivers.unique {t : Task} {a b : Nat} (ha : Delivers t a) (hb : Delivers t b) : a = b :=
  IsLeast.unique ha hb

theorem deliverSignal_of_pop_none {t : Task} (h : t.popSignal.1 = none) :
    (deliverSignal t).1.state = t.state := by
  obtain ⟨mask, hpop⟩ := Signals.popSignal_only t
  have hpair : t.popSignal = (none, { t with pendingSignals := mask }) := Prod.ext h hpop
  rw [deliverSignal, hpair]
  split <;> rfl

theorem deliverSignal_running_iff (t : Task) : (deliverSignal t).1.state = .running ↔ GoesOn t := by
  obtain ⟨mask, hpop⟩ := Signals.popSignal_only t
  cases hsignal : t.popSignal.1 with
  | none =>
    have hnot (n : Nat) : ¬Delivers t n := fun h => by
      rw [popSignal_eq_some_iff.mpr h] at hsignal
      cases hsignal
    rw [deliverSignal_of_pop_none hsignal]
    constructor
    · exact fun h => .inl ⟨h, hnot _, hnot _⟩
    · rintro (⟨h, -⟩ | ⟨h, -⟩)
      · exact h
      · exact absurd h (hnot _)
  | some n =>
    have hn := popSignal_eq_some_iff.mp hsignal
    have hiff (m : Nat) : Delivers t m ↔ n = m := ⟨hn.unique, fun h => h ▸ hn⟩
    rw [deliverSignal_of_pop hsignal, hpop, GoesOn]
    simp only [hiff]
    split_ifs with hkill htstp hcont hstopped
    · simp [hkill, sigkill, sigcont]
    · simp [htstp, sigtstp, sigcont]
    · simp [hcont, hstopped]
    · simp [hcont, hstopped, sigkill, sigtstp, sigcont]
    · simp [hkill, htstp, hcont]

theorem GoesOn.halted_iff {t : Task} (h : GoesOn t) : Halted t ↔ t.state = .blocked ∨
    t.state = .terminated := by
  refine ⟨?_, fun h => .inr (.inr h)⟩
  rintro (hkill | htstp | hbefore)
  · obtain ⟨-, hnot, -⟩ | ⟨hcont, -⟩ := h
    · exact absurd hkill hnot
    · exact absurd (hkill.unique hcont) (by decide)
  · obtain ⟨-, -, hnot⟩ | ⟨hcont, -⟩ := h
    · exact absurd htstp hnot
    · exact absurd (htstp.unique hcont) (by decide)
  · exact hbefore

theorem deliverSignal_keeps (t : Task) :
    (deliverSignal t).1.priority = t.priority ∧ (deliverSignal t).1.timeSlice = t.timeSlice := by
  obtain ⟨pending, ht | ⟨-, ht⟩ | ht | ⟨-, -, ht⟩⟩ := deliverSignal_cases t
  all_goals
    rw [ht]
    exact ⟨rfl, rfl⟩

theorem schedule_nothing (hn : s.released.NothingToPick) (cpu : SavedRegisters) :
    s.schedule cpu = ({ s.released with current := s.current }, cpu) := by
  obtain ⟨-, hp⟩ | ⟨pre, next, post, -, -, -, hpicked⟩ := s.released.pickNextTask_cases
  · simp only [Scheduler.schedule, hp]
  · exact absurd hn hpicked

theorem schedule_picked (hn : ¬s.released.NothingToPick) (cpu : SavedRegisters) :
    ∃ next, (s.schedule cpu).1.current = some next ∧
      ((s.schedule cpu).1.cells next).state = .running := by
  obtain ⟨hnothing, -⟩ | ⟨pre, next, post, -, -, hp, -⟩ := s.released.pickNextTask_cases
  · exact absurd hnothing hn
  · obtain ⟨-, hcurrent, -, -, hcells⟩ := Scheduler.schedule_of_pick cpu hp
    obtain ⟨regs, hcell⟩ := hcells next
    refine ⟨next, hcurrent, ?_⟩
    rw [hcell, if_pos rfl]

theorem schedule_running_iff (hc : s.current = some r) (hrun : (s.cells r).state = .running)
    (cpu : SavedRegisters) :
    (∃ a, (s.schedule cpu).1.current = some a ∧ ((s.schedule cpu).1.cells a).state = .running) ↔
      ¬s.released.NothingToPick := by
  refine ⟨?_, fun hn => schedule_picked hn cpu⟩
  rintro ⟨a, ha, hstate⟩ hn
  rw [schedule_nothing hn] at ha hstate
  obtain rfl : r = a := Option.some.inj (hc.symm.trans ha)
  rw [Scheduler.released_cells, if_pos (Scheduler.mem_yielded.mpr ⟨hc, hrun⟩)] at hstate
  cases hstate

theorem released_ready_iff (hc : s.current = some r) (hrun : (s.cells r).state = .running)
    (a : TaskRef) : (s.released.cells a).state = .ready ↔ a = r ∨ (s.cells a).state = .ready := by
  rw [Scheduler.released_cells, Scheduler.yielded_of_running hc hrun]
  split_ifs with ha
  · exact iff_of_true rfl (.inl (List.mem_singleton.mp ha))
  · exact (or_iff_right fun heq => ha (List.mem_singleton.mpr heq)).symm

theorem released_priority (s : Scheduler) (a : TaskRef) :
    (s.released.cells a).priority = (s.cells a).priority := by
  rw [Scheduler.released_cells]
  split <;> rfl

theorem released_nothingToPick_iff (hc : s.current = some r) (hrun : (s.cells r).state = .running)
    (hne : s.readyQueue ≠ []) : s.released.NothingToPick ↔ Stuck s r := by
  have hyield := Scheduler.yielded_of_running hc hrun
  have hstate := released_ready_iff hc hrun
  have hpriority := released_priority s
  have hhead : s.released.readyQueue.head? = s.readyQueue.head? := by
    rw [Scheduler.released_readyQueue, List.head?_append_of_ne_nil _ hne]
  rw [Scheduler.NothingToPick, hhead, Scheduler.released_readyQueue]
  simp only [Stuck, ne_eq, hstate, hpriority, not_or, hyield, List.mem_append, List.mem_singleton]
  apply and_congr_right
  intro _
  constructor
  · intro h
    exact ⟨h r (.inr rfl) (.inl rfl), fun a ha hready => h a (.inl ha) (.inr hready)⟩
  · rintro ⟨hlow, hall⟩ a ha hready
    obtain rfl | hne := eq_or_ne a r
    · exact hlow
    · exact hall a (ha.resolve_right hne) (hready.resolve_left hne)

theorem foremost_unique {pre pre' post post' : List TaskRef} {a a' : TaskRef} (h : s.Foremost pre a post)
    (h' : s.Foremost pre' a' post') (hq : pre ++ a :: post = pre' ++ a' :: post') : a = a' := by
  obtain ⟨m, hpre, hrest⟩ | ⟨m, hpre, hrest⟩ := List.append_eq_append_iff.mp hq
  · cases m with
    | nil => exact (List.cons.inj hrest).1
    | cons x m =>
      obtain ⟨rfl, rfl⟩ := List.cons.inj hrest
      have hlt := h'.before a (by simp [hpre]) h.ready
      exact absurd (h.after a' (by simp) h'.ready) (not_le.mpr hlt)
  · cases m with
    | nil => exact (List.cons.inj hrest).1.symm
    | cons x m =>
      obtain ⟨rfl, rfl⟩ := List.cons.inj hrest
      have hlt := h.before a' (by simp [hpre]) h'.ready
      exact absurd (h'.after a (by simp) h.ready) (not_le.mpr hlt)

theorem schedule_replaces_iff (hc : s.current = some r) (hrun : (s.cells r).state = .running)
    (hn : ¬s.released.NothingToPick) (cpu : SavedRegisters) :
    (s.schedule cpu).1.current ≠ some r ↔ Outranked s r := by
  have hstate := released_ready_iff hc hrun
  have hpriority := released_priority s
  have hqueue : s.released.readyQueue = s.readyQueue ++ [r] := by
    rw [Scheduler.released_readyQueue, Scheduler.yielded_of_running hc hrun]
  obtain ⟨hnothing, -⟩ | ⟨pre, next, post, hq, hfirst, hp, -⟩ := s.released.pickNextTask_spec
  · exact absurd hnothing hn
  rw [(Scheduler.schedule_of_pick cpu hp).2.1, ne_eq, Option.some.injEq]
  rw [hqueue] at hq
  constructor
  · intro hne
    obtain rfl | ⟨post, x, rfl⟩ := List.eq_nil_or_concat' post
    · exact absurd (List.append_singleton_inj.mp hq).2.symm hne
    · rw [← List.cons_append, ← List.append_assoc] at hq
      obtain ⟨hfront, rfl⟩ := List.append_singleton_inj.mp hq
      refine ⟨pre, next, post, hfront, hne, ((hstate next).mp hfirst.ready).resolve_left hne,
        fun b hb hready => ?_, fun b hb hready => ?_⟩
      · rw [← hpriority, ← hpriority]
        exact hfirst.before b hb ((hstate b).mpr hready)
      · rw [← hpriority, ← hpriority]
        exact hfirst.after b hb ((hstate b).mpr hready)
  · rintro ⟨pre', a, post', hq', hne, hready, hbefore, hafter⟩ rfl
    have hfirst' : s.released.Foremost pre' a (post' ++ [next]) := by
      refine ⟨(hstate a).mpr (.inr hready), fun b hb hb' => ?_, fun b hb hb' => ?_⟩
      · rw [hpriority, hpriority]
        exact hbefore b hb ((hstate b).mp hb')
      · rw [hpriority, hpriority]
        exact hafter b hb ((hstate b).mp hb')
    have hsame : pre' ++ a :: (post' ++ [next]) = pre ++ next :: post := by
      rw [← hq, hq', List.append_assoc, List.cons_append]
    exact hne (foremost_unique hfirst' hfirst hsame)

theorem charge_reschedules_iff (s : Scheduler) (r : TaskRef) :
    (s.countTick.charge r (deliverSignal (s.cells r)).1).needReschedule = true ↔ Reschedules s r := by
  rw [Scheduler.charge_eq]
  simp only [consumeTick, (deliverSignal_keeps (s.cells r)).2, Scheduler.countTick_needReschedule,
    Bool.or_eq_true, decide_eq_true_eq, Reschedules]
  rw [or_comm, Nat.sub_eq_zero_iff_le]

theorem Stuck.congr {s' : Scheduler} (h : Stuck s r) (hq : s'.readyQueue = s.readyQueue)
    (hother : ∀ a ≠ r, s'.cells a = s.cells a) (hp : (s'.cells r).priority = (s.cells r).priority) :
    Stuck s' r := by
  obtain ⟨hfront, hlow, hall⟩ := h
  refine ⟨?_, hp.trans hlow, ?_⟩
  · intro a ha
    rw [hq] at ha
    obtain ⟨hne, hstate⟩ := hfront a ha
    rw [hother a hne]
    exact ⟨hne, hstate⟩
  · intro a ha hready
    rw [hq] at ha
    obtain rfl | hne := eq_or_ne a r
    · exact hp.trans hlow
    · rw [hother a hne] at hready ⊢
      exact hall a ha hready

theorem Outranked.congr {s' : Scheduler} (h : Outranked s r) (hq : s'.readyQueue = s.readyQueue)
    (hother : ∀ a ≠ r, s'.cells a = s.cells a) (hp : (s'.cells r).priority = (s.cells r).priority) :
    Outranked s' r := by
  have hpriority (b : TaskRef) : (s'.cells b).priority = (s.cells b).priority := by
    obtain rfl | hne := eq_or_ne b r
    · exact hp
    · rw [hother b hne]
  have hready {b : TaskRef} (hb : b = r ∨ (s'.cells b).state = .ready) :
      b = r ∨ (s.cells b).state = .ready := by
    obtain rfl | hne := eq_or_ne b r
    · exact .inl rfl
    · rwa [hother b hne] at hb
  obtain ⟨pre, a, post, hqueue, hne, hstate, hbefore, hafter⟩ := h
  refine ⟨pre, a, post, hq.trans hqueue, hne,
    by rw [hother a hne]; exact hstate, fun b hb hb' => ?_, fun b hb hb' => ?_⟩
  · rw [hpriority, hpriority]
    exact hbefore b hb (hready hb')
  · rw [hpriority, hpriority]
    exact hafter b hb (hready hb')

theorem charge_keeps (s : Scheduler) (r : TaskRef) :
    ∃ c, s.countTick.charge r (deliverSignal (s.cells r)).1 = c ∧
    c.current = s.current ∧ c.readyQueue = s.readyQueue ∧ (∀ a ≠ r, c.cells a = s.cells a) ∧
    (c.cells r).priority = (s.cells r).priority ∧
      (c.cells r).state = (deliverSignal (s.cells r)).1.state := by
  refine ⟨_, rfl, ?_⟩
  rw [Scheduler.charge_eq]
  refine ⟨rfl, rfl, fun a ha => by simp [ha], ?_, ?_⟩
  · rw [Scheduler.modify_cells, Function.update_self]
    exact (deliverSignal_keeps (s.cells r)).1
  · rw [Scheduler.modify_cells, Function.update_self]
    rfl

theorem scheduleIfNeeded_keepsRunning_iff {c : Scheduler} (hc : c.current = some r)
    (hrunning : (c.cells r).state = .running) (hne : c.readyQueue ≠ []) (cpu : SavedRegisters) :
    KeepsRunning s (c.scheduleIfNeeded cpu).1 r ↔ (c.needReschedule = true → ¬Stuck c r) ∧
      (Halted (s.cells r) → c.needReschedule = true ∧ Outranked c r) := by
  rw [Scheduler.scheduleIfNeeded]
  by_cases hresched : c.needReschedule = true
  · rw [if_pos hresched]
    have hnothing := released_nothingToPick_iff hc hrunning hne
    have hruns := schedule_running_iff hc hrunning cpu
    rw [hnothing] at hruns
    constructor
    · intro h
      have hfree := hruns.mp h.running
      exact ⟨fun _ => hfree, fun hhalted => ⟨hresched,
        (schedule_replaces_iff hc hrunning (mt hnothing.mp hfree) cpu).mp (h.replaced hhalted)⟩⟩
    · rintro ⟨hfree, hreplaced⟩
      refine ⟨hruns.mpr (hfree hresched), fun hhalted => ?_⟩
      exact (schedule_replaces_iff hc hrunning (mt hnothing.mp (hfree hresched)) cpu).mpr
        (hreplaced hhalted).2
  · rw [if_neg hresched]
    constructor
    · intro h
      exact ⟨fun hyes => absurd hyes hresched, fun hhalted => absurd hc (h.replaced hhalted)⟩
    · rintro ⟨-, hreplaced⟩
      exact ⟨⟨r, hc, hrunning⟩, fun hhalted => absurd (hreplaced hhalted).1 hresched⟩

/-- A tick leaves a task running exactly if the current one goes on, the queue does not hide the tasks
that could follow it, and a task that was blocked or terminated before is followed by another. -/
theorem tick_running_iff (he : s.preemptEnabled = true) (hc : s.current = some r)
    (hready : ∃ a ∈ s.readyQueue, (s.cells a).state = .ready) (cpu : SavedRegisters) :
    KeepsRunning s (s.tick cpu).1 r ↔ GoesOn (s.cells r) ∧ (Reschedules s r → ¬Stuck s r) ∧
      ((s.cells r).state = .blocked ∨ (s.cells r).state = .terminated → Reschedules s r ∧
        Outranked s r) := by
  obtain ⟨hoff, -⟩ | ⟨-, hnone, -⟩ | ⟨a, -, ha, hs⟩ := s.tick_cases cpu
  · rw [he] at hoff
    cases hoff
  · rw [hc] at hnone
    cases hnone
  obtain rfl : r = a := Option.some.inj (hc.symm.trans ha)
  simp only [ne_eq, deliverSignal_running_iff] at hs
  obtain ⟨hstop, hs⟩ | ⟨hgoes, hs⟩ := hs
  · -- the task stays current, and does not run
    refine iff_of_false (fun h => ?_) fun h => hstop h.1
    obtain ⟨a, ha, hstate⟩ := h.running
    rw [hs] at ha hstate
    obtain rfl : r = a := Option.some.inj (hc.symm.trans ha)
    rw [Scheduler.requestReschedule_cells, Scheduler.modify_cells, Function.update_self] at hstate
    exact hstop ((deliverSignal_running_iff _).mp hstate)
  · have hneed := charge_reschedules_iff s r
    obtain ⟨c, hcharge, hcurrent, hqueue, hother, hp, hstate⟩ := charge_keeps s r
    rw [hcharge] at hs hneed
    have hcurrent := hcurrent.trans hc
    have hrunning := hstate.trans ((deliverSignal_running_iff _).mpr hgoes)
    have hstuck : Stuck c r ↔ Stuck s r :=
      ⟨fun h => h.congr hqueue.symm (fun a ha => (hother a ha).symm) hp.symm,
        fun h => h.congr hqueue hother hp⟩
    have houtranked : Outranked c r ↔ Outranked s r :=
      ⟨fun h => h.congr hqueue.symm (fun a ha => (hother a ha).symm) hp.symm,
        fun h => h.congr hqueue hother hp⟩
    have hne : c.readyQueue ≠ [] := by
      obtain ⟨a, ha, -⟩ := hready
      rw [hqueue]
      exact List.ne_nil_of_mem ha
    rw [and_iff_right hgoes, hs, ← hneed, ← hstuck, ← houtranked, ← hgoes.halted_iff]
    exact scheduleIfNeeded_keepsRunning_iff hcurrent hrunning hne cpu

def firstRuns : List Op :=
  [.createKernelTask 0x100000 "first" 0, .createKernelTask 0x100000 "second" 0,
    .enablePreemption, .schedule {}]

theorem firstRuns_keepsRunning :
    KeepsRunning (run step (Scheduler.new { mem := fun _ => 0 }) firstRuns)
      ((run step (Scheduler.new { mem := fun _ => 0 }) firstRuns).tick {}).1 0 := by
  refine (tick_running_iff (by decide) (by decide) ⟨1, by decide, by decide⟩ {}).mpr
    ⟨.inl ⟨by decide, ?_, ?_⟩, ?_, ?_⟩
  · rw [← popSignal_eq_some_iff]
    decide
  · rw [← popSignal_eq_some_iff]
    decide
  · rintro (hneed | hslice)
    · exact absurd hneed (by decide)
    · exact absurd hslice (by decide)
  · exact fun h => absurd h (by decide)

/-- The kill signal is delivered, and the dead task stays the current one. -/
theorem firstRuns_killed : ∃ s, run step (Scheduler.new { mem := fun _ => 0 })
    (firstRuns ++ [.sendSignal 1 9]) = s ∧
    s.preemptEnabled = true ∧ s.current = some 0 ∧ (∃ a ∈ s.readyQueue, (s.cells a).state = .ready) ∧
    ¬KeepsRunning s (s.tick {}).1 0 := by
  refine ⟨_, rfl, by decide, by decide, ⟨1, by decide, by decide⟩, fun h => ?_⟩
  exact h.replaced (.inl (popSignal_eq_some_iff.mp (by decide))) (by decide)

end DeltaOS.Selection
