import DeltaOS.Runs
import DeltaOS.SchedSteps

namespace DeltaOS.SwitchPaths

open Kernel Tasks Sched Runs

inductive Path
  | cooperative
  | preemptive
deriving DecidableEq, Repr

structure Switch where
  task : TaskRef
  path : Path
  rsp : Word
deriving DecidableEq, Repr

/-- The processor registers before and after the operations that may run `context_switch`. -/
def cooperativeCall (s : Scheduler) : Op → Option (SavedRegisters × SavedRegisters)
  | .tick cpu => some (cpu, (s.tick cpu).2)
  | .schedule cpu => some (cpu, (s.schedule cpu).2)
  | .terminateCurrent exitCode cpu => some (cpu, (s.terminateCurrent exitCode cpu).2)
  | .yieldCurrent cpu => some (cpu, (s.yieldCurrent cpu).2)
  | _ => none

/-- The switch-out an operation performs. `context_switch` runs exactly when `schedule`
replaces the current task; a timer interrupt always records the current one. -/
def switchOut (s : Scheduler) : Op → Option Switch
  | .preemptSchedule rsp =>
    if s.preemptEnabled then s.current.map fun r => ⟨r, .preemptive, rsp⟩ else none
  | op =>
    if (step s op).current = s.current then none
    else (cooperativeCall s op).bind fun c => s.current.map fun r => ⟨r, .cooperative, c.1.rsp⟩

def switchIn (s : Scheduler) : Op → Option Switch
  | .preemptSchedule rsp =>
    if s.preemptEnabled then
      (s.preemptSchedule rsp).1.current.map fun r => ⟨r, .preemptive, (s.preemptSchedule rsp).2⟩
    else none
  | op =>
    if (step s op).current = s.current then none
    else (cooperativeCall s op).bind fun c =>
      (step s op).current.map fun r => ⟨r, .cooperative, c.2.rsp⟩

/-- The scheduler together with the most recent switch-out of every task. -/
structure History where
  sched : Scheduler
  lastOut : TaskRef → Option (Path × Word)

def History.start (g : Statics) : History := ⟨Scheduler.new g, fun _ => none⟩

def record (lastOut : TaskRef → Option (Path × Word)) : Option Switch → TaskRef → Option (Path × Word)
  | none => lastOut
  | some out => Function.update lastOut out.task (some (out.path, out.rsp))

def History.step (h : History) (op : Op) : History :=
  ⟨Sched.step h.sched op, record h.lastOut (switchOut h.sched op)⟩

/-- A task that was switched out before gets the stack pointer recorded then. -/
def ResumesLatest (h : History) (op : Op) : Prop :=
  ∀ sw, switchIn h.sched op = some sw →
    ∀ q rsp, (h.step op).lastOut sw.task = some (q, rsp) → sw.rsp = rsp

/-- A task is resumed by the path that switched it out last, or its two saved stack
pointers agree. -/
def ResumesBySamePath (h : History) (op : Op) : Prop :=
  ∀ sw, switchIn h.sched op = some sw →
    ∀ q rsp, (h.step op).lastOut sw.task = some (q, rsp) →
      q = sw.path ∨ (h.sched.cells sw.task).regs.rsp = (h.sched.cells sw.task).savedRsp

variable {s s' : Scheduler}

def Path.pointer : Path → Task → Word
  | .cooperative, t => t.regs.rsp
  | .preemptive, t => t.savedRsp

def SamePointers (t t' : Task) : Prop := t'.regs = t.regs ∧ t'.savedRsp = t.savedRsp

/-- What a call that may run `context_switch` does to the saved stack pointers. -/
structure Cooperative (s : Scheduler) (cpu : SavedRegisters) (x : Scheduler × SavedRegisters) :
    Prop where
  savedRsp : ∀ r, (x.1.cells r).savedRsp = (s.cells r).savedRsp
  regs : ∀ r, (x.1.cells r).regs =
    if x.1.current ≠ s.current ∧ s.current = some r then cpu else (s.cells r).regs
  loaded : ∀ r, x.1.current = some r → x.1.current ≠ s.current → x.2 = (s.cells r).regs

theorem released_pointers (s : Scheduler) (r : TaskRef) :
    SamePointers (s.cells r) (s.released.cells r) := by
  rw [Scheduler.released_cells]
  split <;> exact ⟨rfl, rfl⟩

theorem dispatch_pointers (s : Scheduler) (next r : TaskRef) :
    SamePointers (s.cells r) ((s.dispatch next).cells r) := by
  rw [Scheduler.dispatch_cells_apply]
  split
  · next h => rw [h]; exact ⟨rfl, rfl⟩
  · exact ⟨rfl, rfl⟩

theorem cooperative_schedule (s : Scheduler) (cpu : SavedRegisters) :
    Cooperative s cpu (s.schedule cpu) := by
  obtain ⟨-, hs⟩ | ⟨pre, next, post, hq, hready, hs⟩ := s.schedule_cases cpu
  · rw [hs]
    exact ⟨fun r => (released_pointers s r).2, fun r => by simpa using (released_pointers s r).1,
      fun r _ hne => absurd rfl hne⟩
  · have hd : ∀ r, SamePointers (s.cells r)
        ((Scheduler.dispatch { s.released with readyQueue := pre ++ post } next).cells r) := by
      intro r
      have hp := dispatch_pointers { s.released with readyQueue := pre ++ post } next r
      exact ⟨hp.1.trans (released_pointers s r).1, hp.2.trans (released_pointers s r).2⟩
    obtain ⟨hc, hs⟩ | ⟨hc, hs⟩ := hs
    · rw [hs]
      have hcur : (Scheduler.dispatch { s.released with readyQueue := pre ++ post } next).current =
          s.current := hc.symm
      refine ⟨fun r => (hd r).2, fun r => ?_, fun r _ hne => absurd hcur hne⟩
      rw [if_neg fun h => h.1 hcur]
      exact (hd r).1
    · rw [hs]
      have hcur : some next ≠ s.current := Ne.symm hc
      refine ⟨?_, ?_, ?_⟩
      · intro r
        rw [Scheduler.countSwitch_cells]
        dsimp only
        split <;> exact (hd r).2
      · intro r
        rw [Scheduler.countSwitch_cells]
        by_cases hr : s.current = some r
        · have hne : (some next : Option TaskRef) ≠ some r := fun he => hcur (he.trans hr.symm)
          simp [hr, hne]
        · simpa [hr] using (hd r).1
      · intro r hr _
        obtain rfl : next = r := by simpa using hr
        rfl

theorem Cooperative.of_base {cpu : SavedRegisters} {x : Scheduler × SavedRegisters}
    (h : Cooperative s' cpu x) (hc : s'.current = s.current)
    (hp : ∀ r, SamePointers (s.cells r) (s'.cells r)) : Cooperative s cpu x where
  savedRsp r := (h.savedRsp r).trans (hp r).2
  regs r := by rw [h.regs r, hc, (hp r).1]
  loaded r hr hne := by rw [h.loaded r hr (hc ▸ hne), (hp r).1]

theorem cooperative_refl (cpu : SavedRegisters) (hc : s'.current = s.current)
    (hp : ∀ r, SamePointers (s.cells r) (s'.cells r)) : Cooperative s cpu (s', cpu) where
  savedRsp r := (hp r).2
  regs r := by simp [hc, (hp r).1]
  loaded _ _ hne := absurd hc hne

theorem update_pointers {r : TaskRef} {u : Task}
    (hcells : s'.cells = Function.update s.cells r u) (hu : SamePointers (s.cells r) u) (a : TaskRef) :
    SamePointers (s.cells a) (s'.cells a) := by
  rw [hcells]
  by_cases ha : a = r
  · subst a
    simpa using hu
  · simp [ha, SamePointers]

theorem sendSignal_pointers (t : Task) (signal : Nat) : SamePointers t (t.sendSignal signal) := by
  unfold Task.sendSignal
  split <;> exact ⟨rfl, rfl⟩

theorem deliverSignal_pointers (t : Task) : SamePointers t (deliverSignal t).1 := by
  obtain ⟨pending, h | ⟨-, h⟩ | h | ⟨-, -, h⟩⟩ := deliverSignal_cases t
  all_goals
    rw [h]
    exact ⟨rfl, rfl⟩

theorem cooperative_scheduleIfNeeded (s : Scheduler) (cpu : SavedRegisters) :
    Cooperative s cpu (s.scheduleIfNeeded cpu) :=
  s.scheduleIfNeeded_cases (cooperative_schedule s cpu) (cooperative_refl cpu rfl fun _ => ⟨rfl, rfl⟩)

theorem cooperative_tick (s : Scheduler) (cpu : SavedRegisters) : Cooperative s cpu (s.tick cpu) := by
  obtain ⟨-, hs⟩ | ⟨-, -, hs⟩ | ⟨r, -, -, ⟨-, hs⟩ | ⟨-, hs⟩⟩ := s.tick_cases cpu
  · rw [hs]
    exact cooperative_refl cpu rfl fun _ => ⟨rfl, rfl⟩
  · rw [hs]
    exact (cooperative_scheduleIfNeeded s.countTick cpu).of_base rfl fun _ => ⟨rfl, rfl⟩
  · rw [hs]
    exact cooperative_refl cpu rfl (update_pointers rfl (deliverSignal_pointers (s.cells r)))
  · rw [hs, Scheduler.charge_eq]
    exact (cooperative_scheduleIfNeeded _ cpu).of_base rfl
      (update_pointers rfl (deliverSignal_pointers (s.cells r)))

theorem cooperative_terminateCurrent (s : Scheduler) (exitCode : Int) (cpu : SavedRegisters) :
    Cooperative s cpu (s.terminateCurrent exitCode cpu) := by
  refine (cooperative_schedule _ cpu).of_base ?_ ?_
  · split <;> rfl
  · split
    · exact fun _ => ⟨rfl, rfl⟩
    · next r hr => exact update_pointers rfl ⟨rfl, rfl⟩

theorem cooperativeCall_spec {op : Op} {c : SavedRegisters × SavedRegisters}
    (h : cooperativeCall s op = some c) : Cooperative s c.1 (step s op, c.2) := by
  cases op with
  | tick cpu =>
    obtain rfl : _ = c := Option.some.inj h
    exact cooperative_tick s cpu
  | schedule cpu =>
    obtain rfl : _ = c := Option.some.inj h
    exact cooperative_schedule s cpu
  | terminateCurrent exitCode cpu =>
    obtain rfl : _ = c := Option.some.inj h
    exact cooperative_terminateCurrent s exitCode cpu
  | yieldCurrent cpu =>
    obtain rfl : _ = c := Option.some.inj h
    exact (cooperative_schedule s.requestReschedule cpu).of_base rfl fun _ => ⟨rfl, rfl⟩
  | _ => cases h

theorem cooperativeCall_nextRef {op : Op} {c : SavedRegisters × SavedRegisters}
    (h : cooperativeCall s op = some c) : (step s op).nextRef = s.nextRef := by
  cases op with
  | tick cpu => exact tick_nextRef s cpu
  | schedule cpu => exact Scheduler.schedule_nextRef s cpu
  | terminateCurrent exitCode cpu =>
    simp only [step, Scheduler.terminateCurrent, Scheduler.schedule_nextRef]
    split <;> rfl
  | yieldCurrent cpu => exact Scheduler.schedule_nextRef s.requestReschedule cpu
  | _ => cases h

theorem preemptSchedule_pointers (he : s.preemptEnabled = true) (rsp : Word) (r : TaskRef) :
    ((s.preemptSchedule rsp).1.cells r).regs = (s.cells r).regs ∧
      ((s.preemptSchedule rsp).1.cells r).savedRsp =
        if s.current = some r then rsp else (s.cells r).savedRsp := by
  have hsave : ((s.saveCurrent rsp).cells r).regs = (s.cells r).regs ∧
      ((s.saveCurrent rsp).cells r).savedRsp =
        if s.current = some r then rsp else (s.cells r).savedRsp := by
    rw [Scheduler.saveCurrent_eq]
    dsimp only
    split <;> exact ⟨rfl, rfl⟩
  obtain ⟨-, hs⟩ | ⟨pre, next, post, -, -, -, hs⟩ := Scheduler.preemptSchedule_cases he rsp
  · rw [hs, Scheduler.restoreCurrent_eq]
    dsimp only
    split <;> exact hsave
  · have hd := dispatch_pointers { s.saveCurrent rsp with readyQueue := pre ++ post } next r
    rw [hs]
    exact ⟨hd.1.trans hsave.1, hd.2.trans hsave.2⟩

theorem preemptSchedule_loads (he : s.preemptEnabled = true) (rsp : Word) {r : TaskRef}
    (hr : (s.preemptSchedule rsp).1.current = some r) :
    (s.preemptSchedule rsp).2 = ((s.preemptSchedule rsp).1.cells r).savedRsp := by
  have hptr := (preemptSchedule_pointers he rsp r).2
  obtain ⟨-, hs⟩ | ⟨pre, next, post, -, -, -, hs⟩ := Scheduler.preemptSchedule_cases he rsp
  · rw [hs, Scheduler.restoreCurrent_eq, Scheduler.saveCurrent_eq] at hr
    rw [hptr, if_pos hr, hs]
  · rw [hs] at hr ⊢
    obtain rfl : next = r := by simpa using hr
    exact (dispatch_pointers { s.saveCurrent rsp with readyQueue := pre ++ post } next next).2.symm

theorem steps_pointers_of_quiet {op : Op} (hs : Steps s op s') (hop : ∀ rsp, op ≠ .preemptSchedule rsp)
    (hc : cooperativeCall s op = none) {r : TaskRef} (hr : r < s.nextRef) :
    SamePointers (s.cells r) (s'.cells r) := by
  cases hs with
  | unchanged => exact ⟨rfl, rfl⟩
  | created =>
    rw [Scheduler.addTask_cells_of_ne _ _ hr.ne]
    exact ⟨rfl, rfl⟩
  | tick | schedule | yieldCurrent | terminateNone | terminateCurrent => cases hc
  | preemptSchedule rsp => exact absurd rfl (hop rsp)
  | blockCurrent => exact update_pointers rfl (by exact ⟨rfl, rfl⟩) r
  | unblockTask => exact update_pointers rfl (by exact ⟨rfl, rfl⟩) r
  | terminateTask => exact update_pointers rfl (by exact ⟨rfl, rfl⟩) r
  | @sendSignal taskId signal =>
    exact update_pointers (u := Task.sendSignal _ signal) rfl (sendSignal_pointers _ _) r
  | backgroundTask =>
    refine update_pointers rfl ?_ r
    exact ⟨(sendSignal_pointers _ _).1, (sendSignal_pointers _ _).2⟩
  | foregroundTask => exact update_pointers rfl (by exact ⟨rfl, rfl⟩) r
  | cleanupTerminated =>
    rw [Scheduler.cleanupTerminated, Scheduler.foldl_retain]
    exact ⟨rfl, rfl⟩
  | enablePreemption => exact ⟨rfl, rfl⟩
  | disablePreemption => exact ⟨rfl, rfl⟩

theorem step_pointers_of_quiet {op : Op} (hop : ∀ rsp, op ≠ .preemptSchedule rsp)
    (hc : cooperativeCall s op = none) {r : TaskRef} (hr : r < s.nextRef) :
    SamePointers (s.cells r) ((step s op).cells r) := steps_pointers_of_quiet (step_steps s op) hop hc hr

theorem switchOut_eq {op : Op} (hop : ∀ rsp, op ≠ .preemptSchedule rsp) :
    switchOut s op = if (step s op).current = s.current then none
      else (cooperativeCall s op).bind fun c => s.current.map fun r => ⟨r, .cooperative, c.1.rsp⟩ := by
  cases op with
  | preemptSchedule rsp => exact absurd rfl (hop rsp)
  | _ => rfl

theorem switchIn_eq {op : Op} (hop : ∀ rsp, op ≠ .preemptSchedule rsp) :
    switchIn s op = if (step s op).current = s.current then none
      else (cooperativeCall s op).bind fun c =>
        (step s op).current.map fun r => ⟨r, .cooperative, c.2.rsp⟩ := by
  cases op with
  | preemptSchedule rsp => exact absurd rfl (hop rsp)
  | _ => rfl

/-- A step changes the saved stack pointers of a task only by switching it out, and then
only the one of the path it takes. -/
theorem step_pointers (op : Op) {r : TaskRef} (hr : r < s.nextRef) :
    (SamePointers (s.cells r) ((step s op).cells r) ∧ ∀ out, switchOut s op = some out → out.task ≠ r) ∨
      ∃ out, switchOut s op = some out ∧ out.task = r ∧
        out.path.pointer ((step s op).cells r) = out.rsp := by
  by_cases hop : ∃ rsp, op = .preemptSchedule rsp
  · obtain ⟨rsp, rfl⟩ := hop
    cases he : s.preemptEnabled with
    | false =>
      refine .inl ⟨?_, by simp [switchOut, he]⟩
      simp only [step, Scheduler.preemptSchedule_disabled he]
      exact ⟨rfl, rfl⟩
    | true =>
      obtain ⟨hregs, hrsp⟩ := preemptSchedule_pointers he rsp r
      by_cases hc : s.current = some r
      · rw [if_pos hc] at hrsp
        exact .inr ⟨⟨r, .preemptive, rsp⟩, by simp [switchOut, he, hc], rfl, hrsp⟩
      · rw [if_neg hc] at hrsp
        refine .inl ⟨⟨hregs, hrsp⟩, ?_⟩
        intro out hout htask
        obtain ⟨c, hc', rfl⟩ : ∃ c, s.current = some c ∧ _ = out := by
          simpa [switchOut, he] using hout
        exact hc (hc'.trans (congrArg some htask))
  · have hop' : ∀ rsp, op ≠ .preemptSchedule rsp := fun rsp h => hop ⟨rsp, h⟩
    rw [switchOut_eq hop']
    cases hcall : cooperativeCall s op with
    | none =>
      exact .inl ⟨step_pointers_of_quiet hop' hcall hr, by simp⟩
    | some c =>
      have hspec := cooperativeCall_spec hcall
      have hregs := hspec.regs r
      dsimp only at hregs
      by_cases hsw : (step s op).current ≠ s.current ∧ s.current = some r
      · rw [if_pos hsw] at hregs
        refine .inr ⟨⟨r, .cooperative, c.1.rsp⟩, ?_, rfl, ?_⟩
        · rw [if_neg hsw.1, hsw.2]
          rfl
        · exact congrArg SavedRegisters.rsp hregs
      · rw [if_neg hsw] at hregs
        refine .inl ⟨⟨hregs, hspec.savedRsp r⟩, ?_⟩
        intro out hout htask
        split at hout
        · cases hout
        · next hne =>
          obtain ⟨a, ha, rfl⟩ : ∃ a, s.current = some a ∧ _ = out := by simpa using hout
          exact hsw ⟨hne, ha.trans (congrArg some htask)⟩

/-- The stack pointer loaded for a task is the one its path keeps, and the task was either
left alone by the step or switched out by that same path. -/
theorem switchIn_spec (hb : s.Bounded) {op : Op} {sw : Switch} (h : switchIn s op = some sw) :
    sw.task < s.nextRef ∧ sw.rsp = sw.path.pointer ((step s op).cells sw.task) ∧
      ∀ out, switchOut s op = some out → out.task = sw.task → out.path = sw.path := by
  by_cases hop : ∃ rsp, op = .preemptSchedule rsp
  · obtain ⟨rsp, rfl⟩ := hop
    cases he : s.preemptEnabled with
    | false => simp [switchIn, he] at h
    | true =>
      obtain ⟨r, hr, rfl⟩ : ∃ r, (s.preemptSchedule rsp).1.current = some r ∧ _ = sw := by
        simpa [switchIn, he] using h
      refine ⟨?_, preemptSchedule_loads he rsp hr, ?_⟩
      · have hlt := hb.preemptSchedule rsp r (.inr (.inl hr))
        rwa [preemptSchedule_nextRef] at hlt
      · intro out hout _
        obtain ⟨c, -, rfl⟩ : ∃ c, s.current = some c ∧ _ = out := by
          simpa [switchOut, he] using hout
        rfl
  · have hop' : ∀ rsp, op ≠ .preemptSchedule rsp := fun rsp h => hop ⟨rsp, h⟩
    rw [switchIn_eq hop'] at h
    split at h
    · cases h
    · next hne =>
      obtain ⟨c, hcall, r, hr, rfl⟩ : ∃ c, cooperativeCall s op = some c ∧
          ∃ r, (step s op).current = some r ∧ _ = sw := by
        simpa only [Option.bind_eq_some_iff, Option.map_eq_some_iff] using h
      have hspec := cooperativeCall_spec hcall
      have hcur : s.current ≠ some r := fun hc => hne (hr.trans hc.symm)
      have hregs : ((step s op).cells r).regs = (s.cells r).regs :=
        (hspec.regs r).trans (if_neg fun hsw => hcur hsw.2)
      refine ⟨?_, ?_, ?_⟩
      · have hlt := bounded_step hb op r (.inr (.inl hr))
        rwa [cooperativeCall_nextRef hcall] at hlt
      · have hload : c.2 = (s.cells r).regs := hspec.loaded r hr hne
        simp only [Path.pointer, hload, hregs]
      · intro out hout htask
        rw [switchOut_eq hop', if_neg hne, hcall] at hout
        obtain ⟨a, ha, rfl⟩ : ∃ a, s.current = some a ∧ _ = out := by simpa using hout
        rfl

structure Consistent (h : History) : Prop where
  bounded : h.sched.Bounded
  recorded : ∀ r q rsp, h.lastOut r = some (q, rsp) →
    r < h.sched.nextRef ∧ q.pointer (h.sched.cells r) = rsp

theorem consistent_start (g : Statics) : Consistent (History.start g) :=
  ⟨bounded_new g, fun _ _ _ h => by cases h⟩

theorem switchOut_current {op : Op} {out : Switch} (h : switchOut s op = some out) :
    s.current = some out.task := by
  by_cases hop : ∃ rsp, op = .preemptSchedule rsp
  · obtain ⟨rsp, rfl⟩ := hop
    cases he : s.preemptEnabled with
    | false => simp [switchOut, he] at h
    | true =>
      obtain ⟨c, hc, rfl⟩ : ∃ c, s.current = some c ∧ _ = out := by simpa [switchOut, he] using h
      exact hc
  · rw [switchOut_eq fun rsp h => hop ⟨rsp, h⟩] at h
    split at h
    · cases h
    · obtain ⟨c, -, a, ha, rfl⟩ : ∃ c, cooperativeCall s op = some c ∧
          ∃ a, s.current = some a ∧ _ = out := by
        simpa only [Option.bind_eq_some_iff, Option.map_eq_some_iff] using h
      exact ha

variable {h : History}

theorem Path.pointer_congr {t t' : Task} (hp : SamePointers t t') (q : Path) :
    q.pointer t' = q.pointer t := by
  cases q with
  | cooperative => exact congrArg SavedRegisters.rsp hp.1
  | preemptive => exact hp.2

theorem Consistent.step (hh : Consistent h) (op : Op) : Consistent (h.step op) := by
  refine ⟨bounded_step hh.bounded op, ?_⟩
  intro r q rsp hout
  change record h.lastOut (switchOut h.sched op) r = some (q, rsp) at hout
  cases hsw : switchOut h.sched op with
  | none =>
    rw [hsw] at hout
    obtain ⟨hlt, hptr⟩ := hh.recorded r q rsp hout
    refine ⟨hlt.trans_le (nextRef_le_step h.sched op), ?_⟩
    obtain ⟨hsame, -⟩ | ⟨out, ho, -⟩ := step_pointers op hlt
    · exact (Path.pointer_congr hsame q).trans hptr
    · rw [hsw] at ho
      cases ho
  | some out =>
    have hlt : out.task < h.sched.nextRef := hh.bounded _ (.inr (.inl (switchOut_current hsw)))
    rw [hsw] at hout
    by_cases hr : r = out.task
    · subst r
      obtain ⟨rfl, rfl⟩ : out.path = q ∧ out.rsp = rsp := by simpa [record] using hout
      refine ⟨hlt.trans_le (nextRef_le_step h.sched op), ?_⟩
      obtain ⟨-, hno⟩ | ⟨out', ho, -, hptr⟩ := step_pointers op hlt
      · exact absurd rfl (hno out hsw)
      · obtain rfl : out = out' := Option.some.inj (hsw.symm.trans ho)
        exact hptr
    · have hold : h.lastOut r = some (q, rsp) := by simpa [record, hr] using hout
      obtain ⟨hlt', hptr⟩ := hh.recorded r q rsp hold
      refine ⟨hlt'.trans_le (nextRef_le_step h.sched op), ?_⟩
      obtain ⟨hsame, -⟩ | ⟨out', ho, ht, -⟩ := step_pointers op hlt'
      · exact (Path.pointer_congr hsame q).trans hptr
      · obtain rfl : out = out' := Option.some.inj (hsw.symm.trans ho)
        exact absurd ht.symm hr

theorem Path.pointer_eq_iff {p q : Path} (hne : q ≠ p) (t : Task) :
    p.pointer t = q.pointer t ↔ t.regs.rsp = t.savedRsp := by
  cases p <;> cases q <;> simp_all [Path.pointer, eq_comm]

theorem resumesLatest_iff (hh : Consistent h) (op : Op) :
    ResumesLatest h op ↔ ResumesBySamePath h op := by
  refine forall₂_congr fun sw hin => forall₃_congr fun q rsp hout => ?_
  obtain ⟨hlt, hload, hpath⟩ := switchIn_spec hh.bounded hin
  obtain ⟨-, hptr⟩ := (hh.step op).recorded sw.task q rsp hout
  change q.pointer ((Sched.step h.sched op).cells sw.task) = rsp at hptr
  by_cases hq : q = sw.path
  · subst q
    exact iff_of_true (hload.trans hptr) (.inl rfl)
  · obtain ⟨hsame, -⟩ | ⟨out, ho, ht, -⟩ := step_pointers op hlt
    · rw [hload, ← hptr, Path.pointer_eq_iff hq, hsame.1, hsame.2]
      simp [hq]
    · have hrec : (h.step op).lastOut sw.task = some (out.path, out.rsp) := by
        simp [History.step, record, ho, ht]
      have hqo : q = out.path := by
        rw [hout] at hrec
        exact congrArg Prod.fst (Option.some.inj hrec)
      exact absurd (hqo.trans (hpath out ho ht)) hq

/-- Every resumption of a run loads the most recently recorded stack pointer exactly when
no task is resumed by one path after it was last switched out by the other. -/
theorem resumesLatest_iff_samePath (g : Statics) (ops : List Op) :
    Guarded History.step ResumesLatest (History.start g) ops ↔
      Guarded History.step ResumesBySamePath (History.start g) ops :=
  guarded_congr (fun _ op hh => hh.step op) (fun _ op hh => resumesLatest_iff hh op)
    (consistent_start g)

def yieldThenPreempt : List Op :=
  [.createKernelTask 0x101000 "demo" 0, .createKernelTask 0x102000 "counter" 0, .enablePreemption,
    .schedule { rsp := 0x180000 }, .yieldCurrent { rsp := 0xA0F000 }, .preemptSchedule 0xA1F000]

theorem yieldThenPreempt_resumes_stale :
    ¬Guarded History.step ResumesLatest (History.start { mem := fun _ => 0 }) yieldThenPreempt := by
  rintro ⟨-, -, -, -, -, h, -⟩
  exact absurd (h ⟨0, .preemptive, 0xA0FF48⟩ (by decide) .cooperative 0xA0F000 (by decide)) (by decide)

end DeltaOS.SwitchPaths
