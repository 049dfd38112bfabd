import DeltaOS.Sched

namespace DeltaOS.Sched

open Kernel Tasks

theorem popSignal_eq (t : Task) : ∃ pending, t.popSignal.2 = { t with pendingSignals := pending } := by
  rw [Task.popSignal]
  dsimp only
  split_ifs
  · exact ⟨t.pendingSignals, rfl⟩
  · exact ⟨_, rfl⟩

theorem popSignal_of_pending_zero {t : Task} (h : t.pendingSignals = 0) : t.popSignal.1 = none := by
  simp [Task.popSignal, h]

theorem deliverSignal_of_pop {t : Task} {signal : Nat} (h : t.popSignal.1 = some signal) :
    deliverSignal t =
      if signal = sigkill then ({ t.popSignal.2 with state := .terminated, exitCode := -9 }, true)
      else if signal = sigtstp then ({ t.popSignal.2 with foreground := .stopped, state := .blocked },
        true)
      else if signal = sigcont then
        if t.popSignal.2.foreground = .stopped then
          ({ t.popSignal.2 with foreground := .background, state := .running }, false)
        else (t.popSignal.2, false)
      else (t.popSignal.2, false) := by
  have hpending : t.pendingSignals ≠ 0 := by
    intro hzero
    rw [popSignal_of_pending_zero hzero] at h
    cases h
  rw [deliverSignal, if_neg hpending]
  cases hpop : t.popSignal with
  | mk popped t' =>
    rw [hpop] at h
    obtain rfl : popped = some signal := h
    rfl

/-- The outcomes of the signal handling: nothing happens, the task is killed or stopped, or a
stopped task goes on. -/
theorem deliverSignal_cases (t : Task) : ∃ pending,
    deliverSignal t = ({ t with pendingSignals := pending }, false) ∨
    t.popSignal.1 = some sigkill ∧ deliverSignal t =
      ({ t with pendingSignals := pending, state := .terminated, exitCode := -9 }, true) ∨
    deliverSignal t =
      ({ t with pendingSignals := pending, foreground := .stopped, state := .blocked }, true) ∨
    t.foreground = .stopped ∧ t.popSignal.1 = some sigcont ∧ deliverSignal t =
      ({ t with pendingSignals := pending, foreground := .background, state := .running }, false) := by
  obtain ⟨pending, hpop⟩ := popSignal_eq t
  cases hsignal : t.popSignal with
  | mk signal t' =>
    rw [hsignal] at hpop
    obtain rfl : t' = _ := hpop
    rw [deliverSignal, hsignal]
    split_ifs
    · exact ⟨t.pendingSignals, .inl rfl⟩
    · refine ⟨pending, ?_⟩
      cases signal with
      | none => exact .inl rfl
      | some signal =>
        dsimp only
        split_ifs with hkill _ hcont hstopped
        · exact .inr (.inl ⟨congrArg some hkill, rfl⟩)
        · exact .inr (.inr (.inl rfl))
        · exact .inr (.inr (.inr ⟨hstopped, congrArg some hcont, rfl⟩))
        · exact .inl rfl
        · exact .inl rfl

theorem deliverSignal_flagged {t : Task} (h : (deliverSignal t).2 = true) :
    (deliverSignal t).1.state ≠ .running := by
  obtain ⟨pending, ht | ⟨-, ht⟩ | ht | ⟨-, -, ht⟩⟩ := deliverSignal_cases t
  · rw [ht] at h
    cases h
  · rw [ht]
    exact nofun
  · rw [ht]
    exact nofun
  · rw [ht] at h
    cases h

theorem deliverSignal_of_pending_zero {t : Task} (h : t.pendingSignals = 0) :
    deliverSignal t = (t, false) := by
  rw [deliverSignal, if_pos h]

namespace Scheduler

/-- The scan ends at the first ready task of the highest priority, if that priority is above
the one it starts with. -/
theorem scanStep_foldl_spec (cells : TaskRef → Task) (queue : List TaskRef) (n : Nat)
    (best : Nat × TaskPriority) :
    let b := (queue.zipIdx n).foldl (scanStep cells) best
    (b = best ∧ ∀ r ∈ queue, (cells r).state = .ready → (cells r).priority ≤ best.2) ∨
      (best.2 < b.2 ∧ ∃ pre next post, queue = pre ++ next :: post ∧ b.1 = n + pre.length ∧
        (cells next).state = .ready ∧ (cells next).priority = b.2 ∧
        (∀ r ∈ pre, (cells r).state = .ready → (cells r).priority < b.2) ∧
        ∀ r ∈ post, (cells r).state = .ready → (cells r).priority ≤ b.2) := by
  induction queue generalizing n best with
  | nil => exact .inl ⟨rfl, by simp⟩
  | cons a queue ih =>
    simp only [List.zipIdx_cons, List.foldl_cons]
    by_cases ha : (cells a).state = .ready ∧ (cells a).priority > best.2
    · have hs : scanStep cells best (a, n) = (n, (cells a).priority) := if_pos ha
      rw [hs]
      right
      obtain ⟨he, hall⟩ | ⟨hlt, pre, next, post, rfl, hb, hr, hp, hpre, hpost⟩ :=
        ih (n + 1) (n, (cells a).priority)
      · rw [he]
        exact ⟨ha.2, [], a, queue, rfl, rfl, ha.1, rfl, by simp, hall⟩
      · refine ⟨lt_trans ha.2 hlt, a :: pre, next, post, rfl, ?_, hr, hp, ?_, hpost⟩
        · rw [hb, List.length_cons]
          omega
        · exact List.forall_mem_cons.mpr ⟨fun _ => hlt, hpre⟩
    · have hs : scanStep cells best (a, n) = best := if_neg ha
      have hle : (cells a).state = .ready → (cells a).priority ≤ best.2 := fun hready =>
        le_of_not_gt fun hgt => ha ⟨hready, hgt⟩
      rw [hs]
      obtain ⟨he, hall⟩ | ⟨hlt, pre, next, post, rfl, hb, hr, hp, hpre, hpost⟩ := ih (n + 1) best
      · exact .inl ⟨he, List.forall_mem_cons.mpr ⟨hle, hall⟩⟩
      · refine .inr ⟨hlt, a :: pre, next, post, rfl, ?_, hr, hp, ?_, hpost⟩
        · rw [hb, List.length_cons]
          omega
        · exact List.forall_mem_cons.mpr ⟨fun hready => (hle hready).trans_lt hlt, hpre⟩

/-- The queues on which `pick_next_task` gives up: the default candidate at the front is
not ready, and no ready task has more than the lowest priority. -/
def NothingToPick (s : Scheduler) : Prop :=
  (∀ r ∈ s.readyQueue.head?, (s.cells r).state ≠ .ready) ∧
    ∀ r ∈ s.readyQueue, (s.cells r).state = .ready → (s.cells r).priority = .low

theorem low_le (p : TaskPriority) : .low ≤ p := by
  cases p <;> decide

/-- The task between `pre` and `post` is the earliest of the ready tasks of the highest priority. -/
structure Foremost (s : Scheduler) (pre : List TaskRef) (next : TaskRef)
    (post : List TaskRef) : Prop where
  ready : (s.cells next).state = .ready
  before : ∀ r ∈ pre, (s.cells r).state = .ready → (s.cells r).priority < (s.cells next).priority
  after : ∀ r ∈ post, (s.cells r).state = .ready → (s.cells r).priority ≤ (s.cells next).priority

theorem pickNextTask_spec (s : Scheduler) :
    (s.NothingToPick ∧ s.pickNextTask = (none, s)) ∨
      ∃ pre next post, s.readyQueue = pre ++ next :: post ∧ s.Foremost pre next post ∧
        s.pickNextTask = (some next, { s with readyQueue := pre ++ post }) ∧
        ¬s.NothingToPick := by
  have hpick : ∀ pre next post, s.readyQueue = pre ++ next :: post →
      (scan s.cells s.readyQueue).1 = pre.length → (s.cells next).state = .ready →
      s.pickNextTask = (some next, { s with readyQueue := pre ++ post }) := by
    intro pre next post hq hidx hready
    have hget : s.readyQueue[pre.length]? = some next := by simp [hq]
    have herase : s.readyQueue.eraseIdx pre.length = pre ++ post := by
      rw [hq, List.eraseIdx_append_of_length_le le_rfl, Nat.sub_self, List.eraseIdx_cons_zero]
    simp only [pickNextTask, hidx, hget, hready, ne_eq, not_true_eq_false, ↓reduceIte, herase]
  obtain ⟨he, hall⟩ | ⟨hlt, pre, next, post, hq, hb, hready, hp, hpre, hpost⟩ :=
    scanStep_foldl_spec s.cells s.readyQueue 0 (0, .low)
  · have hidx : (scan s.cells s.readyQueue).1 = 0 := congrArg Prod.fst he
    have hlow : ∀ r ∈ s.readyQueue, (s.cells r).state = .ready → (s.cells r).priority = .low :=
      fun r hr hready => le_antisymm (hall r hr hready) (low_le _)
    cases hq : s.readyQueue with
    | nil =>
      refine .inl ⟨⟨by simp [hq], hlow⟩, ?_⟩
      simp [pickNextTask, hq]
    | cons r queue =>
      by_cases hready : (s.cells r).state = .ready
      · refine .inr ⟨[], r, queue, rfl, ⟨hready, by simp, fun a ha hra => ?_⟩,
          hpick [] r queue hq hidx hready, ?_⟩
        · rw [hlow a (by simp [hq, ha]) hra]
          exact low_le _
        · exact fun hn => hn.1 r (by simp [hq]) hready
      · have hget : s.readyQueue[0]? = some r := by simp [hq]
        refine .inl ⟨⟨?_, hlow⟩, by simp [pickNextTask, hidx, hget, hready]⟩
        intro t ht
        obtain rfl : r = t := by simpa [hq] using ht
        exact hready
  · have hidx : (scan s.cells s.readyQueue).1 = pre.length := by simpa [scan] using hb
    refine .inr ⟨pre, next, post, hq, ⟨hready, hp ▸ hpre, hp ▸ hpost⟩,
      hpick pre next post hq hidx hready, ?_⟩
    intro hn
    have hlow : (s.cells next).priority = .low := hn.2 next (by simp [hq]) hready
    rw [← hp, hlow] at hlt
    exact lt_irrefl _ hlt

theorem pickNextTask_cases (s : Scheduler) :
    (s.NothingToPick ∧ s.pickNextTask = (none, s)) ∨
      ∃ pre next post, s.readyQueue = pre ++ next :: post ∧ (s.cells next).state = .ready ∧
        s.pickNextTask = (some next, { s with readyQueue := pre ++ post }) ∧
        ¬s.NothingToPick := by
  obtain hnone | ⟨pre, next, post, hq, hfirst, hp⟩ := s.pickNextTask_spec
  · exact .inl hnone
  · exact .inr ⟨pre, next, post, hq, hfirst.ready, hp⟩

def yielded (s : Scheduler) : List TaskRef :=
  s.current.toList.filter fun r => (s.cells r).state = .running

theorem mem_yielded {s : Scheduler} {r : TaskRef} :
    r ∈ s.yielded ↔ s.current = some r ∧ (s.cells r).state = .running := by
  simp [yielded]

theorem yielded_of_running {s : Scheduler} {r : TaskRef} (hc : s.current = some r)
    (hrun : (s.cells r).state = .running) : s.yielded = [r] := by
  simp [yielded, hc, hrun]

theorem released_readyQueue (s : Scheduler) : s.released.readyQueue = s.readyQueue ++ s.yielded := by
  unfold released requeueCurrent yielded
  cases s.current with
  | none => simp
  | some r => by_cases hr : (s.cells r).state = .running <;> simp [hr]

theorem released_cells (s : Scheduler) (r : TaskRef) :
    s.released.cells r =
      if r ∈ s.yielded then { s.cells r with state := .ready }.resetTimeSlice else s.cells r := by
  simp only [mem_yielded]
  unfold released requeueCurrent
  cases s.current with
  | none => simp
  | some a =>
    by_cases ha : (s.cells a).state = .running
    · by_cases hr : r = a
      · subst r; simp [ha]
      · simp [ha, hr, Ne.symm hr]
    · by_cases hr : r = a
      · subst r; simp [ha]
      · simp [ha, Ne.symm hr]

@[simp] theorem released_current (s : Scheduler) : s.released.current = none := rfl

theorem requeueCurrent_frame (s : Scheduler) :
    s.requeueCurrent.allTasks = s.allTasks ∧ s.requeueCurrent.nextRef = s.nextRef ∧
      s.requeueCurrent.preemptEnabled = s.preemptEnabled := by
  unfold requeueCurrent
  cases s.current with
  | none => exact ⟨rfl, rfl, rfl⟩
  | some r => by_cases hr : (s.cells r).state = .running <;> simp [hr]

@[simp] theorem released_allTasks (s : Scheduler) : s.released.allTasks = s.allTasks :=
  s.requeueCurrent_frame.1

@[simp] theorem released_nextRef (s : Scheduler) : s.released.nextRef = s.nextRef :=
  s.requeueCurrent_frame.2.1

@[simp] theorem released_preemptEnabled (s : Scheduler) : s.released.preemptEnabled = s.preemptEnabled :=
  s.requeueCurrent_frame.2.2

theorem saveCurrent_eq (s : Scheduler) (rsp : Word) :
    s.saveCurrent rsp = { s with
      readyQueue := s.readyQueue ++ s.current.toList
      cells := fun r => if s.current = some r then
          { s.cells r with savedRsp := rsp, state := .ready }.resetTimeSlice
        else s.cells r } := by
  unfold saveCurrent
  cases hc : s.current with
  | none =>
    cases s
    simp_all
  | some a =>
    simp only [modify, pushBack, Option.toList_some, Option.some.injEq]
    congr 1
    funext r
    by_cases hr : r = a
    · subst r; simp
    · simp [hr, Ne.symm hr]

theorem restoreCurrent_eq (s : Scheduler) :
    s.restoreCurrent = { s with
      cells := fun r => if s.current = some r then { s.cells r with state := .running }
        else s.cells r } := by
  unfold restoreCurrent
  cases hc : s.current with
  | none =>
    cases s
    simp_all
  | some a =>
    simp only [modify, Option.some.injEq]
    congr 1
    funext r
    by_cases hr : r = a
    · subst r; simp
    · simp [hr, Ne.symm hr]

theorem doContextSwitch_eq (s : Scheduler) (current : Option TaskRef) (next : TaskRef)
    (cpu : SavedRegisters) (hne : current ≠ some next) :
    s.doContextSwitch current next cpu = ({ s with
      cells := fun r => if current = some r then { s.cells r with regs := cpu } else s.cells r
      dummyRegs := if current = none then cpu else s.dummyRegs }, (s.cells next).regs) := by
  unfold doContextSwitch
  cases current with
  | none => simp
  | some a =>
    have ha : next ≠ a := fun h => hne (by rw [h])
    simp only [modify, Option.some.injEq, reduceCtorEq, ↓reduceIte, Function.update_of_ne ha]
    congr 2
    funext r
    by_cases hr : r = a
    · subst r; simp
    · simp [hr, Ne.symm hr]

theorem dispatch_cells_apply (s : Scheduler) (next r : TaskRef) :
    (s.dispatch next).cells r =
      if r = next then { s.cells next with state := .running } else s.cells r := by
  simp [Function.update_apply]

/-- Every outcome of `schedule`: nothing can be picked, the task that just yielded is picked
again, or another task is picked and `context_switch` runs. -/
theorem schedule_cases (s : Scheduler) (cpu : SavedRegisters) :
    (s.released.NothingToPick ∧ s.schedule cpu = ({ s.released with current := s.current }, cpu)) ∨
      ∃ pre next post, s.released.readyQueue = pre ++ next :: post ∧
        (s.released.cells next).state = .ready ∧
        let d := Scheduler.dispatch { s.released with readyQueue := pre ++ post } next
        (s.current = some next ∧ s.schedule cpu = (d, cpu)) ∨
          (s.current ≠ some next ∧ s.schedule cpu = (countSwitch { d with
            cells := fun r => if s.current = some r then { d.cells r with regs := cpu }
              else d.cells r
            dummyRegs := if s.current = none then cpu else d.dummyRegs }, (s.cells next).regs)) := by
  obtain ⟨hn, hp⟩ | ⟨pre, next, post, hq, hready, hp, _⟩ := s.released.pickNextTask_cases
  · exact .inl ⟨hn, by simp only [schedule, hp]⟩
  · refine .inr ⟨pre, next, post, hq, hready, ?_⟩
    by_cases hc : s.current = some next
    · exact .inl ⟨hc, by simp [schedule, hp, hc]⟩
    · refine .inr ⟨hc, ?_⟩
      have hregs : (s.released.cells next).regs = (s.cells next).regs := by
        rw [released_cells]
        split <;> rfl
      simp only [schedule, hp, ne_eq, hc, not_false_eq_true, ↓reduceIte,
        doContextSwitch_eq _ _ _ _ hc]
      simp [hregs]

theorem schedule_of_pick {s : Scheduler} {next : TaskRef} {queue : List TaskRef} (cpu : SavedRegisters)
    (hp : s.released.pickNextTask = (some next, { s.released with readyQueue := queue })) :
    (s.schedule cpu).1.readyQueue = queue ∧ (s.schedule cpu).1.current = some next ∧
      (s.schedule cpu).1.preemptEnabled = s.released.preemptEnabled ∧
        (s.schedule cpu).1.needReschedule = false ∧
      ∀ r, ∃ regs, (s.schedule cpu).1.cells r =
        { if r = next then { s.released.cells next with state := .running } else s.released.cells r with
          regs := regs } := by
  by_cases hc : s.current = some next
  · have hs : s.schedule cpu = (Scheduler.dispatch { s.released with readyQueue := queue } next,
      cpu) := by
      simp [schedule, hp, hc]
    rw [hs]
    refine ⟨rfl, rfl, rfl, rfl, fun r => ?_⟩
    rw [dispatch_cells_apply]
    exact ⟨_, rfl⟩
  · have hs : (s.schedule cpu).1 =
        countSwitch { Scheduler.dispatch { s.released with readyQueue := queue } next with
        cells := fun r => if s.current = some r then
            { (Scheduler.dispatch { s.released with readyQueue := queue } next).cells r
              with regs := cpu }
          else (Scheduler.dispatch { s.released with readyQueue := queue } next).cells r
        dummyRegs := if s.current = none then cpu else s.released.dummyRegs } := by
      simp only [schedule, hp, ne_eq, hc, not_false_eq_true, ↓reduceIte, doContextSwitch_eq _ _ _ _ hc]
      rfl
    rw [hs]
    refine ⟨rfl, rfl, rfl, rfl, fun r => ?_⟩
    rw [countSwitch_cells]
    dsimp only
    rw [dispatch_cells_apply]
    split
    · exact ⟨cpu, rfl⟩
    · exact ⟨_, rfl⟩

theorem preemptSchedule_disabled {s : Scheduler} (h : s.preemptEnabled = false) (rsp : Word) :
    s.preemptSchedule rsp = (s, rsp) := by
  simp [preemptSchedule, h]

theorem preemptSchedule_cases {s : Scheduler} (h : s.preemptEnabled = true) (rsp : Word) :
    ((s.saveCurrent rsp).NothingToPick ∧
        s.preemptSchedule rsp = ((s.saveCurrent rsp).restoreCurrent, rsp)) ∨
      ∃ pre next post, (s.saveCurrent rsp).readyQueue = pre ++ next :: post ∧
        ((s.saveCurrent rsp).cells next).state = .ready ∧ ¬(s.saveCurrent rsp).NothingToPick ∧
        s.preemptSchedule rsp =
          ((Scheduler.dispatch { s.saveCurrent rsp with readyQueue := pre ++ post } next).countSwitch,
            ((s.saveCurrent rsp).cells next).savedRsp) := by
  obtain ⟨hn, hp⟩ | ⟨pre, next, post, hq, hready, hp, hn⟩ := (s.saveCurrent rsp).pickNextTask_cases
  · exact .inl ⟨hn, by simp [preemptSchedule, h, hp]⟩
  · exact .inr ⟨pre, next, post, hq, hready, hn, by simp [preemptSchedule, h, hp]⟩

theorem scheduleIfNeeded_cases (s : Scheduler) {cpu : SavedRegisters}
    {P : Scheduler × SavedRegisters → Prop} (hyes : P (s.schedule cpu)) (hno : P (s, cpu)) :
    P (s.scheduleIfNeeded cpu) := by
  rw [scheduleIfNeeded]
  split
  · exact hyes
  · exact hno

theorem charge_eq (s : Scheduler) (r : TaskRef) (t : Task) : s.charge r t =
    { s.modify r fun _ => consumeTick t with
      needReschedule := (consumeTick t).timeSlice = 0 || s.needReschedule } := by
  rw [charge]
  split_ifs with hslice
  · simp only [hslice, decide_true, Bool.true_or, requestReschedule]
  · simp only [hslice, decide_false, Bool.false_or]
    rfl

theorem tick_disabled {s : Scheduler} (h : s.preemptEnabled = false) (cpu : SavedRegisters) :
    s.tick cpu = (s.countTick, cpu) := by
  simp [tick, h]

theorem tick_idle {s : Scheduler} (h : s.preemptEnabled = true) (hc : s.current = none)
    (cpu : SavedRegisters) : s.tick cpu = s.countTick.scheduleIfNeeded cpu := by
  simp [tick, h, hc]

theorem tick_current {s : Scheduler} (h : s.preemptEnabled = true) {r : TaskRef}
    (hc : s.current = some r) (cpu : SavedRegisters) :
    s.tick cpu =
      if (deliverSignal (s.cells r)).2 || (deliverSignal (s.cells r)).1.state ≠ .running then
        ((s.countTick.modify r fun _ => (deliverSignal (s.cells r)).1).requestReschedule, cpu)
      else (s.countTick.charge r (deliverSignal (s.cells r)).1).scheduleIfNeeded cpu := by
  simp [tick, h, hc]

theorem tick_cases (s : Scheduler) (cpu : SavedRegisters) :
    s.preemptEnabled = false ∧ s.tick cpu = (s.countTick, cpu) ∨
    s.preemptEnabled = true ∧ s.current = none ∧ s.tick cpu = s.countTick.scheduleIfNeeded cpu ∨
    ∃ r, s.preemptEnabled = true ∧ s.current = some r ∧
      ((deliverSignal (s.cells r)).1.state ≠ .running ∧ s.tick cpu =
          ((s.countTick.modify r fun _ => (deliverSignal (s.cells r)).1).requestReschedule, cpu) ∨
        (deliverSignal (s.cells r)).1.state = .running ∧ s.tick cpu =
          (s.countTick.charge r (deliverSignal (s.cells r)).1).scheduleIfNeeded cpu) := by
  cases he : s.preemptEnabled with
  | false => exact .inl ⟨rfl, tick_disabled he cpu⟩
  | true =>
    cases hc : s.current with
    | none => exact .inr (.inl ⟨rfl, rfl, tick_idle he hc cpu⟩)
    | some r =>
      refine .inr (.inr ⟨r, rfl, rfl, ?_⟩)
      rw [tick_current he hc]
      by_cases hrun : (deliverSignal (s.cells r)).1.state = .running
      · have hflag : (deliverSignal (s.cells r)).2 = false :=
          Bool.eq_false_iff.mpr fun hflag => deliverSignal_flagged hflag hrun
        exact .inr ⟨hrun, if_neg (by simp [hflag, hrun])⟩
      · exact .inl ⟨hrun, if_pos (by simp [hrun])⟩

theorem foldl_retain (s : Scheduler) (ids : List Nat) :
    ids.foldl retain s = { s with
      allTasks := s.allTasks.filter fun r => (s.cells r).id ∉ ids
      readyQueue := s.readyQueue.filter fun r => (s.cells r).id ∉ ids } := by
  induction ids generalizing s with
  | nil => simp
  | cons i ids ih =>
    rw [List.foldl_cons, ih]
    simp [retain, List.filter_filter, Bool.and_comm]

def Refs (s : Scheduler) (r : TaskRef) : Prop :=
  r ∈ s.readyQueue ∨ s.current = some r ∨ r ∈ s.allTasks

def Bounded (s : Scheduler) : Prop := ∀ r, s.Refs r → r < s.nextRef

theorem released_refs {s : Scheduler} {r : TaskRef} (h : s.released.Refs r) : s.Refs r := by
  obtain h | h | h := h
  · rw [released_readyQueue, List.mem_append] at h
    obtain h | h := h
    · exact .inl h
    · exact .inr (.inl (mem_yielded.mp h).1)
  · simp at h
  · exact .inr (.inr (by simpa using h))

theorem saveCurrent_refs {s : Scheduler} {rsp : Word} {r : TaskRef}
    (h : (s.saveCurrent rsp).Refs r) : s.Refs r := by
  rw [saveCurrent_eq] at h
  obtain h | h | h := h
  · obtain h | h := List.mem_append.mp h
    · exact .inl h
    · exact .inr (.inl (by simpa using h))
  · exact .inr (.inl h)
  · exact .inr (.inr h)

theorem dispatch_refs {s : Scheduler} {pre post : List TaskRef} {next r : TaskRef}
    (hq : s.readyQueue = pre ++ next :: post)
    (h : (Scheduler.dispatch { s with readyQueue := pre ++ post } next).Refs r) : s.Refs r := by
  obtain h | h | h := h
  · left
    rw [hq]
    have hm : r ∈ pre ∨ r ∈ post := by simpa using h
    simp only [List.mem_append, List.mem_cons]
    tauto
  · left
    have hr : next = r := by simpa using h
    simp [hq, hr]
  · exact .inr (.inr h)

theorem schedule_refs {s : Scheduler} {cpu : SavedRegisters} {r : TaskRef}
    (h : (s.schedule cpu).1.Refs r) : s.Refs r := by
  obtain ⟨-, hs⟩ | ⟨pre, next, post, hq, -, ⟨-, hs⟩ | ⟨-, hs⟩⟩ := s.schedule_cases cpu
  · rw [hs] at h
    obtain h | h | h := h
    · exact released_refs (.inl h)
    · exact .inr (.inl h)
    · exact released_refs (.inr (.inr h))
  · rw [hs] at h
    exact released_refs (dispatch_refs hq h)
  · rw [hs] at h
    exact released_refs (dispatch_refs hq h)

theorem schedule_nextRef (s : Scheduler) (cpu : SavedRegisters) :
    (s.schedule cpu).1.nextRef = s.nextRef := by
  obtain ⟨-, hs⟩ | ⟨pre, next, post, hq, -, ⟨-, hs⟩ | ⟨-, hs⟩⟩ := s.schedule_cases cpu <;>
    simp [hs]

theorem Bounded.schedule {s : Scheduler} (h : s.Bounded) (cpu : SavedRegisters) :
    (s.schedule cpu).1.Bounded := by
  intro r hr
  rw [schedule_nextRef]
  exact h r (schedule_refs hr)

theorem Bounded.scheduleIfNeeded {s : Scheduler} (h : s.Bounded) (cpu : SavedRegisters) :
    (s.scheduleIfNeeded cpu).1.Bounded :=
  s.scheduleIfNeeded_cases (P := fun x => x.1.Bounded) (h.schedule cpu) h

theorem Bounded.modify {s : Scheduler} (h : s.Bounded) (r : TaskRef) (f : Task → Task) :
    (s.modify r f).Bounded := h

theorem Bounded.charge {s : Scheduler} (h : s.Bounded) (r : TaskRef) (t : Task) :
    (s.charge r t).Bounded := by
  rw [charge_eq]
  exact h

theorem Bounded.pushBack {s : Scheduler} (h : s.Bounded) {r : TaskRef} (hr : s.Refs r) :
    (s.pushBack r).Bounded := by
  rintro a (ha | ha | ha)
  · obtain ha | ha := List.mem_append.mp ha
    · exact h a (.inl ha)
    · rw [List.mem_singleton.mp ha]
      exact h r hr
  · exact h a (.inr (.inl ha))
  · exact h a (.inr (.inr ha))

theorem addTask_cells_of_ne {s : Scheduler} (t : Task × Statics) (now : Nat) {r : TaskRef}
    (hr : r ≠ s.nextRef) : (s.addTask t now).1.cells r = s.cells r := Function.update_of_ne hr _ _

theorem addTask_cells_self (s : Scheduler) (t : Task × Statics) (now : Nat) :
    (s.addTask t now).1.cells s.nextRef =
      { (t.1.setupInitialStack t.2.mem).1 with startTick := now } := by
  simp only [addTask, Function.update_self]

theorem Bounded.addTask {s : Scheduler} (h : s.Bounded) (t : Task × Statics) (now : Nat) :
    (s.addTask t now).1.Bounded := by
  rintro r (hr | hr | hr)
  · obtain hr | hr := List.mem_append.mp hr
    · exact Nat.lt_succ_of_lt (h r (.inl hr))
    · rw [List.mem_singleton.mp hr]
      exact Nat.lt_succ_self _
  · exact Nat.lt_succ_of_lt (h r (.inr (.inl hr)))
  · obtain hr | hr := List.mem_append.mp hr
    · exact Nat.lt_succ_of_lt (h r (.inr (.inr hr)))
    · rw [List.mem_singleton.mp hr]
      exact Nat.lt_succ_self _

theorem Bounded.tick {s : Scheduler} (h : s.Bounded) (cpu : SavedRegisters) :
    (s.tick cpu).1.Bounded := by
  obtain ⟨-, hs⟩ | ⟨-, -, hs⟩ | ⟨r, -, -, ⟨-, hs⟩ | ⟨-, hs⟩⟩ := s.tick_cases cpu
  · rw [hs]
    exact h
  · rw [hs]
    exact Bounded.scheduleIfNeeded (s := s.countTick) h cpu
  · rw [hs]
    exact h
  · rw [hs]
    exact (Bounded.charge (s := s.countTick) h r _).scheduleIfNeeded cpu

theorem Bounded.preemptSchedule {s : Scheduler} (h : s.Bounded) (rsp : Word) :
    (s.preemptSchedule rsp).1.Bounded := by
  cases he : s.preemptEnabled with
  | false =>
    rw [preemptSchedule_disabled he]
    exact h
  | true =>
    have hsave : (s.saveCurrent rsp).Bounded := by
      intro r hr
      have hlt := h r (saveCurrent_refs hr)
      simpa only [saveCurrent_eq] using hlt
    obtain ⟨-, hs⟩ | ⟨pre, next, post, hq, -, -, hs⟩ := preemptSchedule_cases he rsp
    · rw [hs, restoreCurrent_eq]
      exact hsave
    · rw [hs]
      intro r hr
      exact hsave r (dispatch_refs hq hr)

theorem findTask_mem {s : Scheduler} {taskId : Nat} {r : TaskRef} (h : s.findTask taskId = some r) :
    r ∈ s.allTasks ∧ (s.cells r).id = taskId :=
  ⟨List.mem_of_find?_eq_some h, by simpa using List.find?_some h⟩

theorem findBlocked_mem {s : Scheduler} {taskId : Nat} {r : TaskRef}
    (h : s.findBlocked taskId = some r) :
    r ∈ s.allTasks ∧ (s.cells r).id = taskId ∧ (s.cells r).state = .blocked :=
  ⟨List.mem_of_find?_eq_some h, by simpa using List.find?_some h⟩

theorem Bounded.filter {s : Scheduler} (h : s.Bounded) (p q : TaskRef → Bool) :
    Bounded { s with readyQueue := s.readyQueue.filter p, allTasks := s.allTasks.filter q } := by
  rintro r (hr | hr | hr)
  · exact h r (.inl (List.mem_of_mem_filter hr))
  · exact h r (.inr (.inl hr))
  · exact h r (.inr (.inr (List.mem_of_mem_filter hr)))

/-- What `terminate_task` makes of a task it finds. -/
def terminated (s : Scheduler) (r : TaskRef) (taskId : Nat) (exitCode : Int) : Scheduler :=
  let s := s.modify r fun t => { t with state := .terminated, exitCode := exitCode }
  { s.requestReschedule with readyQueue := s.readyQueue.filter fun a => (s.cells a).id ≠ taskId }

theorem Bounded.terminated {s : Scheduler} (h : s.Bounded) (r : TaskRef) (taskId : Nat)
    (exitCode : Int) : (s.terminated r taskId exitCode).Bounded := by
  rintro a (ha | ha | ha)
  · exact h a (.inl (List.mem_of_mem_filter ha))
  · exact h a (.inr (.inl ha))
  · exact h a (.inr (.inr ha))

end Scheduler

open Scheduler

theorem bounded_new (g : Statics) : (Scheduler.new g).Bounded := by
  rintro r (h | h | h) <;> simp [Scheduler.new] at h

theorem tick_nextRef (s : Scheduler) (cpu : SavedRegisters) :
    (s.tick cpu).1.nextRef = s.nextRef := by
  have hneeded (s : Scheduler) : (s.scheduleIfNeeded cpu).1.nextRef = s.nextRef :=
    s.scheduleIfNeeded_cases (P := fun x => x.1.nextRef = s.nextRef) (schedule_nextRef s cpu) rfl
  obtain ⟨-, hs⟩ | ⟨-, -, hs⟩ | ⟨r, -, -, ⟨-, hs⟩ | ⟨-, hs⟩⟩ := s.tick_cases cpu
  · rw [hs]
    rfl
  · rw [hs, hneeded]
    rfl
  · rw [hs]
    rfl
  · rw [hs, hneeded, Scheduler.charge_eq]
    rfl

theorem preemptSchedule_nextRef (s : Scheduler) (rsp : Word) :
    (s.preemptSchedule rsp).1.nextRef = s.nextRef := by
  cases he : s.preemptEnabled with
  | false => rw [preemptSchedule_disabled he]
  | true =>
    obtain ⟨-, hs⟩ | ⟨pre, next, post, -, -, -, hs⟩ := preemptSchedule_cases he rsp
    · simp only [hs, restoreCurrent_eq, saveCurrent_eq]
    · simp [hs, saveCurrent_eq]

/-- The task a creation makes, and the time it is stamped with. -/
def created (g : Statics) : Op → Option ((Task × Statics) × Nat)
  | .createKernelTask entry name now => some (Task.newKernel g entry name, now)
  | .createKernelTaskWithPriority entry name priority now =>
    some (Task.newKernelWithPriority g entry name priority, now)
  | .createBackgroundTask entry name now => some (Task.newKernelBackground g entry name, now)
  | .createUserTask entry name now => some (Task.newUser g entry name, now)
  | .createIdleTask idleTask now => some (Task.newKernelWithPriority g idleTask "idle" .low, now)
  | _ => none

theorem step_created {s : Scheduler} {op : Op} {t : Task × Statics} {now : Nat}
    (h : created s.statics op = some (t, now)) : step s op = (s.addTask t now).1 := by
  cases op <;> simp only [created, Option.some.injEq, Prod.mk.injEq, reduceCtorEq] at h
  all_goals
    obtain ⟨rfl, rfl⟩ := h
    rfl

structure Created (g : Statics) (t : Task × Statics) : Prop where
  state : t.1.state = .ready
  id : t.1.id = g.nextTaskId
  nextTaskId : t.2.nextTaskId = g.nextTaskId + 1

theorem allocStack_nextTaskId (g : Statics) (size : Nat) :
    (allocStack g size).2.nextTaskId = g.nextTaskId := by
  rw [allocStack]
  split <;> rfl

theorem created_create {g a : Statics} (ha : a.nextTaskId = g.nextTaskId + 1) (taskType : TaskType)
    (stackTop kernelStack : Nat) (entry : Word) (name : String) :
    Created g (Task.create g.nextTaskId taskType stackTop kernelStack entry name, a) := ⟨rfl, rfl, ha⟩

theorem created_newKernel (g : Statics) (entry : Word) (name : String) :
    Created g (Task.newKernel g entry name) :=
  created_create (allocStack_nextTaskId { g with nextTaskId := g.nextTaskId + 1 } _) ..

theorem created_newUser (g : Statics) (entry : Word) (name : String) :
    Created g (Task.newUser g entry name) :=
  created_create ((allocStack_nextTaskId _ _).trans
    (allocStack_nextTaskId { g with nextTaskId := g.nextTaskId + 1 } _)) ..

theorem Created.withPriority {g : Statics} {t : Task × Statics} (h : Created g t)
    (priority : TaskPriority) :
    Created g ({ t.1 with priority := priority }, t.2) := ⟨h.state, h.id, h.nextTaskId⟩

theorem Created.inBackground {g : Statics} {t : Task × Statics} (h : Created g t) :
    Created g ({ t.1 with foreground := .background }, t.2) := ⟨h.state, h.id, h.nextTaskId⟩

theorem created_spec {g : Statics} {op : Op} {t : Task × Statics} {now : Nat}
    (h : created g op = some (t, now)) : Created g t := by
  cases op with
  | createKernelTask entry name =>
    cases h
    exact created_newKernel g entry name
  | createKernelTaskWithPriority entry name priority =>
    cases h
    exact (created_newKernel g entry name).withPriority priority
  | createBackgroundTask entry name =>
    cases h
    exact (created_newKernel g entry name).inBackground
  | createUserTask entry name =>
    cases h
    exact created_newUser g entry name
  | createIdleTask idleTask =>
    cases h
    exact (created_newKernel g idleTask "idle").withPriority .low
  | _ => cases h

/-- What the operations do. A call that is refused, or finds nothing to do, leaves all unchanged. -/
inductive Steps (s : Scheduler) : Op → Scheduler → Prop
  | unchanged (op : Op) : Steps s op s
  | created {op : Op} {t : Task × Statics} {now : Nat} (h : created s.statics op = some (t, now)) :
      Steps s op (s.addTask t now).1
  | tick (cpu : SavedRegisters) : Steps s (.tick cpu) (s.tick cpu).1
  | schedule (cpu : SavedRegisters) : Steps s (.schedule cpu) (s.schedule cpu).1
  | yieldCurrent (cpu : SavedRegisters) :
      Steps s (.yieldCurrent cpu) (s.requestReschedule.schedule cpu).1
  | preemptSchedule (rsp : Word) : Steps s (.preemptSchedule rsp) (s.preemptSchedule rsp).1
  | blockCurrent {r : TaskRef} (hc : s.current = some r) :
      Steps s .blockCurrent (s.modify r fun t => { t with state := .blocked }).requestReschedule
  | unblockTask {taskId : Nat} {r : TaskRef} (hr : s.findBlocked taskId = some r) :
      Steps s (.unblockTask taskId)
        ((s.modify r fun t => { t with state := .ready }).pushBack r).requestReschedule
  | terminateNone {exitCode : Int} {cpu : SavedRegisters} (hc : s.current = none) :
      Steps s (.terminateCurrent exitCode cpu) (s.requestReschedule.schedule cpu).1
  | terminateCurrent {exitCode : Int} {cpu : SavedRegisters} {r : TaskRef} (hc : s.current = some r) :
      Steps s (.terminateCurrent exitCode cpu) ((s.modify r fun t =>
        { t with state := .terminated, exitCode := exitCode }).requestReschedule.schedule cpu).1
  | terminateTask {taskId : Nat} {exitCode : Int} {r : TaskRef} (hr : s.findTask taskId = some r) :
      Steps s (.terminateTask taskId exitCode) (s.terminated r taskId exitCode)
  | sendSignal {taskId signal : Nat} {r : TaskRef} (hr : s.findTask taskId = some r) :
      Steps s (.sendSignal taskId signal) (s.modify r fun t => t.sendSignal signal)
  | backgroundTask {taskId : Nat} {r : TaskRef} (hr : s.findTask taskId = some r)
      (hf : (s.cells r).foreground = .stopped) :
      Steps s (.backgroundTask taskId) ((s.modify r fun t =>
        { t with foreground := .background, state := .ready }.sendSignal sigcont).pushBack
          r).requestReschedule
  | foregroundTask {taskId : Nat} {r : TaskRef} (hr : s.findTask taskId = some r) :
      Steps s (.foregroundTask taskId) (s.modify r fun t => { t with foreground := .foreground })
  | cleanupTerminated : Steps s .cleanupTerminated s.cleanupTerminated
  | enablePreemption : Steps s .enablePreemption s.enablePreemption
  | disablePreemption : Steps s .disablePreemption s.disablePreemption

theorem step_steps (s : Scheduler) (op : Op) : Steps s op (step s op) := by
  cases op with
  | createKernelTask | createKernelTaskWithPriority | createBackgroundTask | createUserTask
  | createIdleTask => exact .created rfl
  | tick cpu => exact .tick cpu
  | schedule cpu => exact .schedule cpu
  | preemptSchedule rsp => exact .preemptSchedule rsp
  | blockCurrent =>
    simp only [step, Scheduler.blockCurrent]
    split
    · exact .unchanged _
    · next hc => exact .blockCurrent hc
  | unblockTask taskId =>
    simp only [step, Scheduler.unblockTask]
    split
    · next hr => exact .unblockTask hr
    · exact .unchanged _
  | terminateCurrent exitCode cpu =>
    cases hc : s.current with
    | none =>
      simp only [step, Scheduler.terminateCurrent, hc]
      exact .terminateNone hc
    | some r =>
      simp only [step, Scheduler.terminateCurrent, hc]
      exact .terminateCurrent hc
  | terminateTask taskId exitCode =>
    simp only [step, Scheduler.terminateTask]
    split
    · exact .unchanged _
    · split
      · next hr => exact .terminateTask hr
      · exact .unchanged _
  | sendSignal taskId signal =>
    simp only [step, Scheduler.sendSignal]
    split
    · next hr => exact .sendSignal hr
    · exact .unchanged _
  | backgroundTask taskId =>
    simp only [step, Scheduler.backgroundTask]
    split
    · next hr =>
      split
      · exact .unchanged _
      · next hf => exact .backgroundTask hr (not_not.mp hf)
    · exact .unchanged _
  | foregroundTask taskId =>
    simp only [step, Scheduler.foregroundTask]
    split
    · next hr =>
      split
      · exact .unchanged _
      · rw [if_neg (by simp)]
        exact .foregroundTask hr
    · exact .unchanged _
  | yieldCurrent cpu => exact .yieldCurrent cpu
  | cleanupTerminated => exact .cleanupTerminated
  | enablePreemption => exact .enablePreemption
  | disablePreemption => exact .disablePreemption

theorem Steps.nextRef_le {s s' : Scheduler} {op : Op} (hs : Steps s op s') : s.nextRef ≤ s'.nextRef := by
  cases hs with
  | created => exact Nat.le_succ _
  | tick cpu => exact (tick_nextRef s cpu).ge
  | schedule cpu => exact (schedule_nextRef s cpu).ge
  | preemptSchedule rsp => exact (preemptSchedule_nextRef s rsp).ge
  | yieldCurrent | terminateNone | terminateCurrent =>
    rw [schedule_nextRef]
    exact le_rfl
  | cleanupTerminated => simp only [Scheduler.cleanupTerminated, foldl_retain, le_rfl]
  | _ => exact le_rfl

theorem nextRef_le_step (s : Scheduler) (op : Op) : s.nextRef ≤ (step s op).nextRef :=
  (step_steps s op).nextRef_le

theorem Steps.bounded {s s' : Scheduler} {op : Op} (hs : Steps s op s') (h : s.Bounded) :
    s'.Bounded := by
  cases hs with
  | created => exact h.addTask _ _
  | tick cpu => exact h.tick cpu
  | schedule cpu => exact h.schedule cpu
  | preemptSchedule rsp => exact h.preemptSchedule rsp
  | yieldCurrent | terminateNone | terminateCurrent =>
    refine Bounded.schedule ?_ _
    exact h
  | unblockTask hr => exact (h.modify _ _).pushBack (.inr (.inr (findBlocked_mem hr).1))
  | terminateTask => exact h.terminated _ _ _
  | backgroundTask hr => exact (h.modify _ _).pushBack (.inr (.inr (findTask_mem hr).1))
  | cleanupTerminated =>
    rw [Scheduler.cleanupTerminated, foldl_retain]
    exact h.filter _ _
  | _ => exact h

theorem bounded_step {s : Scheduler} (h : s.Bounded) (op : Op) : (step s op).Bounded :=
  (step_steps s op).bounded h

end DeltaOS.Sched
