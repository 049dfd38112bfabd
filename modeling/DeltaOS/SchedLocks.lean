import DeltaOS.Locks
import DeltaOS.SchedSteps

namespace DeltaOS.SchedLocks

open Kernel Tasks Sched Locks
open Locks.Prog (critical foldCritical findCritical get modify)

abbrev Code := Prog TaskRef Scheduler

def update (r : TaskRef) (f : Scheduler → Scheduler) : Code Unit := critical r fun s => ((), f s)

def look {β : Type} (r : TaskRef) (f : Scheduler → β) : Code β := critical r fun s => (f s, s)

def whenSome (r : Option TaskRef) (code : TaskRef → Code Unit) : Code Unit :=
  match r with
  | none => pure ()
  | some r => code r

/-- The loop of `retain`: every task is looked at under its lock. -/
def filterCode (keep : Scheduler → TaskRef → Bool) (rs : List TaskRef) : Code (List TaskRef) :=
  foldCritical (fun kept r s => if keep s r then kept ++ [r] else kept) [] rs

/-- The end of `pick_next_task`, with the index its loop has found. -/
def takeAt (queue : List TaskRef) (bestIdx : Nat) : Code (Option TaskRef) :=
  match queue[bestIdx]? with
  | none => pure none
  | some r => do
    let ready ← look r fun s => decide ((s.cells r).state = .ready)
    if ready then do
      modify fun s => { s with readyQueue := s.readyQueue.eraseIdx bestIdx }
      pure (some r)
    else pure none

def pickNextTask : Code (Option TaskRef) := do
  let s ← get
  let best ← foldCritical (fun b r s => (Scheduler.scanStep s.cells b.1 (r, b.2), b.2 + 1))
    ((0, TaskPriority.low), 0) s.readyQueue
  takeAt s.readyQueue best.1.1

/-- The part of `schedule` that puts the task it leaves back into the queue. -/
def requeue (r : TaskRef) : Code Unit := do
  let running ← critical r fun s =>
    if (s.cells r).state = .running
      then (true, s.modify r fun t => { t with state := .ready }.resetTimeSlice)
    else (false, s)
  if running then modify fun s => s.pushBack r else pure ()

/-- `do_context_switch` has the tasks locked only while it takes the addresses of their registers. -/
def doContextSwitch (current : Option TaskRef) (next : TaskRef) (cpu : SavedRegisters) :
    Code SavedRegisters := do
  whenSome current fun r => look r fun _ => ()
  look next fun _ => ()
  let s ← get
  modify fun s => (s.doContextSwitch current next cpu).1
  pure (s.doContextSwitch current next cpu).2

/-- The end of `schedule`, with the task it has left and the one it has picked. -/
def switchTo (prev : Option TaskRef) (cpu : SavedRegisters) : Option TaskRef → Code SavedRegisters
  | some next => do
    update next fun s => s.modify next fun t => { t with state := .running }
    modify fun s => { s with current := some next }
    if prev ≠ some next then do
      let regs ← doContextSwitch prev next cpu
      modify Scheduler.countSwitch
      pure regs
    else pure cpu
  | none => do
    modify fun s => { s with current := prev }
    pure cpu

def schedule (cpu : SavedRegisters) : Code SavedRegisters := do
  modify fun s => { s with needReschedule := false }
  let s ← get
  modify fun s => { s with current := none }
  whenSome s.current requeue
  let next ← pickNextTask
  switchTo s.current cpu next

/-- What `tick` does under the lock of the current task. It returns then if there is a result, which
says whether the task was killed or stopped by a signal. -/
def charge (r : TaskRef) : Code (Option Bool) := critical r fun s =>
  let d := deliverSignal (s.cells r)
  if d.2 then (some true, s.modify r fun _ => d.1)
  else if d.1.state ≠ .running then (some false, (s.modify r fun _ => d.1).requestReschedule)
  else (none, s.charge r d.1)

def scheduleIfNeeded (cpu : SavedRegisters) : Code SavedRegisters := do
  let s ← get
  if s.needReschedule then schedule cpu else pure cpu

def tick (cpu : SavedRegisters) : Code SavedRegisters := do
  modify Scheduler.countTick
  let s ← get
  if !s.preemptEnabled then pure cpu
  else
    match s.current with
    | none => scheduleIfNeeded cpu
    | some r => do
      let returns ← charge r
      match returns with
      | none => scheduleIfNeeded cpu
      | some killed => do
        if killed then modify Scheduler.requestReschedule else pure ()
        pure cpu

/-- The end of `preempt_schedule`, with the task it has picked. -/
def preemptTo (currentRsp : Word) : Option TaskRef → Code Word
  | some next => do
    update next fun s => s.modify next fun t => { t with state := .running }
    let rsp ← look next fun s => (s.cells next).savedRsp
    modify fun s => { s with current := some next }
    modify Scheduler.countSwitch
    pure rsp
  | none => do
    let s ← get
    whenSome s.current fun r => update r fun s => s.modify r fun t => { t with state := .running }
    pure currentRsp

def preemptSchedule (currentRsp : Word) : Code Word := do
  let s ← get
  if !s.preemptEnabled then pure currentRsp
  else do
    whenSome s.current fun r => do
      update r fun s => s.modify r fun t =>
        { t with savedRsp := currentRsp, state := .ready }.resetTimeSlice
      modify fun s => s.pushBack r
    let next ← pickNextTask
    preemptTo currentRsp next

def blockCurrent : Code Unit := do
  let s ← get
  whenSome s.current fun r => update r fun s =>
    (s.modify r fun t => { t with state := .blocked }).requestReschedule

/-- The end of the methods that put a task back into the queue. -/
def pushReady (r : TaskRef) : Code (KernelResult Unit) := do
  modify fun s => s.pushBack r
  modify Scheduler.requestReschedule
  pure (.ok ())

def unblockTask (taskId : Nat) : Code (KernelResult Unit) := do
  let s ← get
  let found ← findCritical (fun s r => decide ((s.cells r).id = taskId ∧ (s.cells r).state = .blocked))
    (fun r s => (r, s.modify r fun t => { t with state := .ready })) s.allTasks
  match found with
  | some r => pushReady r
  | none => pure (.error .invalidArgument)

def terminateCurrent (exitCode : Int) (cpu : SavedRegisters) : Code SavedRegisters := do
  let s ← get
  whenSome s.current fun r => update r fun s => s.modify r fun t =>
    { t with state := .terminated, exitCode := exitCode }
  modify Scheduler.requestReschedule
  schedule cpu

def findById {β : Type} (taskId : Nat) (f : TaskRef → Scheduler → β × Scheduler) : Code (Option β) := do
  let s ← get
  findCritical (fun s r => decide ((s.cells r).id = taskId)) f s.allTasks

def terminateTask (taskId : Nat) (exitCode : Int) : Code (KernelResult Unit) :=
  if taskId ≤ 2 then pure (.error .accessDenied)
  else do
    let found ← findById taskId fun r s =>
      ((), s.modify r fun t => { t with state := .terminated, exitCode := exitCode })
    match found with
    | some _ => do
      modify Scheduler.requestReschedule
      let s ← get
      let kept ← filterCode (fun s r => decide ((s.cells r).id ≠ taskId)) s.readyQueue
      modify fun s => { s with readyQueue := kept }
      pure (.ok ())
    | none => pure (.error .invalidArgument)

def sendSignal (taskId signal : Nat) : Code (KernelResult Unit) := do
  let found ← findById taskId fun r s => ((), s.modify r fun t => t.sendSignal signal)
  match found with
  | some _ => pure (.ok ())
  | none => pure (.error .invalidArgument)

def backgroundTask (taskId : Nat) : Code (KernelResult Unit) := do
  let found ← findById taskId fun r s =>
    if (s.cells r).foreground ≠ .stopped then (none, s)
    else (some r, s.modify r fun t =>
      { t with foreground := .background, state := .ready }.sendSignal sigcont)
  match found with
  | some (some r) => pushReady r
  | _ => pure (.error .invalidArgument)

/-- Under the lock, the test for `Stopped` comes after the assignment. -/
def foregroundTask (taskId : Nat) : Code (KernelResult Unit) := do
  let found ← findById taskId fun r s =>
    if (s.cells r).foreground = .foreground then (none, s)
    else
      let s := s.modify r fun t => { t with foreground := .foreground }
      if (s.cells r).foreground = .stopped then
        (some (some r), s.modify r fun t => { t with state := .ready }.sendSignal sigcont)
      else (some none, s)
  match found with
  | some (some (some r)) => pushReady r
  | some (some none) => pure (.ok ())
  | _ => pure (.error .invalidArgument)

def yieldCurrent (cpu : SavedRegisters) : Code SavedRegisters := do
  modify Scheduler.requestReschedule
  schedule cpu

def retain (taskId : Nat) : Code Unit := do
  let s ← get
  let all ← filterCode (fun s r => decide ((s.cells r).id ≠ taskId)) s.allTasks
  modify fun s => { s with allTasks := all }
  let ready ← filterCode (fun s r => decide ((s.cells r).id ≠ taskId)) s.readyQueue
  modify fun s => { s with readyQueue := ready }

def retainAll : List Nat → Code Unit
  | [] => pure ()
  | id :: ids => do
    retain id
    retainAll ids

/-- The iterator of `cleanup_terminated` is lazy: the number of a terminated task is asked for before
the next task is looked at. -/
def terminatedIds : List TaskRef → Code (List Nat)
  | [] => pure []
  | r :: rs => do
    let terminated ← look r fun s => decide ((s.cells r).state = .terminated)
    if terminated then do
      let id ← look r fun s => (s.cells r).id
      let ids ← terminatedIds rs
      pure (id :: ids)
    else terminatedIds rs

def cleanupTerminated : Code Unit := do
  let s ← get
  let ids ← terminatedIds s.allTasks
  retainAll ids

/-- The four `create_*_task` methods and `create_idle_task` take no lock. -/
def creation (create : Scheduler → Scheduler × Nat) : Code Nat := do
  let s ← get
  modify fun s => (create s).1
  pure (create s).2

def lookCurrent {β : Type} (f : Task → β) : Code (Option β) := do
  let s ← get
  match s.current with
  | none => pure none
  | some r => do
    let b ← look r fun s => f (s.cells r)
    pure (some b)

def currentTaskId : Code (Option Nat) := lookCurrent Task.id

def currentTaskName : Code (Option String) := lookCurrent Task.name

def getTaskInfo (taskId : Nat) : Code (Option TaskInfo) :=
  findById taskId fun r s => (taskInfo (s.cells r), s)

def listTasks : Code (List TaskInfo) := do
  let s ← get
  foldCritical (fun infos r s => infos ++ [taskInfo (s.cells r)]) [] s.allTasks

def stats : Code SchedulerStats := do
  let s ← get
  let name ← currentTaskName
  pure ⟨s.taskCount, s.readyQueue.length, s.tickCount, s.contextSwitches, s.preemptEnabled,
    name.getD "none"⟩

/-- What an operation returns. After a switch, these are the registers that the processor goes on
with. -/
def Returned : Op → Type
  | .tick _ | .schedule _ | .terminateCurrent .. | .yieldCurrent _ => SavedRegisters
  | .preemptSchedule _ => Word
  | .unblockTask _ | .terminateTask .. | .sendSignal .. | .backgroundTask _ | .foregroundTask _ =>
    KernelResult Unit
  | .blockCurrent | .cleanupTerminated | .enablePreemption | .disablePreemption => Unit
  | .createKernelTask .. | .createKernelTaskWithPriority .. | .createBackgroundTask ..
      | .createUserTask ..
  | .createIdleTask .. => Nat

def returned (s : Scheduler) : (op : Op) → Returned op
  | .tick cpu => (s.tick cpu).2
  | .schedule cpu => (s.schedule cpu).2
  | .preemptSchedule currentRsp => (s.preemptSchedule currentRsp).2
  | .blockCurrent => ()
  | .unblockTask taskId => (s.unblockTask taskId).2
  | .terminateCurrent exitCode cpu => (s.terminateCurrent exitCode cpu).2
  | .terminateTask taskId exitCode => (s.terminateTask taskId exitCode).2
  | .sendSignal taskId signal => (s.sendSignal taskId signal).2
  | .backgroundTask taskId => (s.backgroundTask taskId).2
  | .foregroundTask taskId => (s.foregroundTask taskId).2
  | .yieldCurrent cpu => (s.yieldCurrent cpu).2
  | .cleanupTerminated => ()
  | .enablePreemption => ()
  | .disablePreemption => ()
  | .createKernelTask entry name now => (s.createKernelTask entry name now).2
  | .createKernelTaskWithPriority entry name priority now =>
    (s.createKernelTaskWithPriority entry name priority now).2
  | .createBackgroundTask entry name now => (s.createBackgroundTask entry name now).2
  | .createUserTask entry name now => (s.createUserTask entry name now).2
  | .createIdleTask idleTask now => (s.createIdleTask idleTask now).2

def code : (op : Op) → Code (Returned op)
  | .tick cpu => tick cpu
  | .schedule cpu => schedule cpu
  | .preemptSchedule currentRsp => preemptSchedule currentRsp
  | .blockCurrent => blockCurrent
  | .unblockTask taskId => unblockTask taskId
  | .terminateCurrent exitCode cpu => terminateCurrent exitCode cpu
  | .terminateTask taskId exitCode => terminateTask taskId exitCode
  | .sendSignal taskId signal => sendSignal taskId signal
  | .backgroundTask taskId => backgroundTask taskId
  | .foregroundTask taskId => foregroundTask taskId
  | .yieldCurrent cpu => yieldCurrent cpu
  | .cleanupTerminated => cleanupTerminated
  | .enablePreemption => modify Scheduler.enablePreemption
  | .disablePreemption => modify Scheduler.disablePreemption
  | .createKernelTask entry name now => creation (·.createKernelTask entry name now)
  | .createKernelTaskWithPriority entry name priority now =>
    creation (·.createKernelTaskWithPriority entry name priority now)
  | .createBackgroundTask entry name now => creation (·.createBackgroundTask entry name now)
  | .createUserTask entry name now => creation (·.createUserTask entry name now)
  | .createIdleTask idleTask now => creation (·.createIdleTask idleTask now)

inductive Query
  | currentTaskId
  | currentTaskName
  | getTaskInfo (taskId : Nat)
  | listTasks
  | stats

def Answer : Query → Type
  | .currentTaskId => Option Nat
  | .currentTaskName => Option String
  | .getTaskInfo _ => Option TaskInfo
  | .listTasks => List TaskInfo
  | .stats => SchedulerStats

def answer (s : Scheduler) : (query : Query) → Answer query
  | .currentTaskId => s.currentTaskId
  | .currentTaskName => s.currentTaskName
  | .getTaskInfo taskId => s.getTaskInfo taskId
  | .listTasks => s.listTasks
  | .stats => s.stats

def queryCode : (query : Query) → Code (Answer query)
  | .currentTaskId => currentTaskId
  | .currentTaskName => currentTaskName
  | .getTaskInfo taskId => getTaskInfo taskId
  | .listTasks => listTasks
  | .stats => stats

section Erasure

variable {s s' : Scheduler}

theorem does_update (r : TaskRef) (f : Scheduler → Scheduler) (s : Scheduler) :
    Does (update r f) s () (f s) :=
  does_critical r (fun s => ((), f s)) s

theorem does_look {β : Type} (r : TaskRef) (f : Scheduler → β) (s : Scheduler) :
    Does (look r f) s (f s) s :=
  does_critical r (fun s => (f s, s)) s

theorem foldl_filter (keep : TaskRef → Bool) (rs kept : List TaskRef) :
    rs.foldl (fun kept r => if keep r then kept ++ [r] else kept) kept = kept ++ rs.filter keep := by
  induction rs generalizing kept with
  | nil => exact (List.append_nil _).symm
  | cons r rs ih =>
    rw [List.foldl_cons, ih, List.filter_cons]
    split_ifs
    · rw [List.append_assoc]
      rfl
    · rfl

theorem does_filterCode (keep : Scheduler → TaskRef → Bool) (rs : List TaskRef) (s : Scheduler) :
    Does (filterCode keep rs) s (rs.filter (keep s)) s := by
  have h := does_foldCritical (fun kept r s => if keep s r then kept ++ [r] else kept) [] rs s
  rw [foldl_filter, List.nil_append] at h
  exact h

theorem foldl_scanStep (cells : TaskRef → Task) (queue : List TaskRef)
    (b : Nat × TaskPriority) (n : Nat) :
    queue.foldl (fun b r => (Scheduler.scanStep cells b.1 (r, b.2), b.2 + 1)) (b, n) =
      ((queue.zipIdx n).foldl (Scheduler.scanStep cells) b, n + queue.length) := by
  induction queue generalizing b n with
  | nil => rfl
  | cons r queue ih =>
    rw [List.foldl_cons, ih, List.zipIdx_cons, List.foldl_cons, List.length_cons, Nat.add_right_comm,
      Nat.add_assoc]

theorem does_takeAt (s : Scheduler) :
    Does (takeAt s.readyQueue (Scheduler.scan s.cells s.readyQueue).1) s
    s.pickNextTask.1 s.pickNextTask.2 := by
  rw [takeAt, Scheduler.pickNextTask]
  cases s.readyQueue[(Scheduler.scan s.cells s.readyQueue).1]? with
  | none => exact does_pure none s
  | some r =>
    refine (does_look r (fun s => decide ((s.cells r).state = .ready)) s).bind ?_
    by_cases hready : (s.cells r).state = .ready
    · simp only [hready, decide_true, if_true, ne_eq, not_true_eq_false, if_false]
      exact (does_modify _ s).bind (does_pure _ _)
    · simp only [hready, decide_false, Bool.false_eq_true, if_false, ne_eq, not_false_eq_true, if_true]
      exact does_pure none s

theorem does_pickNextTask (s : Scheduler) : Does pickNextTask s s.pickNextTask.1 s.pickNextTask.2 := by
  have hscan := does_foldCritical (fun b r s => (Scheduler.scanStep s.cells b.1 (r, b.2), b.2 + 1))
    ((0, TaskPriority.low), 0) s.readyQueue s
  rw [foldl_scanStep] at hscan
  exact (does_get s).bind (hscan.bind (does_takeAt s))

theorem does_release (s : Scheduler) :
    Does (whenSome s.current requeue) { s with needReschedule := false, current := none }
    () s.released := by
  rw [Scheduler.released, Scheduler.requeueCurrent]
  cases s.current with
  | none => exact does_pure () _
  | some r =>
    refine (does_critical r _ _).bind ?_
    by_cases hrunning : (s.cells r).state = .running
    · simp only [hrunning, if_true]
      exact does_modify _ _
    · simp only [hrunning, if_false, Bool.false_eq_true]
      exact does_pure () _

theorem does_whenSome_look (r : Option TaskRef) (s : Scheduler) :
    Does (whenSome r fun r => look r fun _ => ()) s () s := by
  cases r with
  | none => exact does_pure () s
  | some r => exact does_look r (fun _ => ()) s

theorem does_doContextSwitch (current : Option TaskRef) (next : TaskRef) (cpu : SavedRegisters)
    (s : Scheduler) : Does (doContextSwitch current next cpu) s (s.doContextSwitch current next cpu).2
      (s.doContextSwitch current next cpu).1 := by
  refine (does_whenSome_look current s).bind
    ((does_look next (fun _ => ()) s).bind ((does_get s).bind ?_))
  exact (does_modify _ s).bind (does_pure _ _)

theorem does_switchTo (s : Scheduler) (cpu : SavedRegisters) :
    Does (switchTo s.current cpu s.released.pickNextTask.1) s.released.pickNextTask.2
      (s.schedule cpu).2 (s.schedule cpu).1 := by
  rw [Scheduler.schedule]
  generalize s.released.pickNextTask = picked
  obtain ⟨next | next, s₁⟩ := picked
  · exact (does_modify _ _).bind (does_pure _ _)
  · dsimp only [switchTo]
    refine (does_update next _ s₁).bind ((does_modify _ _).bind ?_)
    split_ifs
    · exact (does_doContextSwitch s.current next cpu _).bind ((does_modify _ _).bind (does_pure _ _))
    · exact does_pure cpu _

theorem does_schedule (s : Scheduler) (cpu : SavedRegisters) :
    Does (schedule cpu) s (s.schedule cpu).2 (s.schedule cpu).1 := by
  refine (does_modify _ s).bind ((does_get _).bind ((does_modify _ _).bind ?_))
  exact (does_release s).bind ((does_pickNextTask s.released).bind (does_switchTo s cpu))

theorem does_scheduleIfNeeded (s : Scheduler) (cpu : SavedRegisters) :
    Does (scheduleIfNeeded cpu) s (s.scheduleIfNeeded cpu).2 (s.scheduleIfNeeded cpu).1 := by
  refine (does_get s).bind ?_
  rw [Scheduler.scheduleIfNeeded]
  split_ifs
  · exact does_schedule s cpu
  · exact does_pure cpu s

theorem does_tick (s : Scheduler) (cpu : SavedRegisters) :
    Does (tick cpu) s (s.tick cpu).2 (s.tick cpu).1 := by
  refine (does_modify _ s).bind ((does_get _).bind ?_)
  rw [Scheduler.tick]
  generalize s.countTick = s
  dsimp only
  split_ifs
  · exact does_pure cpu s
  · cases hc : s.current with
    | none => exact does_scheduleIfNeeded s cpu
    | some r =>
      have hcharge := does_critical r (fun s =>
        let d := deliverSignal (s.cells r)
        if d.2 then (some true, s.modify r fun _ => d.1)
        else if d.1.state ≠ .running then (some false, (s.modify r fun _ => d.1).requestReschedule)
        else (none, s.charge r d.1)) s
      refine hcharge.bind ?_
      dsimp only
      generalize deliverSignal (s.cells r) = d
      obtain ⟨t, killed⟩ := d
      cases killed with
      | true => exact (does_modify _ _).bind (does_pure cpu _)
      | false =>
        by_cases hrun : t.state = .running
        · simp only [hrun, ne_eq, not_true_eq_false, decide_false, Bool.or_false,
            Bool.false_eq_true, if_false]
          exact does_scheduleIfNeeded _ cpu
        · simp only [hrun, ne_eq, not_false_eq_true, decide_true, Bool.or_true, Bool.false_eq_true,
            if_false, if_true]
          exact does_pure cpu _

theorem does_saveCurrent (s : Scheduler) (rsp : Word) :
    Does (whenSome s.current fun r => do
      update r fun s => s.modify r fun t => { t with savedRsp := rsp, state := .ready }.resetTimeSlice
      modify fun s => s.pushBack r) s () (s.saveCurrent rsp) := by
  rw [Scheduler.saveCurrent]
  cases s.current with
  | none => exact does_pure () s
  | some r => exact (does_update r _ s).bind (does_modify _ _)

theorem does_restoreCurrent (s : Scheduler) :
    Does (whenSome s.current fun r => update r fun s => s.modify r fun t =>
      { t with state := .running }) s () s.restoreCurrent := by
  rw [Scheduler.restoreCurrent]
  cases s.current with
  | none => exact does_pure () s
  | some r => exact does_update r _ s

theorem does_preemptSchedule (s : Scheduler) (rsp : Word) :
    Does (preemptSchedule rsp) s (s.preemptSchedule rsp).2 (s.preemptSchedule rsp).1 := by
  refine (does_get s).bind ?_
  rw [Scheduler.preemptSchedule]
  split_ifs
  · exact does_pure rsp s
  · refine (does_saveCurrent s rsp).bind ((does_pickNextTask _).bind ?_)
    generalize (s.saveCurrent rsp).pickNextTask = picked
    obtain ⟨next | next, s₁⟩ := picked
    · exact (does_get s₁).bind ((does_restoreCurrent s₁).bind (does_pure rsp _))
    · refine (does_update next _ s₁).bind ((does_look next _ _).bind ?_)
      exact (does_modify _ _).bind ((does_modify _ _).bind (does_pure _ _))

theorem does_blockCurrent (s : Scheduler) : Does blockCurrent s () s.blockCurrent := by
  refine (does_get s).bind ?_
  rw [Scheduler.blockCurrent]
  cases s.current with
  | none => exact does_pure () s
  | some r => exact does_update r _ s

theorem does_pushReady (r : TaskRef) (s : Scheduler) :
    Does (pushReady r) s (.ok ()) (s.pushBack r).requestReschedule :=
  (does_modify _ s).bind ((does_modify _ _).bind (does_pure _ _))

theorem does_unblockTask (s : Scheduler) (taskId : Nat) :
    Does (unblockTask taskId) s (s.unblockTask taskId).2 (s.unblockTask taskId).1 := by
  refine (does_get s).bind ((does_findCritical _ _ s.allTasks s).bind ?_)
  rw [Scheduler.unblockTask, Scheduler.findBlocked]
  cases s.allTasks.find? fun r => decide ((s.cells r).id = taskId ∧ (s.cells r).state = .blocked) with
  | none => exact does_pure _ s
  | some r => exact does_pushReady r _

theorem does_terminateCurrent (s : Scheduler) (exitCode : Int) (cpu : SavedRegisters) :
    Does (terminateCurrent exitCode cpu) s (s.terminateCurrent exitCode cpu).2
      (s.terminateCurrent exitCode cpu).1 := by
  refine (does_get s).bind ?_
  rw [Scheduler.terminateCurrent]
  cases s.current with
  | none => exact (does_pure () s).bind ((does_modify _ s).bind (does_schedule _ cpu))
  | some r => exact (does_update r _ s).bind ((does_modify _ _).bind (does_schedule _ cpu))

theorem does_findById {β : Type} (taskId : Nat) (f : TaskRef → Scheduler → β × Scheduler)
    (s : Scheduler) : Does (findById taskId f) s ((s.findTask taskId).map fun r => (f r s).1)
      (((s.findTask taskId).map fun r => (f r s).2).getD s) :=
  (does_get s).bind (does_findCritical _ f s.allTasks s)

theorem does_terminateTask (s : Scheduler) (taskId : Nat) (exitCode : Int) :
    Does (terminateTask taskId exitCode) s (s.terminateTask taskId exitCode).2
      (s.terminateTask taskId exitCode).1 := by
  rw [terminateTask, Scheduler.terminateTask]
  split_ifs
  · exact does_pure _ s
  · refine (does_findById taskId _ s).bind ?_
    cases s.findTask taskId with
    | none => exact does_pure _ s
    | some r =>
      refine (does_modify _ _).bind ((does_get _).bind ((does_filterCode _ _ _).bind ?_))
      exact (does_modify _ _).bind (does_pure _ _)

theorem does_sendSignal (s : Scheduler) (taskId signal : Nat) :
    Does (sendSignal taskId signal) s (s.sendSignal taskId signal).2 (s.sendSignal taskId signal).1 := by
  refine (does_findById taskId _ s).bind ?_
  rw [Scheduler.sendSignal]
  cases s.findTask taskId with
  | none => exact does_pure _ s
  | some r => exact does_pure _ _

theorem does_backgroundTask (s : Scheduler) (taskId : Nat) :
    Does (backgroundTask taskId) s (s.backgroundTask taskId).2 (s.backgroundTask taskId).1 := by
  refine (does_findById taskId _ s).bind ?_
  rw [Scheduler.backgroundTask]
  cases s.findTask taskId with
  | none => exact does_pure _ s
  | some r =>
    dsimp only [Option.map_some, Option.getD_some]
    split_ifs
    · exact does_pure _ s
    · exact does_pushReady r _

theorem does_foregroundTask (s : Scheduler) (taskId : Nat) :
    Does (foregroundTask taskId) s (s.foregroundTask taskId).2 (s.foregroundTask taskId).1 := by
  refine (does_findById taskId _ s).bind ?_
  rw [Scheduler.foregroundTask]
  cases s.findTask taskId with
  | none => exact does_pure _ s
  | some r =>
    dsimp only [Option.map_some, Option.getD_some]
    split_ifs
    · exact does_pure _ s
    · exact does_pushReady r _
    · exact does_pure _ _

theorem does_yieldCurrent (s : Scheduler) (cpu : SavedRegisters) :
    Does (yieldCurrent cpu) s (s.yieldCurrent cpu).2 (s.yieldCurrent cpu).1 :=
  (does_modify _ s).bind (does_schedule _ cpu)

theorem does_retain (taskId : Nat) (s : Scheduler) : Does (retain taskId) s () (s.retain taskId) := by
  refine (does_get s).bind ((does_filterCode _ _ s).bind ((does_modify _ s).bind ?_))
  exact (does_filterCode _ _ _).bind (does_modify _ _)

theorem does_retainAll (ids : List Nat) (s : Scheduler) :
    Does (retainAll ids) s () (ids.foldl Scheduler.retain s) := by
  induction ids generalizing s with
  | nil => exact does_pure () s
  | cons id ids ih => exact (does_retain id s).bind (ih _)

theorem does_terminatedIds (rs : List TaskRef) (s : Scheduler) :
    Does (terminatedIds rs) s ((rs.filter fun r => (s.cells r).state = .terminated).map fun r =>
      (s.cells r).id) s := by
  induction rs with
  | nil => exact does_pure [] s
  | cons r rs ih =>
    refine (does_look r (fun s => decide ((s.cells r).state = .terminated)) s).bind ?_
    rw [List.filter_cons]
    split_ifs
    · exact (does_look r (fun s => (s.cells r).id) s).bind (ih.bind (does_pure _ s))
    · exact ih

theorem does_cleanupTerminated (s : Scheduler) : Does cleanupTerminated s () s.cleanupTerminated :=
  (does_get s).bind ((does_terminatedIds s.allTasks s).bind (does_retainAll _ s))

theorem does_creation (create : Scheduler → Scheduler × Nat) (s : Scheduler) :
    Does (creation create) s (create s).2 (create s).1 :=
  (does_get s).bind ((does_modify _ s).bind (does_pure _ _))

theorem does_code (s : Scheduler) (op : Op) : Does (code op) s (returned s op) (step s op) := by
  cases op with
  | tick cpu => exact does_tick s cpu
  | schedule cpu => exact does_schedule s cpu
  | preemptSchedule rsp => exact does_preemptSchedule s rsp
  | blockCurrent => exact does_blockCurrent s
  | unblockTask taskId => exact does_unblockTask s taskId
  | terminateCurrent exitCode cpu => exact does_terminateCurrent s exitCode cpu
  | terminateTask taskId exitCode => exact does_terminateTask s taskId exitCode
  | sendSignal taskId signal => exact does_sendSignal s taskId signal
  | backgroundTask taskId => exact does_backgroundTask s taskId
  | foregroundTask taskId => exact does_foregroundTask s taskId
  | yieldCurrent cpu => exact does_yieldCurrent s cpu
  | cleanupTerminated => exact does_cleanupTerminated s
  | enablePreemption => exact does_modify _ s
  | disablePreemption => exact does_modify _ s
  | createKernelTask => exact does_creation _ s
  | createKernelTaskWithPriority => exact does_creation _ s
  | createBackgroundTask => exact does_creation _ s
  | createUserTask => exact does_creation _ s
  | createIdleTask => exact does_creation _ s

theorem does_lookCurrent {β : Type} (f : Task → β) (s : Scheduler) :
    Does (lookCurrent f) s (s.current.map fun r => f (s.cells r)) s := by
  refine (does_get s).bind ?_
  cases s.current with
  | none => exact does_pure none s
  | some r => exact (does_look r (fun s => f (s.cells r)) s).bind (does_pure _ s)

theorem does_getTaskInfo (s : Scheduler) (taskId : Nat) :
    Does (getTaskInfo taskId) s (s.getTaskInfo taskId) s := by
  have h := does_findById taskId (fun r s => (taskInfo (s.cells r), s)) s
  rw [Scheduler.getTaskInfo]
  cases hfind : s.findTask taskId with
  | none =>
    rw [hfind] at h
    exact h
  | some r =>
    rw [hfind] at h
    exact h

theorem foldl_append_map {β : Type} (f : TaskRef → β) (rs : List TaskRef) (bs : List β) :
    rs.foldl (fun bs r => bs ++ [f r]) bs = bs ++ rs.map f := by
  induction rs generalizing bs with
  | nil => exact (List.append_nil _).symm
  | cons r rs ih => rw [List.foldl_cons, ih, List.append_assoc, List.map_cons]; rfl

theorem does_listTasks (s : Scheduler) : Does listTasks s s.listTasks s := by
  have h := does_foldCritical (fun infos r s => infos ++ [taskInfo (s.cells r)]) [] s.allTasks s
  rw [foldl_append_map, List.nil_append] at h
  exact (does_get s).bind h

theorem does_queryCode (s : Scheduler) (query : Query) :
    Does (queryCode query) s (answer s query) s := by
  cases query with
  | currentTaskId => exact does_lookCurrent Task.id s
  | currentTaskName => exact does_lookCurrent Task.name s
  | getTaskInfo taskId => exact does_getTaskInfo s taskId
  | listTasks => exact does_listTasks s
  | stats => exact (does_get s).bind ((does_lookCurrent Task.name s).bind (does_pure _ s))

end Erasure

section Requests

variable {r : TaskRef} {s : Scheduler}

theorem requests_takeAt (queue : List TaskRef) (i : Nat) (h : r ∈ requests (takeAt queue i) s []) :
    r ∈ queue := by
  rw [takeAt] at h
  cases hq : queue[i]? with
  | none =>
    rw [hq] at h
    cases h
  | some q =>
    rw [hq] at h
    dsimp only at h
    rw [(does_look q (fun s => decide ((s.cells q).state = .ready)) s).requests_bind, look,
      requests_critical, List.mem_append, List.mem_singleton] at h
    obtain rfl | h := h
    · exact List.mem_of_getElem? hq
    · split_ifs at h
      · rw [(does_modify _ s).requests_bind, requests_modify, requests_pure] at h
        cases h
      · cases h

theorem mem_requests_pickNextTask (s : Scheduler) :
    r ∈ requests pickNextTask s [] ↔ r ∈ s.readyQueue := by
  have hscan := does_foldCritical (fun b r s => (Scheduler.scanStep s.cells b.1 (r, b.2), b.2 + 1))
    ((0, TaskPriority.low), 0) s.readyQueue s
  rw [pickNextTask, (does_get s).requests_bind, requests_get, List.nil_append, hscan.requests_bind,
    requests_foldCritical, List.mem_append, or_iff_left_iff_imp]
  exact requests_takeAt s.readyQueue _

theorem requests_preemptTo (rsp : Word) (next : Option TaskRef)
    (h : r ∈ requests (preemptTo rsp next) s []) : next = some r ∨ s.current = some r := by
  cases next with
  | some next =>
    left
    rw [preemptTo, (does_update next _ s).requests_bind, (does_look next _ _).requests_bind,
      (does_modify _ _).requests_bind, (does_modify _ _).requests_bind, update, requests_critical, look,
      requests_critical, requests_modify, requests_modify, requests_pure] at h
    simp only [List.append_nil, List.mem_append, List.mem_singleton, or_self] at h
    rw [h]
  | none =>
    right
    rw [preemptTo, (does_get s).requests_bind, requests_get, List.nil_append,
      (does_restoreCurrent s).requests_bind, requests_pure, List.append_nil] at h
    cases hc : s.current with
    | none =>
      rw [hc] at h
      cases h
    | some q =>
      rw [hc, whenSome, update, requests_critical, List.mem_singleton] at h
      rw [h]

theorem requests_saveCurrent (s : Scheduler) (rsp : Word) :
    requests (whenSome s.current fun r => do
      update r fun s => s.modify r fun t => { t with savedRsp := rsp, state := .ready }.resetTimeSlice
      modify fun s => s.pushBack r) s [] = s.current.toList := by
  cases s.current with
  | none => rfl
  | some q =>
    rw [whenSome, (does_update q _ s).requests_bind, update, requests_critical, requests_modify]
    rfl

theorem mem_requests_preemptSchedule (s : Scheduler) (rsp : Word) :
    r ∈ requests (preemptSchedule rsp) s [] ↔
    s.preemptEnabled = true ∧ (s.current = some r ∨ r ∈ s.readyQueue) := by
  rw [preemptSchedule, (does_get s).requests_bind, requests_get, List.nil_append]
  cases he : s.preemptEnabled with
  | false => simp [requests_pure]
  | true =>
    simp only [Bool.not_true, Bool.false_eq_true, if_false, true_and]
    rw [(does_saveCurrent s rsp).requests_bind, requests_saveCurrent,
      (does_pickNextTask _).requests_bind,
      List.mem_append, List.mem_append, mem_requests_pickNextTask, Option.mem_toList]
    have hqueue : r ∈ (s.saveCurrent rsp).readyQueue ↔ r ∈ s.readyQueue ∨ s.current = some r := by
      simp only [Scheduler.saveCurrent_eq, List.mem_append, Option.mem_toList]
    have hlast : r ∈ requests (preemptTo rsp (s.saveCurrent rsp).pickNextTask.1)
        (s.saveCurrent rsp).pickNextTask.2 [] →
        r ∈ s.readyQueue ∨ s.current = some r := by
      intro h
      obtain ⟨-, hp⟩ | ⟨pre, next, post, hq, -, hp, -⟩ := (s.saveCurrent rsp).pickNextTask_cases
      · rw [hp] at h
        obtain h | h := requests_preemptTo rsp _ h
        · cases h
        · right
          simpa only [Scheduler.saveCurrent_eq] using h
      · rw [hp] at h
        obtain h | h := requests_preemptTo rsp _ h
        · cases h
          exact hqueue.mp (by rw [hq]; exact List.mem_append_right _ List.mem_cons_self)
        · right
          simpa only [Scheduler.saveCurrent_eq] using h
    rw [hqueue]
    tauto

/-- The timer interrupt waits forever exactly if the code it interrupts holds the lock of the current
task or of one in the queue. -/
theorem interrupt_blocks_iff (s : Scheduler) (held : List TaskRef) (rsp : Word) :
    exec (preemptSchedule rsp) s held = none ↔
      s.preemptEnabled = true ∧ ∃ r ∈ held, s.current = some r ∨ r ∈ s.readyQueue := by
  have hunder := exec_under (does_preemptSchedule s rsp).exec held
  rw [List.nil_append] at hunder
  rw [hunder, ite_eq_left_iff]
  simp only [mem_requests_preemptSchedule, reduceCtorEq, imp_false, not_not]
  constructor
  · rintro ⟨r, ⟨he, hr⟩, hheld⟩
    exact ⟨he, r, hheld, hr⟩
  · rintro ⟨he, r, hheld, hr⟩
    exact ⟨r, ⟨he, hr⟩, hheld⟩

theorem listTasks_locks {r : TaskRef} (hr : r ∈ s.allTasks) : (s, [r]) ∈ points listTasks s [] :=
  mem_points_bind_right (does_get s).exec (mem_points_foldCritical _ _ hr s)

end Requests

/-- The interrupt of the timer, at a point of a method and with the locks that are held there. -/
def Blocks (c : Scheduler × List TaskRef) (rsp : Word) : Prop :=
  exec (preemptSchedule rsp) c.1 c.2 = none

/-- The current task or one in the queue is locked. -/
def Locked (c : Scheduler × List TaskRef) : Prop := ∃ r ∈ c.2, c.1.current = some r ∨ r ∈ c.1.readyQueue

/-- The methods of the scheduler take one task lock at a time and never wait for one they hold; by
themselves they return and leave what they do in one step. A timer interrupt in between waits forever
exactly if preemption is on and the lock that is held then is that of the current task or of one in
the queue, and a listing has such a point for each of these tasks that it lists. -/
theorem scheduler_locks (s : Scheduler) :
    (∀ op, Does (code op) s (returned s op) (step s op) ∧ ∀ c ∈ points (code op) s [], ∀ rsp,
      Blocks c rsp ↔ c.1.preemptEnabled = true ∧ Locked c) ∧
    (∀ query, Does (queryCode query) s (answer s query) s ∧ ∀ c ∈ points (queryCode query) s [], ∀ rsp,
      Blocks c rsp ↔ c.1.preemptEnabled = true ∧ Locked c) ∧
    ∀ r ∈ s.allTasks, s.preemptEnabled = true → s.current = some r ∨ r ∈ s.readyQueue →
      ∃ c ∈ points listTasks s [], ∀ rsp, Blocks c rsp := by
  refine ⟨fun op => ⟨does_code s op, fun c _ => interrupt_blocks_iff c.1 c.2⟩,
    fun query => ⟨does_queryCode s query, fun c _ => interrupt_blocks_iff c.1 c.2⟩, fun r hr he hq => ?_⟩
  refine ⟨(s, [r]), listTasks_locks hr, fun rsp => (interrupt_blocks_iff s [r] rsp).mpr ⟨he, r, ?_, hq⟩⟩
  exact List.mem_singleton_self r

end DeltaOS.SchedLocks
