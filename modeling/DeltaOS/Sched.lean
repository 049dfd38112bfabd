import DeltaOS.Tasks

namespace DeltaOS.Sched

open Kernel Tasks

/-- An `Arc<Mutex<Task>>`: two handles are the same task exactly when they are equal. -/
abbrev TaskRef := Nat

/-- The fields of `Scheduler`, followed by what its methods reach through them: the
cells behind the task handles, `DUMMY_REGS` and the statics of task creation. -/
structure Scheduler where
  readyQueue : List TaskRef
  current : Option TaskRef
  allTasks : List TaskRef
  taskCount : Nat
  tickCount : Nat
  needReschedule : Bool
  preemptEnabled : Bool
  schedulerTicks : Nat
  contextSwitches : Nat
  cells : TaskRef → Task
  nextRef : TaskRef
  dummyRegs : SavedRegisters
  statics : Statics

namespace Scheduler

def new (g : Statics) : Scheduler where
  readyQueue := []
  current := none
  allTasks := []
  taskCount := 0
  tickCount := 0
  needReschedule := false
  preemptEnabled := false
  schedulerTicks := 0
  contextSwitches := 0
  cells := fun _ => Task.create 0 .kernel 0 0 0 ""
  nextRef := 0
  dummyRegs := {}
  statics := g

@[simps]
def modify (s : Scheduler) (r : TaskRef) (f : Task → Task) : Scheduler :=
  { s with cells := Function.update s.cells r (f (s.cells r)) }

@[simps]
def pushBack (s : Scheduler) (r : TaskRef) : Scheduler :=
  { s with readyQueue := s.readyQueue ++ [r] }

@[simps]
def requestReschedule (s : Scheduler) : Scheduler := { s with needReschedule := true }

/-- What the four `create_*_task` functions do with the task their constructor returns. -/
def addTask (s : Scheduler) (t : Task × Statics) (now : Nat) : Scheduler × Nat :=
  let f := t.1.setupInitialStack t.2.mem
  ({ s with
      readyQueue := s.readyQueue ++ [s.nextRef]
      allTasks := s.allTasks ++ [s.nextRef]
      taskCount := s.taskCount + 1
      cells := Function.update s.cells s.nextRef { f.1 with startTick := now }
      nextRef := s.nextRef + 1
      statics := { t.2 with mem := f.2 } }, t.1.id)

def createKernelTask (s : Scheduler) (entry : Word) (name : String) (now : Nat) : Scheduler × Nat :=
  s.addTask (Task.newKernel s.statics entry name) now

def createKernelTaskWithPriority (s : Scheduler) (entry : Word) (name : String)
    (priority : TaskPriority) (now : Nat) : Scheduler × Nat :=
  s.addTask (Task.newKernelWithPriority s.statics entry name priority) now

def createBackgroundTask (s : Scheduler) (entry : Word) (name : String) (now : Nat) :
    Scheduler × Nat :=
  s.addTask (Task.newKernelBackground s.statics entry name) now

def createUserTask (s : Scheduler) (entry : Word) (name : String) (now : Nat) : Scheduler × Nat :=
  s.addTask (Task.newUser s.statics entry name) now

def createIdleTask (s : Scheduler) (idleTask : Word) (now : Nat) : Scheduler × Nat :=
  s.createKernelTaskWithPriority idleTask "idle" .low now

def scanStep (cells : TaskRef → Task) (best : Nat × TaskPriority) (entry : TaskRef × Nat) :
    Nat × TaskPriority :=
  if (cells entry.1).state = .ready ∧ (cells entry.1).priority > best.2 then
    (entry.2, (cells entry.1).priority)
  else best

def scan (cells : TaskRef → Task) (queue : List TaskRef) : Nat × TaskPriority :=
  queue.zipIdx.foldl (scanStep cells) (0, .low)

def pickNextTask (s : Scheduler) : Option TaskRef × Scheduler :=
  let bestIdx := (scan s.cells s.readyQueue).1
  match s.readyQueue[bestIdx]? with
  | none => (none, s)
  | some r =>
    if (s.cells r).state ≠ .ready then (none, s)
    else (some r, { s with readyQueue := s.readyQueue.eraseIdx bestIdx })

/-- The store half of `context_switch`, followed by its load half. -/
def doContextSwitch (s : Scheduler) (current : Option TaskRef) (next : TaskRef)
    (cpu : SavedRegisters) : Scheduler × SavedRegisters :=
  let s := match current with
    | some r => s.modify r fun t => { t with regs := cpu }
    | none => { s with dummyRegs := cpu }
  (s, (s.cells next).regs)

def requeueCurrent (s : Scheduler) : Scheduler :=
  match s.current with
  | none => s
  | some r =>
    if (s.cells r).state = .running then
      (s.modify r fun t => { t with state := .ready }.resetTimeSlice).pushBack r
    else s

@[simps]
def dispatch (s : Scheduler) (next : TaskRef) : Scheduler :=
  { s.modify next (fun t => { t with state := .running }) with current := some next }

@[simps]
def countSwitch (s : Scheduler) : Scheduler := { s with contextSwitches := s.contextSwitches + 1 }

/-- The first half of `schedule`: the current task is taken, and put at the back of the
queue when it was running. -/
def released (s : Scheduler) : Scheduler :=
  { s.requeueCurrent with needReschedule := false, current := none }

/-- The registers are those of the processor before and after the call: the ones
`context_switch` stores for the task it leaves and loads for the task it enters. -/
def schedule (s : Scheduler) (cpu : SavedRegisters) : Scheduler × SavedRegisters :=
  let prev := s.current
  match s.released.pickNextTask with
  | (some next, s) =>
    let s := s.dispatch next
    if prev ≠ some next then
      let w := s.doContextSwitch prev next cpu
      (w.1.countSwitch, w.2)
    else (s, cpu)
  | (none, s) => ({ s with current := prev }, cpu)

def saveCurrent (s : Scheduler) (rsp : Word) : Scheduler :=
  match s.current with
  | none => s
  | some r =>
    (s.modify r fun t => { t with savedRsp := rsp, state := .ready }.resetTimeSlice).pushBack r

def restoreCurrent (s : Scheduler) : Scheduler :=
  match s.current with
  | none => s
  | some r => s.modify r fun t => { t with state := .running }

def preemptSchedule (s : Scheduler) (currentRsp : Word) : Scheduler × Word :=
  if !s.preemptEnabled then (s, currentRsp)
  else
    match (s.saveCurrent currentRsp).pickNextTask with
    | (some next, s) =>
      let s := s.dispatch next
      (s.countSwitch, (s.cells next).savedRsp)
    | (none, s) => (s.restoreCurrent, currentRsp)

end Scheduler

/-- The signal handling at the start of `tick`; the flag says whether `tick` returns there. -/
def deliverSignal (t : Task) : Task × Bool :=
  if t.pendingSignals = 0 then (t, false)
  else
    match t.popSignal with
    | (none, t) => (t, false)
    | (some signal, t) =>
      if signal = sigkill then ({ t with state := .terminated, exitCode := -9 }, true)
      else if signal = sigtstp then ({ t with foreground := .stopped, state := .blocked }, true)
      else if signal = sigcont then
        if t.foreground = .stopped then
          ({ t with foreground := .background, state := .running }, false)
        else (t, false)
      else (t, false)

def consumeTick (t : Task) : Task :=
  { t with totalCpuTicks := t.totalCpuTicks + 1, timeSlice := t.timeSlice - 1 }

namespace Scheduler

@[simps]
def countTick (s : Scheduler) : Scheduler :=
  { s with tickCount := s.tickCount + 1, schedulerTicks := s.schedulerTicks + 1 }

def scheduleIfNeeded (s : Scheduler) (cpu : SavedRegisters) : Scheduler × SavedRegisters :=
  if s.needReschedule then s.schedule cpu else (s, cpu)

def charge (s : Scheduler) (r : TaskRef) (t : Task) : Scheduler :=
  let s := s.modify r fun _ => consumeTick t
  if (consumeTick t).timeSlice = 0 then s.requestReschedule else s

def tick (s : Scheduler) (cpu : SavedRegisters) : Scheduler × SavedRegisters :=
  let s := s.countTick
  if !s.preemptEnabled then (s, cpu)
  else
    match s.current with
    | none => s.scheduleIfNeeded cpu
    | some r =>
      let d := deliverSignal (s.cells r)
      if d.2 || d.1.state ≠ .running then ((s.modify r fun _ => d.1).requestReschedule, cpu)
      else (s.charge r d.1).scheduleIfNeeded cpu

def blockCurrent (s : Scheduler) : Scheduler :=
  match s.current with
  | none => s
  | some r => (s.modify r fun t => { t with state := .blocked }).requestReschedule

def findTask (s : Scheduler) (taskId : Nat) : Option TaskRef :=
  s.allTasks.find? fun r => (s.cells r).id = taskId

def findBlocked (s : Scheduler) (taskId : Nat) : Option TaskRef :=
  s.allTasks.find? fun r => (s.cells r).id = taskId ∧ (s.cells r).state = .blocked

def unblockTask (s : Scheduler) (taskId : Nat) : Scheduler × KernelResult Unit :=
  match s.findBlocked taskId with
  | some r =>
    (((s.modify r fun t => { t with state := .ready }).pushBack r).requestReschedule, .ok ())
  | none => (s, .error .invalidArgument)

def terminateCurrent (s : Scheduler) (exitCode : Int) (cpu : SavedRegisters) :
    Scheduler × SavedRegisters :=
  let s := match s.current with
    | none => s
    | some r => s.modify r fun t => { t with state := .terminated, exitCode := exitCode }
  s.requestReschedule.schedule cpu

def terminateTask (s : Scheduler) (taskId : Nat) (exitCode : Int) : Scheduler × KernelResult Unit :=
  if taskId ≤ 2 then (s, .error .accessDenied)
  else
    match s.findTask taskId with
    | some r =>
      let s := s.modify r fun t => { t with state := .terminated, exitCode := exitCode }
      ({ s.requestReschedule with
          readyQueue := s.readyQueue.filter fun a => (s.cells a).id ≠ taskId }, .ok ())
    | none => (s, .error .invalidArgument)

def sendSignal (s : Scheduler) (taskId signal : Nat) : Scheduler × KernelResult Unit :=
  match s.findTask taskId with
  | some r => (s.modify r fun t => t.sendSignal signal, .ok ())
  | none => (s, .error .invalidArgument)

def backgroundTask (s : Scheduler) (taskId : Nat) : Scheduler × KernelResult Unit :=
  match s.findTask taskId with
  | some r =>
    if (s.cells r).foreground ≠ .stopped then (s, .error .invalidArgument)
    else
      (((s.modify r fun t =>
          { t with foreground := .background, state := .ready }.sendSignal sigcont).pushBack r
        ).requestReschedule, .ok ())
  | none => (s, .error .invalidArgument)

/-- The test for `Stopped` comes after the assignment it should precede, as in the source. -/
def foregroundTask (s : Scheduler) (taskId : Nat) : Scheduler × KernelResult Unit :=
  match s.findTask taskId with
  | some r =>
    if (s.cells r).foreground = .foreground then (s, .error .invalidArgument)
    else
      let s := s.modify r fun t => { t with foreground := .foreground }
      if (s.cells r).foreground = .stopped then
        (((s.modify r fun t => { t with state := .ready }.sendSignal sigcont).pushBack r
          ).requestReschedule, .ok ())
      else (s, .ok ())
  | none => (s, .error .invalidArgument)

def yieldCurrent (s : Scheduler) (cpu : SavedRegisters) : Scheduler × SavedRegisters :=
  s.requestReschedule.schedule cpu

@[simps]
def enablePreemption (s : Scheduler) : Scheduler := { s with preemptEnabled := true }

@[simps]
def disablePreemption (s : Scheduler) : Scheduler := { s with preemptEnabled := false }

@[simps]
def retain (s : Scheduler) (taskId : Nat) : Scheduler :=
  { s with
    allTasks := s.allTasks.filter fun r => (s.cells r).id ≠ taskId
    readyQueue := s.readyQueue.filter fun r => (s.cells r).id ≠ taskId }

def cleanupTerminated (s : Scheduler) : Scheduler :=
  let terminated := (s.allTasks.filter fun r => (s.cells r).state = .terminated).map
    fun r => (s.cells r).id
  terminated.foldl retain s

end Scheduler

structure TaskInfo where
  id : Nat
  name : String
  state : TaskState
  priority : TaskPriority
  taskType : TaskType
  foreground : TaskForeground
  entryPoint : Word
  cpuTicks : Word
  exitCode : Int

def taskInfo (t : Task) : TaskInfo where
  id := t.id
  name := t.name
  state := t.state
  priority := t.priority
  taskType := t.taskType
  foreground := t.foreground
  entryPoint := t.entryPoint
  cpuTicks := t.totalCpuTicks
  exitCode := t.exitCode

structure SchedulerStats where
  totalTasks : Nat
  readyTasks : Nat
  tickCount : Nat
  contextSwitches : Nat
  preemptionEnabled : Bool
  currentTask : String

namespace Scheduler

def currentTaskId (s : Scheduler) : Option Nat := s.current.map fun r => (s.cells r).id

def currentTaskName (s : Scheduler) : Option String := s.current.map fun r => (s.cells r).name

def getTaskInfo (s : Scheduler) (taskId : Nat) : Option TaskInfo :=
  (s.findTask taskId).map fun r => taskInfo (s.cells r)

def listTasks (s : Scheduler) : List TaskInfo := s.allTasks.map fun r => taskInfo (s.cells r)

def stats (s : Scheduler) : SchedulerStats where
  totalTasks := s.taskCount
  readyTasks := s.readyQueue.length
  tickCount := s.tickCount
  contextSwitches := s.contextSwitches
  preemptionEnabled := s.preemptEnabled
  currentTask := s.currentTaskName.getD "none"

end Scheduler

/-- The operations on the scheduler. Those that may end in `context_switch` carry the
registers of the processor at the call, a creation the tick count it is stamped with. -/
inductive Op
  | createKernelTask (entry : Word) (name : String) (now : Nat)
  | createKernelTaskWithPriority (entry : Word) (name : String) (priority : TaskPriority) (now : Nat)
  | createBackgroundTask (entry : Word) (name : String) (now : Nat)
  | createUserTask (entry : Word) (name : String) (now : Nat)
  | createIdleTask (idleTask : Word) (now : Nat)
  | tick (cpu : SavedRegisters)
  | schedule (cpu : SavedRegisters)
  | preemptSchedule (currentRsp : Word)
  | blockCurrent
  | unblockTask (taskId : Nat)
  | terminateCurrent (exitCode : Int) (cpu : SavedRegisters)
  | terminateTask (taskId : Nat) (exitCode : Int)
  | sendSignal (taskId signal : Nat)
  | backgroundTask (taskId : Nat)
  | foregroundTask (taskId : Nat)
  | yieldCurrent (cpu : SavedRegisters)
  | cleanupTerminated
  | enablePreemption
  | disablePreemption

def step (s : Scheduler) : Op → Scheduler
  | .createKernelTask entry name now => (s.createKernelTask entry name now).1
  | .createKernelTaskWithPriority entry name priority now =>
    (s.createKernelTaskWithPriority entry name priority now).1
  | .createBackgroundTask entry name now => (s.createBackgroundTask entry name now).1
  | .createUserTask entry name now => (s.createUserTask entry name now).1
  | .createIdleTask idleTask now => (s.createIdleTask idleTask now).1
  | .tick cpu => (s.tick cpu).1
  | .schedule cpu => (s.schedule cpu).1
  | .preemptSchedule currentRsp => (s.preemptSchedule currentRsp).1
  | .blockCurrent => s.blockCurrent
  | .unblockTask taskId => (s.unblockTask taskId).1
  | .terminateCurrent exitCode cpu => (s.terminateCurrent exitCode cpu).1
  | .terminateTask taskId exitCode => (s.terminateTask taskId exitCode).1
  | .sendSignal taskId signal => (s.sendSignal taskId signal).1
  | .backgroundTask taskId => (s.backgroundTask taskId).1
  | .foregroundTask taskId => (s.foregroundTask taskId).1
  | .yieldCurrent cpu => (s.yieldCurrent cpu).1
  | .cleanupTerminated => s.cleanupTerminated
  | .enablePreemption => s.enablePreemption
  | .disablePreemption => s.disablePreemption

end DeltaOS.Sched
