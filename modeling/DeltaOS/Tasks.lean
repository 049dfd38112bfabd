import DeltaOS.ByteMemory
import DeltaOS.Kernel

namespace DeltaOS.Tasks

open ByteMemory Kernel

inductive TaskState
  | ready
  | running
  | blocked
  | terminated
  | zombie
deriving DecidableEq, Repr

inductive TaskPriority
  | low
  | normal
  | high
  | realTime
deriving DecidableEq, Repr

def TaskPriority.value : TaskPriority → Nat
  | .low => 0
  | .normal => 1
  | .high => 2
  | .realTime => 3

theorem TaskPriority.value_injective : Function.Injective TaskPriority.value := by
  intro p q h
  cases p <;> cases q <;> simp_all [TaskPriority.value]

instance : LinearOrder TaskPriority := LinearOrder.lift' TaskPriority.value TaskPriority.value_injective

inductive TaskType
  | kernel
  | user
deriving DecidableEq, Repr

inductive TaskForeground
  | foreground
  | background
  | stopped
deriving DecidableEq, Repr

structure SavedRegisters where
  rbx : Word := 0
  rbp : Word := 0
  r12 : Word := 0
  r13 : Word := 0
  r14 : Word := 0
  r15 : Word := 0
  rsp : Word := 0
deriving DecidableEq, Repr, Inhabited

structure Task where
  id : Nat
  name : String
  state : TaskState
  priority : TaskPriority
  taskType : TaskType
  foreground : TaskForeground
  stackTop : Word
  kernelStack : Word
  entryPoint : Word
  regs : SavedRegisters
  savedRsp : Word
  timeSlice : Nat
  defaultTimeSlice : Nat
  totalCpuTicks : Word
  startTick : Nat
  exitCode : Int
  pendingSignals : BitVec 32
  blockedSignals : BitVec 32

def taskStackSize : Nat := 64 * 1024
def quantum : Nat := 10
def stackRegionEnd : Nat := 0x2000000

def sigkill : Nat := 9
def sigtstp : Nat := 20
def sigcont : Nat := 18

/-- The statics that creating a task reads and writes: `NEXT_TASK_ID`, the `NEXT_STACK`
of `alloc_stack`, and the memory the stacks live in. -/
structure Statics where
  nextTaskId : Nat := 1
  nextStack : Nat := taskStacksBase
  mem : Memory

/-- The top of a fresh zeroed stack, or address zero once the region is used up. -/
def allocStack (g : Statics) (size : Nat) : Nat × Statics :=
  if g.nextStack + size > stackRegionEnd then (0, g)
  else (g.nextStack + size,
    { g with nextStack := g.nextStack + size, mem := fill g.mem g.nextStack 0 size })

theorem allocStack_refused {g : Statics} {size : Nat} (h : stackRegionEnd < g.nextStack + size) :
    allocStack g size = (0, g) := if_pos h

theorem allocStack_served {g : Statics} {size : Nat} (h : g.nextStack + size ≤ stackRegionEnd) :
    allocStack g size = (g.nextStack + size,
      { g with nextStack := g.nextStack + size, mem := fill g.mem g.nextStack 0 size }) :=
  if_neg (not_lt.mpr h)

def Task.create (id : Nat) (taskType : TaskType) (stackTop kernelStack : Nat) (entry : Word)
    (name : String) : Task where
  id := id
  name := name
  state := .ready
  priority := .normal
  taskType := taskType
  foreground := .foreground
  stackTop := BitVec.ofNat 64 stackTop
  kernelStack := BitVec.ofNat 64 kernelStack
  entryPoint := entry
  regs := { rsp := BitVec.ofNat 64 stackTop, rbp := BitVec.ofNat 64 stackTop }
  savedRsp := BitVec.ofNat 64 stackTop
  timeSlice := quantum
  defaultTimeSlice := quantum
  totalCpuTicks := 0
  startTick := 0
  exitCode := 0
  pendingSignals := 0
  blockedSignals := 0

def Task.newKernel (g : Statics) (entry : Word) (name : String) : Task × Statics :=
  let s := allocStack { g with nextTaskId := g.nextTaskId + 1 } taskStackSize
  (Task.create g.nextTaskId .kernel s.1 s.1 entry name, s.2)

def Task.newUser (g : Statics) (entry : Word) (name : String) : Task × Statics :=
  let u := allocStack { g with nextTaskId := g.nextTaskId + 1 } taskStackSize
  let k := allocStack u.2 taskStackSize
  (Task.create g.nextTaskId .user u.1 k.1 entry name, k.2)

def Task.newKernelWithPriority (g : Statics) (entry : Word) (name : String)
    (priority : TaskPriority) : Task × Statics :=
  let t := Task.newKernel g entry name
  ({ t.1 with priority := priority }, t.2)

def Task.newKernelBackground (g : Statics) (entry : Word) (name : String) : Task × Statics :=
  let t := Task.newKernel g entry name
  ({ t.1 with foreground := .background }, t.2)

/-- The words `setup_initial_stack` pushes: the five words of `iretq`, an error code and
a vector, the data segment, and the fifteen zeroed general registers. -/
def Task.initialFrame (t : Task) : List Word :=
  [0x10, t.stackTop, 0x202, 0x08, t.entryPoint, 0, 0x20, 0x10] ++ List.replicate 15 0

def Task.setupInitialStack (t : Task) (m : Memory) : Task × Memory :=
  let f := t.initialFrame.foldl push (t.stackTop, m)
  ({ t with savedRsp := f.1, regs := { t.regs with rsp := f.1 } }, f.2)

def Task.setTimeSlice (t : Task) (slices : Nat) : Task :=
  { t with timeSlice := slices, defaultTimeSlice := slices }

def Task.resetTimeSlice (t : Task) : Task := { t with timeSlice := t.defaultTimeSlice }

def Task.sendSignal (t : Task) (signal : Nat) : Task :=
  if signal < 32 then { t with pendingSignals := t.pendingSignals ||| (1#32 <<< signal) } else t

@[simp] theorem Task.sendSignal_state (t : Task) (signal : Nat) :
    (t.sendSignal signal).state = t.state := by
  unfold Task.sendSignal
  split <;> rfl

def trailingZeros (x : BitVec 32) : Nat := ((List.range 32).find? x.getLsbD).getD 32

def Task.popSignal (t : Task) : Option Nat × Task :=
  let pending := t.pendingSignals &&& ~~~t.blockedSignals
  if pending = 0 then (none, t)
  else
    let signal := trailingZeros pending
    (some signal, { t with pendingSignals := t.pendingSignals &&& ~~~(1#32 <<< signal) })

end DeltaOS.Tasks
