import DeltaOS.Interrupts
import DeltaOS.SwitchPaths
import DeltaOS.TaskStacks
import DeltaOS.TimerIsr

namespace DeltaOS.Multitasking

open ByteMemory Kernel Tasks Sched TimerIsr Interrupts Ranges Runs TaskStacks SwitchPaths

/-- What a task has in the processor. `timer_isr` does not save the segment ES, and loads it with DS. -/
@[ext] structure Context where
  regs : Reg → Word
  ds : BitVec 16
  rip : Word
  cs : BitVec 16
  rflags : Word
  rsp : Word
  ss : BitVec 16

def context (c : Cpu) : Context := ⟨c.regs, c.ds, c.rip, c.cs, c.rflags, c.rsp, c.ss⟩

/-- The context that lies in a frame of `timer_isr`. -/
def framed (m : Memory) (rsp : Word) : Context where
  regs := fun r => slot m rsp (pushOrder.reverse.idxOf r + 1)
  ds := (slot m rsp 0).setWidth 16
  rip := slot m rsp 16
  cs := (slot m rsp 17).setWidth 16
  rflags := slot m rsp 18
  rsp := slot m rsp 19
  ss := (slot m rsp 20).setWidth 16

def frameSize : Nat := 168

/-- A null selector, on which `iretq` faults when it is to be loaded into CS. -/
def Null (selector : BitVec 16) : Prop := selector &&& ~~~3 = 0

instance (selector : BitVec 16) : Decidable (Null selector) := inferInstanceAs (Decidable (_ = _))

/-- The processor, what the handlers work on, and what each task that has run left in the processor
when it did last. -/
structure Machine where
  cpu : Cpu
  devices : Devices
  left : TaskRef → Option Context

def stackOf (s : Scheduler) (t : TaskRef) : Range := stackRange (s.cells t).stackTop

/-- The running task works, the scheduler is called, or the timer interrupts. The memory given
to an interrupt is the one `rust_timer_handler` leaves. -/
inductive Op
  | execute (c : Cpu)
  | call (op : Sched.Op)
  | timer (mem : Memory)

def Machine.execute (m : Machine) (c : Cpu) : Machine :=
  { m with
    cpu := c
    left := fun t => if m.devices.scheduler.bind Scheduler.current = some t then some (context c)
      else m.left t }

def withMem (s : Scheduler) (mem : Memory) : Scheduler :=
  { s with statics := { s.statics with mem := mem } }

def Machine.call (m : Machine) (op : Sched.Op) : Machine :=
  match m.devices.scheduler with
  | none => m
  | some s =>
    let s' := Sched.step (withMem s m.cpu.mem) op
    { cpu := { m.cpu with mem := s'.statics.mem }
      devices := { m.devices with scheduler := some s' }
      left := fun t => if t < s.nextRef then m.left t else none }

/-- There is no result where the task that is switched to has no code segment. -/
def Machine.timerIsr (m : Machine) (mem : Memory) : Option Machine := do
  let r ← rustTimerHandler m.devices (saveContext m.cpu).rsp
  let cpu := restoreContext { saveContext m.cpu with mem := mem } r.2
  if Null cpu.cs then none else return { m with cpu := cpu, devices := r.1 }

def step : Option Machine → Op → Option Machine
  | none, _ => none
  | some m, .execute c => some (m.execute c)
  | some m, .call op => some (m.call op)
  | some m, .timer mem => m.timerIsr mem

/-- The calls that run `context_switch` or are made by the timer interrupt itself. -/
def switching : Sched.Op → Bool
  | .tick _ | .schedule _ | .yieldCurrent _ | .terminateCurrent .. | .preemptSchedule _ => true
  | _ => false

def Foreign (s : Scheduler) (a : Nat) : Prop :=
  ∃ t < s.nextRef, s.current ≠ some t ∧ (stackOf s t).Holds a

/-- A task runs on its own stack, the boot thread on none of them. -/
def OnOwnStack (s : Scheduler) (c : Cpu) : Prop :=
  frameSize ≤ (c.rsp &&& ~~~15).toNat ∧
    match s.current with
    | some t => (frameRange c.rsp frameSize).Within (stackOf s t).base
        ((stackOf s t).base + (stackOf s t).len)
    | none => ∀ t < s.nextRef, (stackOf s t).Apart (frameRange c.rsp frameSize)

/-- What the theorems assume of the tasks: they run in a code segment, keep to their own stacks and
leave room there for an interrupt, creations find a stack, and the handler does not write to the frame
it was called on. -/
def Respects (m : Option Machine) (op : Op) : Prop :=
  ∀ m₀ s, m = some m₀ → m₀.devices.scheduler = some s →
    match op with
    | .execute c => ¬Null c.cs ∧ ∀ a, Foreign s a → c.mem a = m₀.cpu.mem a
    | .call op => switching op = false ∧ ((created s.statics op).isSome → Room s op)
    | .timer mem => OnOwnStack s m₀.cpu ∧
        ∀ a, Foreign s a ∨ (frameRange m₀.cpu.rsp frameSize).Holds a → mem a = (saveContext m₀.cpu).mem a

def contextOf (m : Machine) (s : Scheduler) (t : TaskRef) : Context :=
  if s.current = some t then context m.cpu else framed m.cpu.mem (s.cells t).savedRsp

/-- Every task that has run has the context it left. -/
def Kept (m : Option Machine) : Prop :=
  ∀ m₀, m = some m₀ → ∃ s, m₀.devices.scheduler = some s ∧
    ∀ t < s.nextRef, ∀ ctx, m₀.left t = some ctx → contextOf m₀ s t = ctx

/-- A timer interrupt would now switch to a task that has never run. -/
def FirstDispatch (m : Machine) : Prop :=
  ∃ s t, m.devices.scheduler = some s ∧ (s.preemptSchedule (saveContext m.cpu).rsp).1.current = some t ∧
    m.left t = none

section Frames

variable {m m' : Memory} {rsp : Word} {c c' : Cpu}

theorem restoreContext_loads (c : Cpu) (rsp : Word) :
    context (restoreContext c rsp) = framed c.mem rsp ∧ (restoreContext c rsp).mem = c.mem := by
  rw [restoreContext_eq]
  exact ⟨rfl, rfl⟩

theorem framed_congr_slots (h : ∀ k < 21, slot m rsp k = slot m' rsp k) :
    framed m rsp = framed m' rsp := by
  have hregs : (fun r => slot m rsp (pushOrder.reverse.idxOf r + 1)) =
      fun r => slot m' rsp (pushOrder.reverse.idxOf r + 1) := by
    funext r
    have hindex : pushOrder.reverse.idxOf r + 1 < 21 := by cases r <;> decide
    exact h _ hindex
  rw [framed, framed, hregs, h 0 (by decide), h 16 (by decide), h 17 (by decide), h 18 (by decide),
    h 19 (by decide), h 20 (by decide)]

theorem framed_congr (hfit : rsp.toNat + frameSize ≤ 2 ^ 64)
    (h : ∀ a, Range.Holds ⟨rsp.toNat, frameSize⟩ a → m a = m' a) : framed m rsp = framed m' rsp :=
  framed_congr_slots fun _ hk => slot_congr hfit (fun a hlo hhi => h a ⟨hlo, hhi⟩) hk

theorem saveContext_pushes (c : Cpu) :
    (saveContext c).rsp = ((savedWords c).foldl push (c.rsp &&& ~~~15, c.mem)).1 ∧
      (saveContext c).mem = ((savedWords c).foldl push (c.rsp &&& ~~~15, c.mem)).2 := by
  have hframe := saveContext_frame c
  generalize saveContext c = d at hframe ⊢
  exact Prod.ext_iff.mp hframe

theorem eight_mul_savedWords (c : Cpu) : 8 * (savedWords c).length = frameSize :=
  by rw [savedWords_length, frameSize]

theorem saveContext_rsp (h : frameSize ≤ (c.rsp &&& ~~~15).toNat) :
    (saveContext c).rsp.toNat = (frameRange c.rsp frameSize).base := by
  rw [(saveContext_pushes c).1]
  exact foldl_push_base (eight_mul_savedWords c) h c.mem

theorem saveContext_outside (h : frameSize ≤ (c.rsp &&& ~~~15).toNat) {a : Nat}
    (ha : ¬(frameRange c.rsp frameSize).Holds a) : (saveContext c).mem a = c.mem a := by
  rw [(saveContext_pushes c).2]
  exact foldl_push_outside_frame (eight_mul_savedWords c) h c.mem ha

theorem framed_saveContext (h : frameSize ≤ (c.rsp &&& ~~~15).toNat)
    (hmem : ∀ a, (frameRange c.rsp frameSize).Holds a → m a = (saveContext c).mem a) :
    framed m (saveContext c).rsp = context c := by
  have hrsp := saveContext_rsp h
  have hfit : (saveContext c).rsp.toNat + frameSize ≤ 2 ^ 64 := by
    have hlt := (c.rsp &&& ~~~15).isLt
    rw [hrsp]
    unfold frameRange
    dsimp only
    omega
  have hslots : ∀ k < 21, slot m (saveContext c).rsp k =
      slot (saveContext c).mem (saveContext c).rsp k := by
    refine fun k hk => slot_congr hfit (fun a hlo hhi => hmem a ?_) hk
    rw [hrsp] at hlo hhi
    exact ⟨hlo, hhi⟩
  have hback := restoreContext_saveContext c { c with mem := m } h hslots
  have hctx := congrArg context hback
  rw [(restoreContext_loads _ _).1] at hctx
  exact hctx

end Frames

section Stacks

variable {s s' : Scheduler}

/-- The stacks of all tasks ever created lie side by side below the next one. -/
structure Stacks (s : Scheduler) : Prop where
  bounded : s.Bounded
  base_le : taskStacksBase ≤ s.statics.nextStack
  le_end : s.statics.nextStack ≤ stackRegionEnd
  within : ∀ t < s.nextRef, (stackOf s t).Within taskStacksBase s.statics.nextStack
  apart : ∀ t < s.nextRef, ∀ u < s.nextRef, t ≠ u → (stackOf s t).Apart (stackOf s u)

/-- What a call leaves alone that creates no task. -/
structure SameTasks (s s' : Scheduler) : Prop where
  nextRef : s'.nextRef = s.nextRef
  statics : s'.statics = s.statics
  stackTop : ∀ r, (s'.cells r).stackTop = (s.cells r).stackTop

theorem SameTasks.stackOf (h : SameTasks s s') (t : TaskRef) : stackOf s' t = stackOf s t := by
  rw [Multitasking.stackOf, h.stackTop, Multitasking.stackOf]

theorem Stacks.congr (h : Stacks s) (hs : SameTasks s s') (hb : s'.Bounded) : Stacks s' where
  bounded := hb
  base_le := by rw [hs.statics]; exact h.base_le
  le_end := by rw [hs.statics]; exact h.le_end
  within t ht := by
    rw [hs.nextRef] at ht
    rw [hs.stackOf, hs.statics]
    exact h.within t ht
  apart t ht u hu hne := by
    rw [hs.nextRef] at ht hu
    rw [hs.stackOf, hs.stackOf]
    exact h.apart t ht u hu hne

theorem update_stackTop {r : TaskRef} {u : Task} (hu : u.stackTop = (s.cells r).stackTop) (a : TaskRef) :
    (Function.update s.cells r u a).stackTop = (s.cells a).stackTop := by
  by_cases ha : a = r
  · subst a
    rw [Function.update_self, hu]
  · rw [Function.update_of_ne ha]

theorem sendSignal_stackTop (t : Task) (signal : Nat) : (t.sendSignal signal).stackTop = t.stackTop := by
  unfold Task.sendSignal
  split <;> rfl

theorem quiet_sameTasks {op : Sched.Op} (hs : Steps s op s') (hq : switching op = false)
    (hn : created s.statics op = none) : SameTasks s s' ∧ s'.current = s.current := by
  cases hs with
  | unchanged => exact ⟨⟨rfl, rfl, fun _ => rfl⟩, rfl⟩
  | created h =>
    rw [hn] at h
    cases h
  | tick | schedule | yieldCurrent | terminateNone | terminateCurrent | preemptSchedule => cases hq
  | blockCurrent => exact ⟨⟨rfl, rfl, update_stackTop rfl⟩, rfl⟩
  | unblockTask => exact ⟨⟨rfl, rfl, update_stackTop rfl⟩, rfl⟩
  | terminateTask => exact ⟨⟨rfl, rfl, update_stackTop rfl⟩, rfl⟩
  | sendSignal => exact ⟨⟨rfl, rfl, update_stackTop (sendSignal_stackTop _ _)⟩, rfl⟩
  | backgroundTask => exact ⟨⟨rfl, rfl, update_stackTop (sendSignal_stackTop _ _)⟩, rfl⟩
  | foregroundTask => exact ⟨⟨rfl, rfl, update_stackTop rfl⟩, rfl⟩
  | cleanupTerminated =>
    rw [Scheduler.cleanupTerminated, Scheduler.foldl_retain]
    exact ⟨⟨rfl, rfl, fun _ => rfl⟩, rfl⟩
  | enablePreemption => exact ⟨⟨rfl, rfl, fun _ => rfl⟩, rfl⟩
  | disablePreemption => exact ⟨⟨rfl, rfl, fun _ => rfl⟩, rfl⟩

theorem saveCurrent_sameTasks (s : Scheduler) (rsp : Word) : SameTasks s (s.saveCurrent rsp) := by
  rw [Scheduler.saveCurrent_eq]
  refine ⟨rfl, rfl, fun r => ?_⟩
  dsimp only
  split <;> rfl

theorem preemptSchedule_sameTasks (s : Scheduler) (rsp : Word) :
    SameTasks s (s.preemptSchedule rsp).1 := by
  cases he : s.preemptEnabled with
  | false =>
    rw [Scheduler.preemptSchedule_disabled he]
    exact ⟨rfl, rfl, fun _ => rfl⟩
  | true =>
    have hsave := saveCurrent_sameTasks s rsp
    obtain ⟨-, hs⟩ | ⟨pre, next, post, -, -, -, hs⟩ := Scheduler.preemptSchedule_cases he rsp
    · rw [hs, Scheduler.restoreCurrent_eq]
      refine ⟨hsave.nextRef, hsave.statics, fun r => ?_⟩
      rw [← hsave.stackTop r]
      dsimp only
      split <;> rfl
    · rw [hs]
      refine ⟨hsave.nextRef, hsave.statics, fun r => ?_⟩
      rw [← hsave.stackTop r]
      have hrun : ∀ t : Task, { t with state := .running }.stackTop = t.stackTop := fun _ => rfl
      exact update_stackTop (hrun _) r

/-- What a creation does that finds room: the new task has the stack at the next free place, its
frame lies on top of it, and no other memory is written. -/
structure Adds (s s' : Scheduler) : Prop where
  nextRef : s'.nextRef = s.nextRef + 1
  current : s'.current = s.current
  cells : ∀ r < s.nextRef, s'.cells r = s.cells r
  stack : stackOf s' s.nextRef = ⟨s.statics.nextStack, taskStackSize⟩
  next : s.statics.nextStack + taskStackSize ≤ s'.statics.nextStack
  le_end : s'.statics.nextStack ≤ stackRegionEnd
  frame : Range.Within ⟨(s'.cells s.nextRef).savedRsp.toNat, frameSize⟩ s.statics.nextStack
    (s.statics.nextStack + taskStackSize)
  mem : ∀ a < s.statics.nextStack, s'.statics.mem a = s.statics.mem a
  first : Null (framed s'.statics.mem (s'.cells s.nextRef).savedRsp).cs

theorem allocStack_mem (g : Statics) (size : Nat) {a : Nat} (ha : a < g.nextStack) :
    (allocStack g size).2.mem a = g.mem a := by
  rw [allocStack]
  split
  · rfl
  · exact fill_apply_of_outside (.inl ha)

theorem le_allocStack (g : Statics) (size : Nat) : g.nextStack ≤ (allocStack g size).2.nextStack := by
  rw [allocStack]
  split
  · exact le_rfl
  · exact Nat.le_add_right _ _

-- over variables, so that the allocation is not evaluated when the pair is taken apart
theorem mem_of_eq {t : Task × Statics} {x : Task} {g : Statics} (h : t = (x, g)) (a : Nat) :
    t.2.mem a = g.mem a := by
  rw [h]

theorem newKernel_mem {g : Statics} {a : Nat} (ha : a < g.nextStack) (entry : Word) (name : String) :
    (Task.newKernel g entry name).2.mem a = g.mem a := by
  have hstack := allocStack_mem { g with nextTaskId := g.nextTaskId + 1 } taskStackSize ha
  obtain ⟨s, hs⟩ : ∃ s, allocStack { g with nextTaskId := g.nextTaskId + 1 } taskStackSize = s :=
    ⟨_, rfl⟩
  have heq : Task.newKernel g entry name =
      (Task.create g.nextTaskId .kernel s.1 s.1 entry name, s.2) := by
    rw [← hs]
    rfl
  rw [hs] at hstack
  exact (mem_of_eq heq a).trans hstack

theorem newUser_mem {g : Statics} {a : Nat} (ha : a < g.nextStack) (entry : Word) (name : String) :
    (Task.newUser g entry name).2.mem a = g.mem a := by
  have hstack := allocStack_mem { g with nextTaskId := g.nextTaskId + 1 } taskStackSize ha
  have hle := le_allocStack { g with nextTaskId := g.nextTaskId + 1 } taskStackSize
  obtain ⟨u, hu⟩ : ∃ u, allocStack { g with nextTaskId := g.nextTaskId + 1 } taskStackSize = u :=
    ⟨_, rfl⟩
  obtain ⟨k, hk⟩ : ∃ k, allocStack u.2 taskStackSize = k := ⟨_, rfl⟩
  have heq : Task.newUser g entry name = (Task.create g.nextTaskId .user u.1 k.1 entry name, k.2) := by
    rw [← hk, ← hu]
    rfl
  rw [hu] at hstack hle
  have hkernel := allocStack_mem u.2 taskStackSize (ha.trans_le hle)
  rw [hk] at hkernel
  exact (mem_of_eq heq a).trans (hkernel.trans hstack)

theorem created_mem {g : Statics} {op : Sched.Op} {t : Task × Statics} {now : Nat}
    (h : created g op = some (t, now)) {a : Nat} (ha : a < g.nextStack) : t.2.mem a = g.mem a := by
  have hkernel (entry : Word) (name : String) {x : Task} : t = (x, (Task.newKernel g entry name).2) →
      t.2.mem a = g.mem a :=
    fun heq => (mem_of_eq heq a).trans (newKernel_mem ha entry name)
  cases op with
  | createKernelTask entry name =>
    cases h
    exact newKernel_mem ha entry name
  | createKernelTaskWithPriority entry name =>
    cases h
    exact hkernel entry name rfl
  | createBackgroundTask entry name =>
    cases h
    exact hkernel entry name rfl
  | createUserTask entry name =>
    cases h
    exact newUser_mem ha entry name
  | createIdleTask idleTask =>
    cases h
    exact hkernel idleTask "idle" rfl
  | _ => cases h

theorem one_le_stacksNeeded (op : Sched.Op) : 1 ≤ stacksNeeded op := by
  unfold stacksNeeded
  split <;> decide

theorem stackRange_eq {top : Word} {next : Nat} (h : top.toNat = next + taskStackSize) :
    stackRange top = ⟨next, taskStackSize⟩ := by
  rw [stackRange, h, Nat.add_sub_cancel]

theorem setupInitialStack_below (t : Task) (m : Memory)
    (htop : taskStackSize ≤ t.stackTop.toNat) {a : Nat}
    (ha : a < t.stackTop.toNat - taskStackSize) : (t.setupInitialStack m).2 a = m a := by
  have hsize : 8 * t.initialFrame.length ≤ taskStackSize := by rw [initialFrame_length]; decide
  simp only [Task.setupInitialStack]
  generalize t.initialFrame = ws at hsize ⊢
  refine foldl_push_outside ws t.stackTop m (hsize.trans htop) (.inl ?_)
  generalize taskStackSize = size at hsize htop ha
  omega

theorem firstFrame_null (s : Scheduler) (t : Task × Statics) (now : Nat)
    (htop : 184 ≤ t.1.stackTop.toNat) :
    Null (framed (s.addTask t now).1.statics.mem ((s.addTask t now).1.cells s.nextRef).savedRsp).cs := by
  have hslot := firstRun_slot t.1 t.2.mem htop 17 (by decide)
  rw [Scheduler.addTask_cells_self]
  simp only [Scheduler.addTask, framed, hslot]
  exact (by decide : Null ((0 : Word).setWidth 16))

theorem adds_of_created {op : Sched.Op} {t : Task × Statics} {now : Nat}
    (h : created s.statics op = some (t, now)) (hroom : Room s op) : Adds s (s.addTask t now).1 := by
  obtain ⟨htop, -, hnext⟩ := (built_created h).served hroom
  have hnew := addTask_newCell s t now
  have hstack : stackOf (s.addTask t now).1 s.nextRef = ⟨s.statics.nextStack, taskStackSize⟩ := by
    rw [stackOf, hnew.stackTop]
    exact stackRange_eq htop
  have hone := Nat.mul_le_mul_right taskStackSize (one_le_stacksNeeded op)
  rw [Nat.one_mul] at hone
  have hle : taskStackSize ≤ t.1.stackTop.toNat := htop ▸ Nat.le_add_left _ _
  have hptr := hnew.savedRsp hle
  have hinside : FrameInside ((s.addTask t now).1.cells s.nextRef) := by
    refine frameInside_of_pointer ?_ ?_
    · rwa [hnew.stackTop]
    · rw [hnew.stackTop, hptr]
  refine ⟨rfl, rfl, ?_, hstack, ?_, ?_, ?_, ?_, ?_⟩
  · exact fun r hr => Scheduler.addTask_cells_of_ne t now hr.ne
  · rw [addTask_nextStack, hnext]
    exact Nat.add_le_add_left hone _
  · rw [addTask_nextStack, hnext]
    exact hroom
  · rw [hptr, htop, frameSize]
    have hsize : 8 * 23 ≤ taskStackSize := by decide
    generalize taskStackSize = size at hsize ⊢
    unfold Range.Within
    dsimp only
    omega
  · intro a ha
    rw [← created_mem h ha]
    simp only [Scheduler.addTask]
    exact setupInitialStack_below t.1 t.2.mem hle (by rwa [htop, Nat.add_sub_cancel])
  · exact firstFrame_null s t now (le_trans (by decide) hle)

theorem Adds.stackOf_old (h : Adds s s') {t : TaskRef} (ht : t < s.nextRef) :
    stackOf s' t = stackOf s t := by
  rw [stackOf, h.cells t ht, stackOf]

theorem Stacks.adds (h : Stacks s) (ha : Adds s s') (hb : s'.Bounded) : Stacks s' := by
  have hnew : Range.Within ⟨s.statics.nextStack, taskStackSize⟩ s.statics.nextStack
      s'.statics.nextStack :=
    ⟨le_rfl, ha.next⟩
  have hle : s.statics.nextStack ≤ s'.statics.nextStack := (Nat.le_add_right _ _).trans ha.next
  have hold : ∀ t < s.nextRef, (stackOf s t).Apart (stackOf s' s.nextRef) := by
    intro t ht
    rw [ha.stack]
    exact Range.apart_of_within (h.within t ht) hnew
  refine ⟨hb, h.base_le.trans hle, ha.le_end, fun t ht => ?_, fun t ht u hu hne => ?_⟩
  · rw [ha.nextRef] at ht
    obtain ht | rfl := Nat.lt_succ_iff_lt_or_eq.mp ht
    · rw [ha.stackOf_old ht]
      exact (h.within t ht).mono le_rfl hle
    · rw [ha.stack]
      exact hnew.mono h.base_le le_rfl
  · rw [ha.nextRef] at ht hu
    obtain ht | rfl := Nat.lt_succ_iff_lt_or_eq.mp ht
    · rw [ha.stackOf_old ht]
      obtain hu | rfl := Nat.lt_succ_iff_lt_or_eq.mp hu
      · rw [ha.stackOf_old hu]
        exact h.apart t ht u hu hne
      · exact hold t ht
    · obtain hu | rfl := Nat.lt_succ_iff_lt_or_eq.mp hu
      · rw [ha.stackOf_old hu]
        exact (hold u hu).symm
      · exact absurd rfl hne

end Stacks

section Machines

variable {m : Machine} {s : Scheduler} {t : TaskRef}

def FrameOnStack (s : Scheduler) (t : TaskRef) : Prop :=
  Range.Within ⟨(s.cells t).savedRsp.toNat, frameSize⟩ (stackOf s t).base
    ((stackOf s t).base + (stackOf s t).len)

/-- What a task has is what it left, which it left in a code segment. Before it has run, it has none. -/
def Agrees (ctx : Context) : Option Context → Prop
  | some left => ctx = left ∧ ¬Null left.cs
  | none => Null ctx.cs

theorem Agrees.eq {ctx left : Context} (h : Agrees ctx (some left)) : ctx = left := h.1

theorem Agrees.null_iff {ctx : Context} {left : Option Context} (h : Agrees ctx left) :
    Null ctx.cs ↔ left = none := by
  cases left with
  | none => exact iff_of_true h rfl
  | some left => exact iff_of_false (h.1 ▸ h.2) (Option.some_ne_none left)

/-- The machine at a point where an interrupt may come. -/
structure Sound (m : Machine) (s : Scheduler) : Prop where
  timerHz : m.devices.timer.timerHz ≠ 0
  scheduler : m.devices.scheduler = some s
  layout : Stacks s
  frame : ∀ t < s.nextRef, s.current ≠ some t → FrameOnStack s t
  running : ¬Null m.cpu.cs
  kept : ∀ t < s.nextRef, Agrees (contextOf m s t) (m.left t)

theorem FrameOnStack.framed_congr (hs : Stacks s) (ht : t < s.nextRef) (hf : FrameOnStack s t)
    {mem mem' : Memory} (h : ∀ a, (stackOf s t).Holds a → mem a = mem' a) :
    framed mem (s.cells t).savedRsp = framed mem' (s.cells t).savedRsp := by
  have hend : (stackOf s t).base + (stackOf s t).len ≤ 2 ^ 64 :=
    (hs.within t ht).2.trans (hs.le_end.trans (by decide))
  refine Multitasking.framed_congr (hf.2.trans hend) fun a ha => h a ?_
  exact ⟨hf.1.trans ha.1, ha.2.trans_le hf.2⟩

theorem contextOf_running (h : s.current = some t) : contextOf m s t = context m.cpu := if_pos h

theorem contextOf_waiting (h : s.current ≠ some t) :
    contextOf m s t = framed m.cpu.mem (s.cells t).savedRsp := if_neg h

theorem Sound.execute (h : Sound m s) {c : Cpu} (hc : ¬Null c.cs)
    (hg : ∀ a, Foreign s a → c.mem a = m.cpu.mem a) : Sound (m.execute c) s := by
  have hcur : m.devices.scheduler.bind Scheduler.current = s.current := by
    rw [h.scheduler, Option.bind_some]
  refine ⟨h.timerHz, h.scheduler, h.layout, h.frame, hc, fun t ht => ?_⟩
  simp only [Machine.execute, hcur]
  by_cases hrun : s.current = some t
  · rw [if_pos hrun, contextOf_running hrun]
    exact ⟨rfl, hc⟩
  · have hsame := (h.frame t ht hrun).framed_congr h.layout ht fun a ha => hg a ⟨t, ht, hrun, ha⟩
    have hkept := h.kept t ht
    rw [contextOf_waiting hrun, ← hsame] at hkept
    rw [if_neg hrun, contextOf_waiting hrun]
    exact hkept

theorem Machine.call_eq (h : m.devices.scheduler = some s) (op : Sched.Op) :
    m.call op =
      { cpu := { m.cpu with mem := (Sched.step (withMem s m.cpu.mem) op).statics.mem }
        devices := { m.devices with scheduler := some (Sched.step (withMem s m.cpu.mem) op) }
        left := fun t => if t < s.nextRef then m.left t else none } := by
  rw [Machine.call, h]

theorem Stacks.withMem (h : Stacks s) (mem : Memory) : Stacks (withMem s mem) :=
  ⟨h.bounded, h.base_le, h.le_end, h.within, h.apart⟩

theorem created_isSome (g g' : Statics) (op : Sched.Op) :
    (created g op).isSome = (created g' op).isSome := by
  cases op <;> simp only [created, Option.isSome_some, Option.isSome_none]

theorem quiet_pointers {op : Sched.Op} (hq : switching op = false) (ht : t < s.nextRef) :
    ((Sched.step s op).cells t).savedRsp = (s.cells t).savedRsp := by
  have hop : ∀ rsp, op ≠ .preemptSchedule rsp := by
    rintro rsp rfl
    cases hq
  have hcall : cooperativeCall s op = none := by
    cases op with
    | tick | schedule | yieldCurrent | terminateCurrent => cases hq
    | _ => rfl
  exact (step_pointers_of_quiet hop hcall ht).2

theorem Sound.quiet (h : Sound m s) {op : Sched.Op} (hq : switching op = false)
    (hn : created (withMem s m.cpu.mem).statics op = none) :
    Sound (m.call op) (Sched.step (withMem s m.cpu.mem) op) := by
  rw [Machine.call_eq h.scheduler]
  have hb := bounded_step (h.layout.withMem m.cpu.mem).bounded op
  have hptr : ∀ t < s.nextRef,
      ((Sched.step (withMem s m.cpu.mem) op).cells t).savedRsp = (s.cells t).savedRsp :=
    fun t ht => quiet_pointers (s := withMem s m.cpu.mem) hq ht
  obtain ⟨hsame, hcur⟩ := quiet_sameTasks (step_steps (withMem s m.cpu.mem) op) hq hn
  generalize Sched.step (withMem s m.cpu.mem) op = s' at hb hptr hsame hcur ⊢
  have hstack : ∀ t, stackOf s' t = stackOf s t := hsame.stackOf
  have hmem : s'.statics.mem = m.cpu.mem := congrArg Statics.mem hsame.statics
  refine ⟨h.timerHz, rfl, (h.layout.withMem m.cpu.mem).congr hsame hb, fun t ht hc => ?_, h.running,
    fun t ht => ?_⟩
  · rw [FrameOnStack, hptr t (hsame.nextRef ▸ ht), hstack]
    exact h.frame t (hsame.nextRef ▸ ht) (hcur ▸ hc)
  · have ht' : t < s.nextRef := hsame.nextRef ▸ ht
    have hkept := h.kept t ht'
    rw [contextOf] at hkept
    dsimp only
    rw [if_pos ht', contextOf, hcur, hptr t ht', hmem]
    exact hkept

theorem Sound.create (h : Sound m s) {op : Sched.Op} {s' : Scheduler}
    (hs : Sched.step (withMem s m.cpu.mem) op = s') (ha : Adds (withMem s m.cpu.mem) s')
    (hb : s'.Bounded) : Sound (m.call op) s' := by
  rw [Machine.call_eq h.scheduler, hs]
  have hold : ∀ t < s.nextRef, stackOf s' t = stackOf s t := fun t ht => ha.stackOf_old ht
  have hcells : ∀ t < s.nextRef, s'.cells t = s.cells t := ha.cells
  have hcur : s'.current = s.current := ha.current
  have hnext : s'.nextRef = s.nextRef + 1 := ha.nextRef
  have hfresh : s.current ≠ some s.nextRef := fun hc =>
    (h.layout.bounded s.nextRef (.inr (.inl hc))).false
  refine ⟨h.timerHz, rfl, (h.layout.withMem m.cpu.mem).adds ha hb, fun t ht hc => ?_, h.running,
    fun t ht => ?_⟩
  · rw [hnext] at ht
    obtain ht | rfl := Nat.lt_succ_iff_lt_or_eq.mp ht
    · rw [FrameOnStack, hcells t ht, hold t ht]
      exact h.frame t ht (hcur ▸ hc)
    · have hstack : stackOf s' s.nextRef = ⟨s.statics.nextStack, taskStackSize⟩ := ha.stack
      rw [FrameOnStack, hstack]
      exact ha.frame
  · dsimp only
    rw [hnext] at ht
    obtain ht' | rfl := Nat.lt_succ_iff_lt_or_eq.mp ht
    · have hkept := h.kept t ht'
      rw [if_pos ht']
      by_cases hc : s.current = some t
      · rw [contextOf_running hc] at hkept
        rw [contextOf_running (hcur.trans hc)]
        exact hkept
      · have hsame : framed s'.statics.mem (s.cells t).savedRsp =
            framed m.cpu.mem (s.cells t).savedRsp :=
          (h.frame t ht' hc).framed_congr h.layout ht' fun a hain =>
            ha.mem a (hain.2.trans_le (h.layout.within t ht').2)
        rw [contextOf_waiting hc, ← hsame] at hkept
        rw [contextOf_waiting (hcur ▸ hc), hcells t ht']
        exact hkept
    · rw [if_neg (lt_irrefl _), contextOf_waiting (hcur ▸ hfresh)]
      exact ha.first

theorem rustTimerHandler_eq {d : Devices} (hd : d.scheduler = some s) (hz : d.timer.timerHz ≠ 0)
    (rsp : Word) : ∃ timer : Timer, timer.timerHz = d.timer.timerHz ∧ rustTimerHandler d rsp =
      some ({ d with timer := timer, scheduler := some (s.preemptSchedule rsp).1 },
        (s.preemptSchedule rsp).2) := by
  refine ⟨{ d.timer with tickCount := d.timer.tickCount + 1,
                         uptimeMs := d.timer.uptimeMs + 1000 / d.timer.timerHz.setWidth 64 }, rfl, ?_⟩
  rw [rustTimerHandler, onTimerTick, if_neg hz, Option.map_some]
  simp only [hd]
  cases he : s.preemptEnabled with
  | false => rw [Scheduler.preemptSchedule_disabled he, if_neg Bool.false_ne_true]
  | true => rw [if_pos rfl]

/-- The frames an interrupt leaves alone: the new one at `rsp`, and those of the tasks that wait. -/
structure Framed (left : TaskRef → Option Context) (s : Scheduler) (mem : Memory)
    (rsp : Word) : Prop where
  saved : ∀ t, s.current = some t → Agrees (framed mem rsp) (left t) ∧
    Range.Within ⟨rsp.toNat, frameSize⟩ (stackOf s t).base ((stackOf s t).base + (stackOf s t).len)
  waiting : ∀ t < s.nextRef, s.current ≠ some t →
    Agrees (framed mem (s.cells t).savedRsp) (left t) ∧ FrameOnStack s t
  thread : s.current = none → ¬Null (framed mem rsp).cs

theorem OnOwnStack.apart (hs : Stacks s) (h : OnOwnStack s m.cpu) (ht : t < s.nextRef)
    (hc : s.current ≠ some t) : (stackOf s t).Apart (frameRange m.cpu.rsp frameSize) := by
  obtain ⟨-, h⟩ := h
  cases hcur : s.current with
  | none =>
    rw [hcur] at h
    exact h t ht
  | some u =>
    rw [hcur] at h
    have hu : u < s.nextRef := hs.bounded u (.inr (.inl hcur))
    have hne : u ≠ t := fun he => hc (hcur.trans (congrArg some he))
    exact ((hs.apart u hu t ht hne).within h).symm

theorem Sound.framed (h : Sound m s) {mem : Memory} (hown : OnOwnStack s m.cpu)
    (hmem : ∀ a, Foreign s a ∨ (frameRange m.cpu.rsp frameSize).Holds a →
      mem a = (saveContext m.cpu).mem a) :
    Framed m.left s mem (saveContext m.cpu).rsp := by
  have hnew := framed_saveContext hown.1 fun a ha => hmem a (.inr ha)
  constructor
  · intro t hc
    have hin := hown.2
    rw [hc] at hin
    have hkept := h.kept t (h.layout.bounded t (.inr (.inl hc)))
    rw [contextOf_running hc] at hkept
    rw [hnew, saveContext_rsp hown.1]
    exact ⟨hkept, hin⟩
  · intro t ht hc
    have hapart := hown.apart h.layout ht hc
    have hsame := (h.frame t ht hc).framed_congr h.layout ht fun a ha =>
      (hmem a (.inl ⟨t, ht, hc, ha⟩)).trans (saveContext_outside hown.1 (hapart.not_mem ha))
    have hkept := h.kept t ht
    rw [contextOf_waiting hc, ← hsame] at hkept
    exact ⟨hkept, h.frame t ht hc⟩
  · intro _
    rw [hnew]
    exact h.running

theorem preemptSchedule_current_none {rsp : Word} (h : (s.preemptSchedule rsp).1.current = none) :
    s.current = none ∧ (s.preemptSchedule rsp).2 = rsp := by
  cases he : s.preemptEnabled with
  | false =>
    rw [Scheduler.preemptSchedule_disabled he] at h ⊢
    exact ⟨h, rfl⟩
  | true =>
    obtain ⟨-, hs⟩ | ⟨pre, next, post, -, -, -, hs⟩ := Scheduler.preemptSchedule_cases he rsp
    · rw [hs, Scheduler.restoreCurrent_eq, Scheduler.saveCurrent_eq] at h
      rw [hs]
      exact ⟨h, rfl⟩
    · rw [hs] at h
      cases h

theorem Framed.preemptSchedule {left : TaskRef → Option Context} {mem : Memory} {rsp : Word}
    (h : Framed left s mem rsp) (hb : s.Bounded) :
    Framed left (s.preemptSchedule rsp).1 mem (s.preemptSchedule rsp).2 := by
  cases he : s.preemptEnabled with
  | false =>
    rw [Scheduler.preemptSchedule_disabled he]
    exact h
  | true =>
    have hsame := preemptSchedule_sameTasks s rsp
    -- With the new frame recorded, the frame of every task is where its cell says.
    have hall : ∀ t < s.nextRef, Agrees
        (framed mem ((s.preemptSchedule rsp).1.cells t).savedRsp) (left t) ∧
        FrameOnStack (s.preemptSchedule rsp).1 t := by
      intro t ht
      rw [FrameOnStack, hsame.stackOf, (preemptSchedule_pointers he rsp t).2]
      by_cases hc : s.current = some t
      · rw [if_pos hc]
        exact h.saved t hc
      · rw [if_neg hc]
        exact h.waiting t ht hc
    constructor
    · intro t hc
      have ht : t < s.nextRef := hsame.nextRef ▸ hb.preemptSchedule rsp t (.inr (.inl hc))
      rw [preemptSchedule_loads he rsp hc]
      exact hall t ht
    · intro t ht _
      rw [hsame.nextRef] at ht
      exact hall t ht
    · intro hnone
      obtain ⟨hc, hrsp⟩ := preemptSchedule_current_none hnone
      rw [hrsp]
      exact h.thread hc

theorem Framed.null_iff {left : TaskRef → Option Context} {mem : Memory} {rsp : Word}
    (h : Framed left s mem rsp) :
    Null (framed mem rsp).cs ↔ ∃ t, s.current = some t ∧ left t = none := by
  cases hc : s.current with
  | none => exact iff_of_false (h.thread hc) (by rintro ⟨t, ht, -⟩; cases ht)
  | some t =>
    rw [(h.saved t hc).1.null_iff]
    exact ⟨fun hleft => ⟨t, rfl, hleft⟩, fun ⟨u, hu, hleft⟩ => Option.some.inj hu ▸ hleft⟩

theorem Sound.timer (h : Sound m s) {mem : Memory} (hown : OnOwnStack s m.cpu)
    (hmem : ∀ a, Foreign s a ∨ (frameRange m.cpu.rsp frameSize).Holds a →
      mem a = (saveContext m.cpu).mem a) :
    (m.timerIsr mem = none ↔ FirstDispatch m) ∧ ∀ m', m.timerIsr mem = some m' → ∃ s', Sound m' s' := by
  have hb := h.layout.bounded
  have hf := (h.framed hown hmem).preemptSchedule hb
  have hsame := preemptSchedule_sameTasks s (saveContext m.cpu).rsp
  have hb' := hb.preemptSchedule (saveContext m.cpu).rsp
  have hfirst : FirstDispatch m ↔
      ∃ t, (s.preemptSchedule (saveContext m.cpu).rsp).1.current = some t ∧ m.left t = none := by
    simp only [FirstDispatch, h.scheduler, Option.some.injEq, exists_and_left, exists_eq_left']
  obtain ⟨timer, htimer, hhandler⟩ := rustTimerHandler_eq h.scheduler h.timerHz (saveContext m.cpu).rsp
  rw [hfirst, Machine.timerIsr, hhandler, Option.bind_eq_bind, Option.bind_some]
  generalize s.preemptSchedule (saveContext m.cpu).rsp = r at hf hsame hb' ⊢
  obtain ⟨hloaded, hmem'⟩ := restoreContext_loads { saveContext m.cpu with mem := mem } r.2
  dsimp only at hloaded hmem' ⊢
  generalize restoreContext { saveContext m.cpu with mem := mem } r.2 = c at hloaded hmem' ⊢
  have hcs : c.cs = (Multitasking.framed mem r.2).cs := congrArg Context.cs hloaded
  rw [← hf.null_iff, ← hcs]
  by_cases hnull : Null c.cs
  · rw [if_pos hnull]
    exact ⟨iff_of_true rfl hnull, fun m' hm => by cases hm⟩
  · rw [if_neg hnull]
    refine ⟨iff_of_false (Option.some_ne_none _) hnull, fun m' hm => ?_⟩
    obtain rfl := Option.some.inj hm
    refine ⟨r.1, ?_, rfl, h.layout.congr hsame hb', fun t ht hc => (hf.waiting t ht hc).2, hnull,
      fun t ht => ?_⟩
    · exact htimer ▸ h.timerHz
    · by_cases hc : r.1.current = some t
      · rw [contextOf_running hc, hloaded]
        exact (hf.saved t hc).1
      · rw [contextOf_waiting hc, hmem']
        exact (hf.waiting t ht hc).1

def Inv (m : Option Machine) : Prop := ∀ m₀, m = some m₀ → ∃ s, Sound m₀ s

theorem Inv.kept {m : Option Machine} (h : Inv m) : Kept m := by
  intro m₀ hm
  obtain ⟨s, hs⟩ := h m₀ hm
  refine ⟨s, hs.scheduler, fun t ht ctx hctx => ?_⟩
  have hkept := hs.kept t ht
  rw [hctx] at hkept
  exact hkept.eq

theorem Sound.call (h : Sound m s) {op : Sched.Op} (hq : switching op = false)
    (hroom : (created s.statics op).isSome → Room s op) : ∃ s', Sound (m.call op) s' := by
  cases hn : created (withMem s m.cpu.mem).statics op with
  | none => exact ⟨_, h.quiet hq hn⟩
  | some t =>
    have hstep := step_created hn
    have hroom : Room (withMem s m.cpu.mem) op := by
      refine hroom ?_
      rw [created_isSome _ (withMem s m.cpu.mem).statics, hn]
      rfl
    have hb := bounded_step (h.layout.withMem m.cpu.mem).bounded op
    rw [hstep] at hb
    exact ⟨_, h.create hstep (adds_of_created hn hroom) hb⟩

theorem inv_step (m : Option Machine) (op : Op) (h : Inv m) (hg : Respects m op) : Inv (step m op) := by
  intro m' hm'
  cases m with
  | none => cases hm'
  | some m =>
    obtain ⟨s, h⟩ := h m rfl
    have hg := hg m s rfl h.scheduler
    cases op with
    | execute c =>
      obtain rfl := Option.some.inj hm'
      exact ⟨s, h.execute hg.1 hg.2⟩
    | call op =>
      obtain rfl := Option.some.inj hm'
      exact h.call hg.1 hg.2
    | timer mem => exact (h.timer hg.1 hg.2).2 m' hm'

end Machines

/-- The machine when the scheduler starts: the boot thread runs, and there are no tasks. -/
def Machine.boot (cpu : Cpu) (timer : Timer) (keyboard : Keyboard.KeyboardState)
    (g : Statics) : Machine where
  cpu := cpu
  devices := ⟨timer, keyboard, some (Scheduler.new g)⟩
  left := fun _ => none

theorem sound_boot {cpu : Cpu} (hcs : ¬Null cpu.cs) {timer : Timer}
    (keyboard : Keyboard.KeyboardState) {g : Statics}
    (hz : timer.timerHz ≠ 0) (hg : g.nextStack = taskStacksBase) :
    Sound (Machine.boot cpu timer keyboard g) (Scheduler.new g) := by
  have hnone : ∀ t, ¬t < (Scheduler.new g).nextRef := Nat.not_lt_zero
  have hnext : (Scheduler.new g).statics.nextStack = taskStacksBase := hg
  refine ⟨hz, rfl, ⟨bounded_new g, hnext.ge, ?_, ?_, ?_⟩, ?_, hcs, ?_⟩
  · rw [hnext]
    decide
  all_goals exact fun t ht => absurd ht (hnone t)

end DeltaOS.Multitasking
