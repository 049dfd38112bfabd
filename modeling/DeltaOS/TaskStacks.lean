import DeltaOS.Ranges
import DeltaOS.Runs
import DeltaOS.SchedSteps

namespace DeltaOS.TaskStacks

open ByteMemory Kernel Tasks Sched Ranges Runs

def stackRange (top : Word) : Range := ⟨top.toNat - taskStackSize, taskStackSize⟩

def stackRanges (t : Task) : List Range :=
  stackRange t.stackTop :: if t.taskType = .user then [stackRange t.kernelStack] else []

structure FrameInside (t : Task) : Prop where
  within : Range.Within ⟨t.savedRsp.toNat, 8 * t.initialFrame.length⟩ (t.stackTop.toNat - taskStackSize)
    t.stackTop.toNat
  writes : ∀ m a, ¬(stackRange t.stackTop).Holds a → (t.setupInitialStack m).2 a = m a

structure StacksSound (s : Scheduler) : Prop where
  within : ∀ r ∈ s.readyQueue, ∀ q ∈ stackRanges (s.cells r), q.Within taskStacksBase stackRegionEnd
  apart : (s.readyQueue.flatMap fun r => stackRanges (s.cells r)).Pairwise Range.Apart
  frame : ∀ r ∈ s.readyQueue, FrameInside (s.cells r)

def Creates (op : Op) : Prop := ∀ g, (created g op).isSome

def stacksNeeded : Op → Nat
  | .createUserTask .. => 2
  | _ => 1

/-- The region still has the stacks the creation asks for. -/
def Room (s : Scheduler) (op : Op) : Prop :=
  s.statics.nextStack + stacksNeeded op * taskStackSize ≤ stackRegionEnd

instance (s : Scheduler) (op : Op) : Decidable (Room s op) := inferInstanceAs (Decidable (_ ≤ _))

/-- A creation that does not find its stacks leaves nothing to schedule. -/
def Contained (s : Scheduler) (op : Op) : Prop := ¬Room s op → (step s op).readyQueue = s.readyQueue

variable {s : Scheduler} {g : Statics} {op : Op} {t : Task × Statics} {now : Nat}

structure Built (g : Statics) (k : Nat) (t : Task × Statics) : Prop where
  served : g.nextStack + k * taskStackSize ≤ stackRegionEnd →
    t.1.stackTop.toNat = g.nextStack + taskStackSize ∧
      stackRanges t.1 = blocks g.nextStack taskStackSize k ∧
      t.2.nextStack = g.nextStack + k * taskStackSize
  refused : stackRegionEnd < g.nextStack + k * taskStackSize → ∃ q ∈ stackRanges t.1, q.base = 0

theorem toNat_top {top : Nat} (h : top ≤ stackRegionEnd) : (BitVec.ofNat 64 top).toNat = top := by
  have hlt : top < 2 ^ 64 := h.trans_lt (by decide)
  rw [BitVec.toNat_ofNat, Nat.mod_eq_of_lt hlt]

theorem stackRange_ofNat {top : Nat} (h : top ≤ stackRegionEnd) :
    stackRange (BitVec.ofNat 64 top) = ⟨top - taskStackSize, taskStackSize⟩ := by
  rw [stackRange, toNat_top h]

theorem stackRange_zero : (stackRange 0).base = 0 := Nat.zero_sub _

/-- What a call of `alloc_stack` gives: a stack and where the next one goes, or address zero. -/
structure StackFrom (next : Nat) (a : Nat × Statics) : Prop where
  served : next + taskStackSize ≤ stackRegionEnd →
    a.1 = next + taskStackSize ∧ a.2.nextStack = next + taskStackSize
  refused : stackRegionEnd < next + taskStackSize → a.1 = 0

theorem allocStack_stackFrom (g : Statics) : StackFrom g.nextStack (allocStack g taskStackSize) := by
  constructor
  · intro hroom
    rw [allocStack_served hroom]
    exact ⟨rfl, rfl⟩
  · intro hfull
    rw [allocStack_refused hfull]

theorem StackFrom.built_kernel {a : Nat × Statics} (ha : StackFrom g.nextStack a) (id : Nat)
    (entry : Word) (name : String) : Built g 1 (Task.create id .kernel a.1 a.1 entry name, a.2) := by
  constructor
  · intro hroom
    rw [Nat.one_mul] at hroom ⊢
    obtain ⟨htop, hnext⟩ := ha.served hroom
    refine ⟨?_, ?_, hnext⟩
    · simp only [Task.create, htop, toNat_top hroom]
    · simp only [stackRanges, Task.create, htop, stackRange_ofNat hroom, Nat.add_sub_cancel]
      rfl
  · intro hfull
    rw [Nat.one_mul] at hfull
    simp only [stackRanges, Task.create, ha.refused hfull]
    exact ⟨_, List.mem_cons_self, stackRange_zero⟩

theorem StackFrom.built_user {u k : Nat × Statics} (hu : StackFrom g.nextStack u)
    (hk : StackFrom u.2.nextStack k) (id : Nat) (entry : Word) (name : String) :
    Built g 2 (Task.create id .user u.1 k.1 entry name, k.2) := by
  constructor
  · intro hroom
    rw [Nat.two_mul, ← Nat.add_assoc] at hroom ⊢
    have hfirst : g.nextStack + taskStackSize ≤ stackRegionEnd := Nat.le_of_add_right_le hroom
    obtain ⟨hutop, hunext⟩ := hu.served hfirst
    rw [hunext] at hk
    obtain ⟨hktop, hknext⟩ := hk.served hroom
    refine ⟨?_, ?_, hknext⟩
    · simp only [Task.create, hutop, toNat_top hfirst]
    · simp only [stackRanges, Task.create, hutop, hktop, stackRange_ofNat hfirst, stackRange_ofNat hroom,
        Nat.add_sub_cancel, if_true, blocks, List.range_succ, List.range_zero, List.nil_append,
        List.cons_append, List.map_cons, List.map_nil, Nat.zero_mul, Nat.add_zero, Nat.one_mul]
  · intro hfull
    obtain hnone | hfirst := lt_or_ge stackRegionEnd (g.nextStack + taskStackSize)
    · simp only [stackRanges, Task.create, hu.refused hnone]
      exact ⟨_, List.mem_cons_self, stackRange_zero⟩
    · obtain ⟨-, hunext⟩ := hu.served hfirst
      rw [hunext] at hk
      rw [Nat.two_mul, ← Nat.add_assoc] at hfull
      simp only [stackRanges, Task.create, hk.refused hfull]
      exact ⟨_, List.mem_cons_of_mem _ (List.mem_singleton_self _), stackRange_zero⟩

theorem Built.congr {k : Nat} {t' : Task} (h : Built g k t) (htop : t'.stackTop = t.1.stackTop)
    (hranges : stackRanges t' = stackRanges t.1) : Built g k (t', t.2) := by
  constructor
  · rw [htop, hranges]
    exact h.served
  · rw [hranges]
    exact h.refused

theorem Built.withPriority {k : Nat} (h : Built g k t) (priority : TaskPriority) :
    Built g k ({ t.1 with priority := priority }, t.2) := h.congr rfl rfl

theorem Built.inBackground {k : Nat} (h : Built g k t) :
    Built g k ({ t.1 with foreground := .background }, t.2) := h.congr rfl rfl

theorem built_kernel (g : Statics) (entry : Word) (name : String) :
    Built g 1 (Task.newKernel g entry name) := by
  have ha : StackFrom g.nextStack _ := allocStack_stackFrom { g with nextTaskId := g.nextTaskId + 1 }
  exact ha.built_kernel g.nextTaskId entry name

theorem built_user (g : Statics) (entry : Word) (name : String) :
    Built g 2 (Task.newUser g entry name) := by
  have hu : StackFrom g.nextStack _ := allocStack_stackFrom { g with nextTaskId := g.nextTaskId + 1 }
  exact hu.built_user (allocStack_stackFrom _) g.nextTaskId entry name

theorem built_created (h : created g op = some (t, now)) : Built g (stacksNeeded op) t := by
  cases op with
  | createKernelTask entry name =>
    cases h
    exact built_kernel g entry name
  | createKernelTaskWithPriority entry name priority =>
    cases h
    exact (built_kernel g entry name).withPriority priority
  | createBackgroundTask entry name =>
    cases h
    exact (built_kernel g entry name).inBackground
  | createUserTask entry name =>
    cases h
    exact built_user g entry name
  | createIdleTask idleTask =>
    cases h
    exact (built_kernel g idleTask "idle").withPriority .low
  | _ => cases h

theorem initialFrame_length (t : Task) : t.initialFrame.length = 23 := rfl

theorem frameInside_of_pointer {t : Task} (htop : taskStackSize ≤ t.stackTop.toNat)
    (hptr : t.savedRsp.toNat = t.stackTop.toNat - 8 * 23) : FrameInside t := by
  have hsize : 8 * 23 ≤ taskStackSize := by decide
  constructor
  · rw [hptr, initialFrame_length, Range.Within]
    generalize taskStackSize = size at hsize htop ⊢
    dsimp only
    omega
  · intro m a hout
    have hfits : 8 * t.initialFrame.length ≤ t.stackTop.toNat := by
      rw [initialFrame_length]
      exact hsize.trans htop
    have hapart : a < t.stackTop.toNat - 8 * t.initialFrame.length ∨ t.stackTop.toNat ≤ a := by
      simp only [Range.Holds, stackRange] at hout
      rw [initialFrame_length]
      generalize taskStackSize = size at hsize htop hout
      omega
    simp only [Task.setupInitialStack]
    generalize t.initialFrame = ws at hfits hapart ⊢
    exact foldl_push_outside ws t.stackTop m hfits hapart

/-- What the stacks of the tasks created so far leave to the next one. -/
structure Inv (s : Scheduler) : Prop where
  bounded : ∀ r ∈ s.readyQueue, r < s.nextRef
  base_le : taskStacksBase ≤ s.statics.nextStack
  le_end : s.statics.nextStack ≤ stackRegionEnd
  packed : Packed taskStacksBase s.statics.nextStack
    (s.readyQueue.flatMap fun r => stackRanges (s.cells r))
  frame : ∀ r ∈ s.readyQueue, FrameInside (s.cells r)

theorem Inv.sound (h : Inv s) : StacksSound s where
  within r hr q hq := (h.packed.within q (List.mem_flatMap.mpr ⟨r, hr, hq⟩)).mono le_rfl h.le_end
  apart := h.packed.apart
  frame := h.frame

theorem addTask_nextStack (s : Scheduler) (t : Task × Statics) (now : Nat) :
    (s.addTask t now).1.statics.nextStack = t.2.nextStack := by
  simp only [Scheduler.addTask]

/-- The cell of a new task: its frame ends where the next push would go. -/
structure NewCell (t c : Task) : Prop where
  stackTop : c.stackTop = t.stackTop
  ranges : stackRanges c = stackRanges t
  savedRsp : taskStackSize ≤ t.stackTop.toNat → c.savedRsp.toNat = t.stackTop.toNat - 8 * 23

theorem addTask_newCell (s : Scheduler) (t : Task × Statics) (now : Nat) :
    NewCell t.1 ((s.addTask t now).1.cells s.nextRef) := by
  rw [Scheduler.addTask_cells_self, Task.setupInitialStack]
  have hptr := foldl_push_pointer t.1.initialFrame t.1.stackTop t.2.mem
  rw [initialFrame_length] at hptr
  generalize t.1.initialFrame.foldl push (t.1.stackTop, t.2.mem) = f at hptr ⊢
  exact ⟨rfl, rfl, fun htop => hptr (le_trans (by decide) htop)⟩

theorem Inv.addTask (h : Inv s) {k : Nat} (hb : Built s.statics k t)
    (hroom : s.statics.nextStack + k * taskStackSize ≤ stackRegionEnd) (now : Nat) :
    Inv (s.addTask t now).1 := by
  obtain ⟨htop, hranges, hnext⟩ := hb.served hroom
  have hold : ∀ r ∈ s.readyQueue, (s.addTask t now).1.cells r = s.cells r := fun r hr =>
    Scheduler.addTask_cells_of_ne t now (h.bounded r hr).ne
  have hnew := addTask_newCell s t now
  have hqueue : (s.addTask t now).1.readyQueue = s.readyQueue ++ [s.nextRef] := rfl
  have hstack : (s.addTask t now).1.statics.nextStack = s.statics.nextStack + k * taskStackSize := by
    rw [addTask_nextStack, hnext]
  constructor
  · intro r hr
    rw [hqueue, List.mem_append, List.mem_singleton] at hr
    obtain hr | rfl := hr
    · exact Nat.lt_succ_of_lt (h.bounded r hr)
    · exact Nat.lt_succ_self _
  · rw [hstack]
    exact h.base_le.trans (Nat.le_add_right _ _)
  · rw [hstack]
    exact hroom
  · have hflat : (s.readyQueue.flatMap fun r => stackRanges ((s.addTask t now).1.cells r)) =
        s.readyQueue.flatMap fun r => stackRanges (s.cells r) :=
      List.flatMap_congr fun r hr => by rw [hold r hr]
    have hlast : stackRanges ((s.addTask t now).1.cells s.nextRef) =
        blocks s.statics.nextStack taskStackSize k := hnew.ranges.trans hranges
    rw [hqueue, hstack, List.flatMap_append, hflat, List.flatMap_singleton, hlast]
    exact h.packed.append (packed_blocks _ _ _) h.base_le (Nat.le_add_right _ _)
  · intro r hr
    rw [hqueue, List.mem_append, List.mem_singleton] at hr
    obtain hr | rfl := hr
    · rw [hold r hr]
      exact h.frame r hr
    · have hle : taskStackSize ≤ t.1.stackTop.toNat := htop ▸ Nat.le_add_left _ _
      refine frameInside_of_pointer ?_ ?_
      · rwa [hnew.stackTop]
      · rw [hnew.stackTop, hnew.savedRsp hle]

theorem not_sound_of_refused {k : Nat} (hb : Built s.statics k t)
    (hfull : stackRegionEnd < s.statics.nextStack + k * taskStackSize) (now : Nat) :
    ¬StacksSound (s.addTask t now).1 := by
  intro h
  obtain ⟨q, hq, hzero⟩ := hb.refused hfull
  have hmem : q ∈ stackRanges ((s.addTask t now).1.cells s.nextRef) := by
    rwa [(addTask_newCell s t now).ranges]
  have hwithin := h.within s.nextRef (List.mem_append_right _ (List.mem_singleton_self _)) q hmem
  have hbase := hwithin.1
  rw [hzero] at hbase
  exact absurd hbase (by decide)

theorem inv_new (g : Statics) (hg : g.nextStack = taskStacksBase) : Inv (Scheduler.new g) := by
  have hnext : (Scheduler.new g).statics.nextStack = taskStacksBase := hg
  refine ⟨nofun, hnext.ge, ?_, packed_nil _ _, nofun⟩
  rw [hnext]
  decide

/-- The stacks are sound, and what finds none is kept out of the queue, exactly as long as every
creation finds room for the stacks it needs. -/
theorem stacks_sound_iff (g : Statics) (hg : g.nextStack = taskStacksBase) (ops : List Op)
    (hops : ∀ op ∈ ops, Creates op) :
    Always step StacksSound (Scheduler.new g) ops ∧ Guarded step Contained (Scheduler.new g) ops ↔
      Guarded step Room (Scheduler.new g) ops := by
  have hsound : Always step StacksSound (Scheduler.new g) ops ↔
      Guarded step Room (Scheduler.new g) ops := by
    refine always_iff_guarded_of (guarded_of_forall hops) (fun _ h => h.sound)
      (fun s op h hc hroom => ?_)
      (fun s op _ hc hafter => ?_) (inv_new g hg)
    · obtain ⟨⟨t, now⟩, ht⟩ := Option.isSome_iff_exists.mp (hc s.statics)
      rw [step_created ht]
      exact h.addTask (built_created ht) hroom now
    · obtain ⟨⟨t, now⟩, ht⟩ := Option.isSome_iff_exists.mp (hc s.statics)
      rw [step_created ht] at hafter
      exact not_lt.mp fun hfull => not_sound_of_refused (built_created ht) hfull now hafter
  refine ⟨fun h => hsound.mp h.1, fun h => ⟨hsound.mpr h, ?_⟩⟩
  exact h.imp (I := fun _ => True) (fun _ _ _ _ => trivial) (fun _ _ _ hroom hfull => absurd hroom hfull)
    trivial

def bootStatics : Statics := { mem := fun _ => 0 }

theorem kernelAndUser_sound :
    Always step StacksSound (Scheduler.new bootStatics)
        [.createKernelTask 0x100000 "worker" 0, .createUserTask 0x400000 "init" 1] ∧
      Guarded step Contained (Scheduler.new bootStatics)
        [.createKernelTask 0x100000 "worker" 0, .createUserTask 0x400000 "init" 1] := by
  refine (stacks_sound_iff bootStatics rfl _ ?_).mpr ⟨by decide +kernel, by decide +kernel, trivial⟩
  intro op hop g
  simp only [List.mem_cons, List.not_mem_nil, or_false] at hop
  obtain rfl | rfl := hop <;> rfl

def kernelTasks (n : Nat) : List Op := List.replicate n (.createKernelTask 0x100000 "worker" 0)

theorem step_nextStack (h : created s.statics op = some (t, now)) (hroom : Room s op) :
    (step s op).statics.nextStack = s.statics.nextStack + stacksNeeded op * taskStackSize := by
  rw [step_created h, addTask_nextStack, ((built_created h).served hroom).2.2]

theorem run_kernelTasks_nextStack (n : Nat)
    (h : s.statics.nextStack + n * taskStackSize ≤ stackRegionEnd) :
    (run step s (kernelTasks n)).statics.nextStack = s.statics.nextStack + n * taskStackSize := by
  induction n generalizing s with
  | zero =>
    rw [Nat.zero_mul]
    rfl
  | succ n ih =>
    have hsum : s.statics.nextStack + (n + 1) * taskStackSize =
        s.statics.nextStack + 1 * taskStackSize + n * taskStackSize := by
      rw [Nat.add_comm n, Nat.add_mul, Nat.add_assoc]
    rw [hsum] at h
    have hstep : (step s (.createKernelTask 0x100000 "worker" 0)).statics.nextStack =
        s.statics.nextStack + 1 * taskStackSize := step_nextStack rfl (Nat.le_of_add_right_le h)
    rw [kernelTasks, List.replicate_succ, run_cons, hsum, ← hstep]
    exact ih (by rwa [hstep])

/-- The region holds 352 stacks. The task created next has its stack below address zero, and it is
queued like any other. -/
theorem lastTask_not_sound :
    ¬(Always step StacksSound (Scheduler.new bootStatics) (kernelTasks 353) ∧
      Guarded step Contained (Scheduler.new bootStatics) (kernelTasks 353)) := by
  intro h
  have hlast := h.1.last
  have hnext : (run step (Scheduler.new bootStatics) (kernelTasks 352)).statics.nextStack =
      taskStacksBase + 352 * taskStackSize := run_kernelTasks_nextStack 352 (by decide)
  rw [kernelTasks, List.replicate_succ', run_append, ← kernelTasks] at hlast
  refine not_sound_of_refused (built_kernel _ 0x100000 "worker") ?_ 0 hlast
  rw [hnext]
  decide

end DeltaOS.TaskStacks
