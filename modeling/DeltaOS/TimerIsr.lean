import DeltaOS.Ranges
import DeltaOS.Tasks

namespace DeltaOS.TimerIsr

open ByteMemory Kernel Ranges Tasks

inductive Reg
  | rax | rbx | rcx | rdx | rsi | rdi | rbp | r8 | r9 | r10 | r11 | r12 | r13 | r14 | r15
deriving DecidableEq, Repr

@[ext] structure Cpu where
  regs : Reg → Word
  ds : BitVec 16
  es : BitVec 16
  rip : Word
  cs : BitVec 16
  rflags : Word
  rsp : Word
  ss : BitVec 16
  mem : Memory

def Cpu.push (c : Cpu) (v : Word) : Cpu :=
  let f := ByteMemory.push (c.rsp, c.mem) v
  { c with rsp := f.1, mem := f.2 }

@[simp] theorem Cpu.push_regs (c : Cpu) (v : Word) : (c.push v).regs = c.regs := rfl

@[simp] theorem Cpu.push_ds (c : Cpu) (v : Word) : (c.push v).ds = c.ds := rfl

def Cpu.set (c : Cpu) (r : Reg) (v : Word) : Cpu := { c with regs := Function.update c.regs r v }

def Cpu.top (c : Cpu) : Word := read64 c.mem c.rsp.toNat

def Cpu.drop (c : Cpu) : Cpu := { c with rsp := c.rsp + 8 }

def lowHalf (v : Word) (ax : BitVec 16) : Word := v &&& ~~~0xFFFF ||| ax.setWidth 64

inductive Instr
  | push (r : Reg)
  | pop (r : Reg)
  | clear (r : Reg)
  | movAxDs
  | movAx (v : BitVec 16)
  | movDsAx
  | movEsAx
  | iretq

def exec (c : Cpu) : Instr → Cpu
  | .push r => c.push (c.regs r)
  | .pop r => (c.set r c.top).drop
  | .clear r => c.set r 0
  | .movAxDs => c.set .rax (lowHalf (c.regs .rax) c.ds)
  | .movAx v => c.set .rax (lowHalf (c.regs .rax) v)
  | .movDsAx => { c with ds := (c.regs .rax).setWidth 16 }
  | .movEsAx => { c with es := (c.regs .rax).setWidth 16 }
  | .iretq =>
    { c with
      rip := c.top
      cs := c.drop.top.setWidth 16
      rflags := c.drop.drop.top
      rsp := c.drop.drop.drop.top
      ss := c.drop.drop.drop.drop.top.setWidth 16 }

def pushOrder : List Reg :=
  [.rax, .rbx, .rcx, .rdx, .rsi, .rdi, .rbp, .r8, .r9, .r10, .r11, .r12, .r13, .r14, .r15]

/-- `timer_isr` up to the call of the handler. -/
def saveCode : List Instr :=
  pushOrder.map .push ++ [.clear .rax, .movAxDs, .push .rax, .movAx 0x10, .movDsAx, .movEsAx]

/-- `timer_isr` from the point where the handler's result is in the stack pointer. -/
def restoreCode : List Instr :=
  [.pop .rax, .movDsAx, .movEsAx, .pop .r15, .pop .r14, .pop .r13, .pop .r12, .pop .r11, .pop .r10,
    .pop .r9, .pop .r8, .pop .rbp, .pop .rdi, .pop .rsi, .pop .rdx, .pop .rcx, .pop .rbx, .pop .rax,
    .iretq]

/-- What the processor does on an interrupt before the first instruction of the stub. -/
def enterInterrupt (c : Cpu) : Cpu :=
  let old := c
  let c := { c with rsp := c.rsp &&& ~~~15 }
  ((((c.push (old.ss.setWidth 64)).push old.rsp).push old.rflags).push (old.cs.setWidth 64)).push old.rip

def saveContext (c : Cpu) : Cpu := saveCode.foldl exec (enterInterrupt c)

def restoreContext (c : Cpu) (rsp : Word) : Cpu := restoreCode.foldl exec { c with rsp := rsp }

def frameRange (stack : Word) (size : Nat) : Range := ⟨(stack &&& ~~~15).toNat - size, size⟩

section pushes

variable {ws : List Word} {stack : Word} {size : Nat}

theorem foldl_push_base (hlen : 8 * ws.length = size) (hroom : size ≤ (stack &&& ~~~15).toNat)
    (m : Memory) : (ws.foldl push (stack &&& ~~~15, m)).1.toNat = (frameRange stack size).base := by
  subst hlen
  exact foldl_push_pointer ws _ m hroom

theorem foldl_push_outside_frame (hlen : 8 * ws.length = size)
    (hroom : size ≤ (stack &&& ~~~15).toNat) (m : Memory)
    {a : Nat} (ha : ¬(frameRange stack size).Holds a) :
    (ws.foldl push (stack &&& ~~~15, m)).2 a = m a := by
  subst hlen
  refine foldl_push_outside ws _ m hroom ?_
  unfold frameRange Range.Holds at ha
  dsimp only at ha
  omega

end pushes

theorem slot_add (m : Memory) (rsp : Word) (n k : Nat) :
    slot m (rsp + BitVec.ofNat 64 (8 * n)) k = slot m rsp (n + k) := by
  rw [slot, slot, BitVec.add_assoc, ← BitVec.ofNat_add, ← Nat.mul_add]

theorem slot_next (m : Memory) (rsp : Word) (k : Nat) : slot m (rsp + 8) k = slot m rsp (k + 1) := by
  rw [Nat.add_comm]
  exact slot_add m rsp 1 k

theorem top_eq (c : Cpu) : c.top = slot c.mem c.rsp 0 := by simp [Cpu.top, slot]

theorem exec_iretq (c : Cpu) : exec c .iretq =
    { c with
      rip := slot c.mem c.rsp 0
      cs := (slot c.mem c.rsp 1).setWidth 16
      rflags := slot c.mem c.rsp 2
      rsp := slot c.mem c.rsp 3
      ss := (slot c.mem c.rsp 4).setWidth 16 } := by
  simp only [exec, top_eq, Cpu.drop, slot_next, Nat.zero_add, Nat.reduceAdd]

theorem foldl_pop_regs (rs : List Reg) (hrs : rs.Nodup) (c : Cpu) :
    (rs.map Instr.pop).foldl exec c =
      { c with
        regs := fun r => if r ∈ rs then slot c.mem c.rsp (rs.idxOf r) else c.regs r
        rsp := c.rsp + BitVec.ofNat 64 (8 * rs.length) } := by
  induction rs generalizing c with
  | nil => simp
  | cons q rs ih =>
    obtain ⟨hq, hrs⟩ := List.nodup_cons.mp hrs
    rw [List.map_cons, List.foldl_cons, ih hrs]
    have hrsp : c.rsp + 8 + BitVec.ofNat 64 (8 * rs.length) =
        c.rsp + BitVec.ofNat 64 (8 * (rs.length + 1)) := by bv_omega
    simp only [exec, Cpu.set, Cpu.drop, top_eq, List.length_cons, hrsp, Cpu.mk.injEq, and_self, and_true]
    funext r
    by_cases hr : r = q
    · subst hr
      simp [hq]
    · simp only [List.mem_cons, hr, false_or, List.idxOf_cons_ne _ (Ne.symm hr), slot_next,
        Function.update_of_ne hr]

theorem restoreCode_eq : restoreCode =
    [Instr.pop .rax, Instr.movDsAx, Instr.movEsAx] ++ pushOrder.reverse.map Instr.pop ++ [Instr.iretq] :=
  rfl

theorem mem_pushOrder (r : Reg) : r ∈ pushOrder.reverse := by cases r <;> decide

theorem restoreContext_eq (c : Cpu) (rsp : Word) :
    restoreContext c rsp =
      { regs := fun r => slot c.mem rsp (pushOrder.reverse.idxOf r + 1)
        ds := (slot c.mem rsp 0).setWidth 16
        es := (slot c.mem rsp 0).setWidth 16
        rip := slot c.mem rsp 16
        cs := (slot c.mem rsp 17).setWidth 16
        rflags := slot c.mem rsp 18
        rsp := slot c.mem rsp 19
        ss := (slot c.mem rsp 20).setWidth 16
        mem := c.mem } := by
  have hnodup : pushOrder.reverse.Nodup := by decide
  rw [restoreContext, restoreCode_eq, List.foldl_append, List.foldl_append,
    foldl_pop_regs _ hnodup]
  have hlen : pushOrder.reverse.length = 15 := rfl
  simp only [List.foldl_cons, List.foldl_nil, exec_iretq, hlen, slot_add, mem_pushOrder, if_true]
  simp only [exec, Cpu.set, Cpu.drop, top_eq, slot_next, Function.update_self, Nat.reduceAdd]

def savedWords (c : Cpu) : List Word :=
  [c.ss.setWidth 64, c.rsp, c.rflags, c.cs.setWidth 64, c.rip] ++ pushOrder.map c.regs ++
    [c.ds.setWidth 64]

theorem savedWords_length (c : Cpu) : (savedWords c).length = 21 := rfl

theorem foldl_push_regs (rs : List Reg) (c : Cpu) :
    let c' := (rs.map Instr.push).foldl exec c
    (c'.rsp, c'.mem) = (rs.map c.regs).foldl push (c.rsp, c.mem) ∧ c'.ds = c.ds := by
  induction rs generalizing c with
  | nil => exact ⟨rfl, rfl⟩
  | cons r rs ih => exact ih (exec c (.push r))

theorem enterInterrupt_frame (c : Cpu) :
    ((enterInterrupt c).rsp, (enterInterrupt c).mem) =
      [c.ss.setWidth 64, c.rsp, c.rflags, c.cs.setWidth 64, c.rip].foldl push
        (c.rsp &&& ~~~15, c.mem) := by
  simp only [enterInterrupt, Cpu.push, List.foldl_cons, List.foldl_nil]

theorem saveSegments_frame (c : Cpu) :
    let c' := [Instr.clear .rax, .movAxDs, .push .rax, .movAx 0x10, .movDsAx, .movEsAx].foldl exec c
    (c'.rsp, c'.mem) = push (c.rsp, c.mem) (c.ds.setWidth 64) := by
  simp [exec, Cpu.set, Cpu.push, lowHalf]

theorem saveContext_frame (c : Cpu) :
    ((saveContext c).rsp, (saveContext c).mem) =
      (savedWords c).foldl push (c.rsp &&& ~~~15, c.mem) := by
  obtain ⟨hregs, hds⟩ := foldl_push_regs pushOrder (enterInterrupt c)
  have henter := enterInterrupt_frame c
  have hkept : (enterInterrupt c).regs = c.regs ∧ (enterInterrupt c).ds = c.ds := by
    simp only [enterInterrupt, Cpu.push_regs, Cpu.push_ds, and_self]
  rw [saveContext, saveCode, List.foldl_append, saveSegments_frame, hregs, hds, henter, hkept.1,
    hkept.2, savedWords, List.foldl_concat, List.foldl_append]

theorem setWidth_selector (v : BitVec 16) : (v.setWidth 64).setWidth 16 = v := by simp

theorem restoreContext_saveContext (c c' : Cpu) (hroom : 168 ≤ (c.rsp &&& ~~~15).toNat)
    (hframe : ∀ k < 21,
      slot c'.mem (saveContext c).rsp k = slot (saveContext c).mem (saveContext c).rsp k) :
    restoreContext c' (saveContext c).rsp = { c with es := c.ds, mem := c'.mem } := by
  have hslot : ∀ k < 21, slot c'.mem (saveContext c).rsp k = (savedWords c).reverse.getD k 0 := by
    intro k hk
    have hlen := savedWords_length c
    obtain ⟨hrsp, hmem⟩ := Prod.ext_iff.mp (saveContext_frame c)
    simp only at hrsp hmem
    rw [hframe k hk, hrsp, hmem]
    exact slot_foldl_push (savedWords c) _ _ (by omega) (by omega)
  have hds : (slot c'.mem (saveContext c).rsp 0).setWidth 16 = c.ds := by
    rw [hslot 0 (by decide)]
    exact setWidth_selector _
  rw [restoreContext_eq]
  apply Cpu.ext
  · funext r
    cases r <;> exact hslot _ (by decide)
  · exact hds
  · exact hds
  · exact hslot 16 (by decide)
  · rw [hslot 17 (by decide)]
    exact setWidth_selector _
  · exact hslot 18 (by decide)
  · exact hslot 19 (by decide)
  · rw [hslot 20 (by decide)]
    exact setWidth_selector _
  · rfl

def firstRun (t : Task) (c : Cpu) : Cpu :=
  let f := t.setupInitialStack c.mem
  restoreContext { c with mem := f.2 } f.1.savedRsp

/-- What a fresh task is meant to start with. -/
def StartsTask (t : Task) (c : Cpu) : Prop :=
  c.ds = 0x10 ∧ (∀ r, c.regs r = 0) ∧ c.rip = t.entryPoint ∧ c.cs = 0x08 ∧ c.rflags = 0x202 ∧
    c.rsp = t.stackTop ∧ c.ss = 0x10

theorem firstRun_slot (t : Task) (m : Memory) (h : 184 ≤ t.stackTop.toNat) (k : Nat) (hk : k < 23) :
    slot (t.setupInitialStack m).2 (t.setupInitialStack m).1.savedRsp k =
      t.initialFrame.reverse.getD k 0 := by
  have hlen : t.initialFrame.length = 23 := rfl
  simp only [Task.setupInitialStack]
  exact slot_foldl_push t.initialFrame t.stackTop m (by omega) (by omega)

/-- The error code and the vector that only the Rust side puts on the stack shift every
later word by two slots, and the data segment lies on the wrong side of the registers. -/
theorem firstRun_eq (t : Task) (c : Cpu) (h : 184 ≤ t.stackTop.toNat) :
    (firstRun t c).ds = 0 ∧ (firstRun t c).regs .rax = 0x10 ∧ (firstRun t c).rip = 0x20 ∧
      (firstRun t c).cs = 0 ∧ (firstRun t c).rflags = t.entryPoint ∧ (firstRun t c).rsp = 0x08 ∧
      (firstRun t c).ss = 0x202 := by
  have hslot := firstRun_slot t c.mem h
  simp only [firstRun, restoreContext_eq]
  refine ⟨?_, ?_, ?_, ?_, ?_, ?_, ?_⟩
  · rw [hslot 0 (by decide)]; rfl
  · exact hslot 15 (by decide)
  · rw [hslot 16 (by decide)]; rfl
  · rw [hslot 17 (by decide)]; rfl
  · rw [hslot 18 (by decide)]; rfl
  · rw [hslot 19 (by decide)]; rfl
  · rw [hslot 20 (by decide)]; rfl

theorem firstRun_never_starts (t : Task) (c : Cpu) (h : 184 ≤ t.stackTop.toNat) :
    ¬StartsTask t (firstRun t c) := by
  intro hs
  have hds := (firstRun_eq t c h).1
  rw [hs.1] at hds
  cases hds

/-- A processor in kernel mode, with blank memory. -/
def bootCpu : Cpu where
  regs := fun _ => 0
  ds := 0x10
  es := 0x10
  rip := 0x100000
  cs := 0x08
  rflags := 0x2
  rsp := 0x90000
  ss := 0x10
  mem := fun _ => 0

def firstTask : Task := (Task.newKernel { mem := bootCpu.mem } 0x100000 "idle").1

theorem firstTask_never_starts :
    184 ≤ firstTask.stackTop.toNat ∧ ¬StartsTask firstTask (firstRun firstTask bootCpu) :=
  ⟨by decide, firstRun_never_starts firstTask bootCpu (by decide)⟩

theorem firstTask_jumps_to_vector :
    firstTask.stackTop = 0xA10000 ∧ firstTask.entryPoint = 0x100000 ∧
      (firstRun firstTask bootCpu).rip = 0x20 ∧ (firstRun firstTask bootCpu).cs = 0 ∧
      ¬StartsTask firstTask (firstRun firstTask bootCpu) := by
  obtain ⟨-, -, hrip, hcs, -⟩ := firstRun_eq firstTask bootCpu (by decide)
  refine ⟨by decide, by decide, hrip, hcs, fun hs => ?_⟩
  have hentry := hs.2.2.1
  rw [hrip] at hentry
  cases hentry

end DeltaOS.TimerIsr
