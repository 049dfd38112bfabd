import DeltaOS.InterruptDispatch
import DeltaOS.Ranges
import DeltaOS.TimerIsr

namespace DeltaOS.IsrStubs

open ByteMemory Kernel TimerIsr Interrupts InterruptDispatch Ranges

/-- What the stubs leave on the stack for `rust_isr_handler`, the general registers under one name. -/
@[ext] structure InterruptContext where
  regs : Reg → Word
  vector : Word
  errorCode : Word
  rip : Word
  cs : Word
  rflags : Word
  rsp : Word
  ss : Word

/-- The vectors of the stubs made by `ISR_ERR`. -/
def errorStubs : List Nat := [8, 10, 11, 12, 13, 14, 17, 21, 30]

/-- What a stub pushes before it jumps to `isr_common`. -/
def stubPushes (vector : Nat) : List Word :=
  if vector ∈ errorStubs then [BitVec.ofNat 64 vector] else [0, BitVec.ofNat 64 vector]

/-- What the processor does before the first instruction of a stub: the frame goes to `stack`, which
is the stack pointer itself or, from another privilege level, the one in the task state segment. -/
def enterOn (stack : Word) (error : Option Word) (c : Cpu) : Cpu :=
  ([c.ss.setWidth 64, c.rsp, c.rflags, c.cs.setWidth 64, c.rip] ++ error.toList).foldl Cpu.push
    { c with rsp := stack &&& ~~~15 }

/-- A stub and `isr_common` up to the call of the handler. -/
def isrEnter (vector : Nat) (c : Cpu) : Cpu :=
  (pushOrder.map Instr.push).foldl exec ((stubPushes vector).foldl Cpu.push c)

/-- `isr_common` from the point where the handler has returned. -/
def isrLeave (c : Cpu) : Cpu := exec ((pushOrder.reverse.map Instr.pop).foldl exec c).drop.drop .iretq

/-- The `InterruptContext` the handler is given a pointer to. -/
def contextAt (m : Memory) (ctx : Word) : InterruptContext where
  regs := fun r => slot m ctx (pushOrder.reverse.idxOf r)
  vector := slot m ctx 15
  errorCode := slot m ctx 16
  rip := slot m ctx 17
  cs := slot m ctx 18
  rflags := slot m ctx 19
  rsp := slot m ctx 20
  ss := slot m ctx 21

/-- The context a program is interrupted in. -/
def interrupted (c : Cpu) (vector : Nat) (error : Option Word) : InterruptContext where
  regs := c.regs
  vector := BitVec.ofNat 64 vector
  errorCode := error.getD 0
  rip := c.rip
  cs := c.cs.setWidth 64
  rflags := c.rflags
  rsp := c.rsp
  ss := c.ss.setWidth 64

/-- The processor with what a context holds. -/
def resumed (c : Cpu) (ctx : InterruptContext) : Cpu :=
  { c with
    regs := ctx.regs
    rip := ctx.rip
    cs := ctx.cs.setWidth 16
    rflags := ctx.rflags
    rsp := ctx.rsp
    ss := ctx.ss.setWidth 16 }

def frameWords (c : Cpu) (vector : Nat) (error : Option Word) : List Word :=
  [c.ss.setWidth 64, c.rsp, c.rflags, c.cs.setWidth 64, c.rip] ++
    [error.getD 0, BitVec.ofNat 64 vector] ++
    pushOrder.map c.regs

def frameSize : Nat := 176

def Matches (vector : Nat) (error : Option Word) : Prop := error.isSome ↔ vector ∈ errorStubs

instance (vector : Nat) (error : Option Word) : Decidable (Matches vector error) :=
  inferInstanceAs (Decidable (_ ↔ _))

variable {stack : Word} {vector : Nat} {error : Option Word} {c : Cpu}

theorem frameWords_length (c : Cpu) (vector : Nat) (error : Option Word) :
    8 * (frameWords c vector error).length = frameSize := rfl

theorem foldl_cpuPush (ws : List Word) (c : Cpu) : ws.foldl Cpu.push c =
    { c with rsp := (ws.foldl push (c.rsp, c.mem)).1, mem := (ws.foldl push (c.rsp, c.mem)).2 } := by
  induction ws generalizing c with
  | nil => rfl
  | cons w ws ih => rw [List.foldl_cons, ih, List.foldl_cons]; rfl

theorem stubPushes_eq (h : Matches vector error) :
    error.toList ++ stubPushes vector = [error.getD 0, BitVec.ofNat 64 vector] := by
  unfold Matches at h
  cases error with
  | none =>
    have hn : vector ∉ errorStubs := fun hv => by cases h.mpr hv
    rw [stubPushes, if_neg hn]
    rfl
  | some e =>
    rw [stubPushes, if_pos (h.mp rfl)]
    rfl

theorem foldl_exec_push (rs : List Reg) (c : Cpu) :
    (rs.map Instr.push).foldl exec c = (rs.map c.regs).foldl Cpu.push c := by
  induction rs generalizing c with
  | nil => rfl
  | cons r rs ih => exact ih (exec c (.push r))

theorem isrEnter_eq (h : Matches vector error) (stack : Word) (c : Cpu) :
    isrEnter vector (enterOn stack error c) =
      { c with
        rsp := ((frameWords c vector error).foldl push (stack &&& ~~~15, c.mem)).1
        mem := ((frameWords c vector error).foldl push (stack &&& ~~~15, c.mem)).2 } := by
  have hcpu : (stubPushes vector).foldl Cpu.push (enterOn stack error c) =
      ([c.ss.setWidth 64, c.rsp, c.rflags, c.cs.setWidth 64, c.rip] ++
        [error.getD 0, BitVec.ofNat 64 vector]).foldl Cpu.push { c with rsp := stack &&& ~~~15 } := by
    rw [enterOn, ← List.foldl_append, List.append_assoc, stubPushes_eq h]
  rw [isrEnter, foldl_exec_push, hcpu, foldl_cpuPush, foldl_cpuPush]
  simp only [frameWords, List.foldl_append, Prod.mk.eta]

theorem isrLeave_eq (c : Cpu) : isrLeave c = resumed c (contextAt c.mem c.rsp) := by
  have hnodup : pushOrder.reverse.Nodup := by decide
  have hlen : pushOrder.reverse.length = 15 := rfl
  have hdrop : c.rsp + BitVec.ofNat 64 (8 * 15) + 8 + 8 = c.rsp + BitVec.ofNat 64 (8 * 17) := by bv_omega
  rw [isrLeave, foldl_pop_regs _ hnodup, exec_iretq]
  simp only [Cpu.drop, hlen, hdrop, slot_add, mem_pushOrder, if_true, resumed, contextAt, Nat.reduceAdd]

theorem contextAt_isrEnter (h : Matches vector error)
    (hroom : frameSize ≤ (stack &&& ~~~15).toNat) (c : Cpu) :
    contextAt (isrEnter vector (enterOn stack error c)).mem
      (isrEnter vector (enterOn stack error c)).rsp = interrupted c vector error := by
  have hslot : ∀ k < 22, slot (isrEnter vector (enterOn stack error c)).mem
      (isrEnter vector (enterOn stack error c)).rsp k =
        (frameWords c vector error).reverse.getD k 0 := by
    intro k hk
    rw [isrEnter_eq h]
    dsimp only
    exact slot_foldl_push (frameWords c vector error) _ _ hroom hk
  apply InterruptContext.ext
  · funext r
    cases r <;> exact hslot _ (by decide)
  · exact hslot 15 (by decide)
  · exact hslot 16 (by decide)
  · exact hslot 17 (by decide)
  · exact hslot 18 (by decide)
  · exact hslot 19 (by decide)
  · exact hslot 20 (by decide)
  · exact hslot 21 (by decide)

theorem isrEnter_rsp (h : Matches vector error) (hroom : frameSize ≤ (stack &&& ~~~15).toNat) (c : Cpu) :
    (isrEnter vector (enterOn stack error c)).rsp.toNat = (frameRange stack frameSize).base := by
  rw [isrEnter_eq h]
  dsimp only
  exact foldl_push_base (frameWords_length c vector error) hroom c.mem

theorem isrEnter_outside (h : Matches vector error)
    (hroom : frameSize ≤ (stack &&& ~~~15).toNat) (c : Cpu)
    {a : Nat} (ha : ¬(frameRange stack frameSize).Holds a) :
    (isrEnter vector (enterOn stack error c)).mem a = c.mem a := by
  rw [isrEnter_eq h]
  dsimp only
  exact foldl_push_outside_frame (frameWords_length c vector error) hroom c.mem ha

end DeltaOS.IsrStubs
