import DeltaOS.IsrStubs
import DeltaOS.Runs
import DeltaOS.Syscalls

namespace DeltaOS.Traps

open ByteMemory Kernel TimerIsr Interrupts InterruptDispatch IsrStubs Syscalls Ranges Runs

/-- A number as `:#X` prints it. -/
def upperHex (n : Nat) : String := "0x" ++ String.ofList ((Nat.toDigits 16 n).map Char.toUpper)

def flag (b : Bool) : String := if b then "true" else "false"

/-- What `rust_isr_handler` prints for an exception. -/
def excMessage (ctx : InterruptContext) (cr2 : Word) : String :=
  let rip := upperHex ctx.rip.toNat
  match ctx.vector.toNat with
  | 0 => "[EXC] #DE Divide Error at RIP=" ++ rip ++ "\n"
  | 6 => "[EXC] #UD Invalid Opcode at RIP=" ++ rip ++ "\n"
  | 8 => "[EXC] #DF Double Fault!\n"
  | 13 => "[EXC] #GP General Protection at RIP=" ++ rip ++ " err=" ++
      upperHex ctx.errorCode.toNat ++ "\n"
  | 14 => "[EXC] #PF at RIP=" ++ rip ++ " addr=" ++ upperHex cr2.toNat ++
      " P=" ++ flag (ctx.errorCode &&& 1 != 0) ++ " W=" ++ flag (ctx.errorCode &&& 2 != 0) ++
      " U=" ++ flag (ctx.errorCode &&& 4 != 0) ++ "\n"
  | v => "[EXC] Vector " ++ toString v ++ " at RIP=" ++ rip ++ "\n"

/-- `rust_isr_handler` for exceptions and system calls: the output after it and the word it stores in
`ctx.rax`, if it does. It does not return from a double fault. -/
def rustIsrHandler (mapped : Nat → Bool) (m : Memory) (cr2 : Word) (out : Output)
    (ctx : InterruptContext) : Option (Option Word × Output) :=
  if ctx.vector = 128 then do
    let r ← rustSyscallHandler mapped m out (ctx.regs .rax) (ctx.regs .rdi) (ctx.regs .rsi)
        (ctx.regs .rdx)
    return (some r.1, r.2)
  else do
    let out ← out.print (Keyboard.ascii (excMessage ctx cr2))
    if ctx.vector = 8 then none else return (none, out)

/-- Where `ctx.rax` is. -/
def raxAddr (ctx : Word) : Nat := (ctx + BitVec.ofNat 64 (8 * 14)).toNat

def storeRax (m : Memory) (ctx : Word) : Option Word → Memory
  | some v => write64 m (raxAddr ctx) v
  | none => m

/-- The vector that the stub behind an entry of the table pushes. -/
def pushedVector (image : Image) (vector : Nat) : Option Nat :=
  match (init image vector).handler.bind image.stubAt with
  | some (.isr v) => some v
  | some .isr128 => some 128
  | _ => none

/-- A program traps: the processor in the state it traps in, the error code and the fault address the
processor supplies, where the frame goes, which memory can be read, and what the compiled handler
stores besides `ctx.rax` (in its own part of the stack, on the screen and in the statics). -/
structure Trap where
  cpu : Cpu
  vector : Nat
  error : Option Word
  cr2 : Word
  stack : Word
  mapped : Nat → Bool
  stores : List (Nat × Byte)

def Trap.entered (t : Trap) (v : Nat) : Cpu := isrEnter v (enterOn t.stack t.error t.cpu)

def Trap.scribble (t : Trap) (m : Memory) : Memory :=
  t.stores.foldl (fun m w => Function.update m w.1 w.2) m

/-- The processor after the trap, with what has been printed. -/
def Trap.serve (image : Image) (t : Trap) (out : Output) : Option (Cpu × Output) := do
  let v ← pushedVector image t.vector
  let c := t.entered v
  let r ← rustIsrHandler t.mapped c.mem t.cr2 out (contextAt c.mem c.rsp)
  return (isrLeave { c with mem := storeRax (t.scribble c.mem) c.rsp r.1 }, r.2)

def Trap.buffer (t : Trap) : Range :=
  Syscalls.buffer (t.cpu.regs .rax) (t.cpu.regs .rdi) (t.cpu.regs .rsi) (t.cpu.regs .rdx)

def Trap.text (t : Trap) : List Byte :=
  if t.vector = 128 then
    printed t.cpu.mem (t.cpu.regs .rax) (t.cpu.regs .rdi) (t.cpu.regs .rsi) (t.cpu.regs .rdx)
  else Keyboard.ascii (excMessage (interrupted t.cpu t.vector t.error) t.cr2)

/-- What a trap returns in `rax`. -/
def Trap.returned (t : Trap) : Option Word :=
  if t.vector = 128 then
    (result (t.cpu.regs .rax) (t.cpu.regs .rdi) (t.cpu.regs .rsi) (t.cpu.regs .rdx)).map toWord
  else none

/-- An exception or a system call that the kernel returns from, with an error code exactly where the
stub expects one and room for the frame. What is printed can be read and does not lie where the frame
goes, and the handler stores neither there nor into the frame. -/
structure Trap.Ok (t : Trap) : Prop where
  vector : t.vector < 32 ∧ t.vector ≠ 8 ∨ t.vector = 128 ∧ SyscallNumber.from (t.cpu.regs .rax) ≠ .exit
  error : Matches t.vector t.error
  room : frameSize ≤ (t.stack &&& ~~~15).toNat
  readable : Readable t.mapped t.buffer
  apart : t.buffer.Apart (frameRange t.stack frameSize)
  stores : ∀ w ∈ t.stores, ¬(frameRange t.stack frameSize).Holds w.1 ∧ ¬t.buffer.Holds w.1

variable {image : Image} {t : Trap} {out : Output} {color : Byte}

theorem stub_of_exception (image : Image) {v : Nat} (hv : v < 32) :
    (init image v).handler = some (image.addr (.isr (Fin.ofNat 48 v))) := by
  have hstub : isrStubTable.getD v .spuriousIsr = .isr (Fin.ofNat 48 v) := by
    have hlt : v < 48 := by omega
    have hmod : Fin.ofNat 48 v = ⟨v, hlt⟩ := Fin.ext (Nat.mod_eq_of_lt hlt)
    rw [isrStubTable, List.getD_append _ _ _ _ (by simpa using hlt), hmod]
    simp [hlt]
  rw [init, setHandler_of_ne (by omega), setHandler_of_ne (by omega), setStubs_outside (by omega),
    setHandler_of_ne (by omega), handler_setStubs (by omega) (by omega) (by unfold idtEntries; omega),
    Nat.sub_zero, hstub]

theorem stub_of_syscall (image : Image) : (init image 0x80).handler = some (image.addr .isr128) := by
  rw [init, setHandler_of_ne (by decide), handler_setHandler (by decide) (by decide)]
  rfl

theorem pushedVector_exception (image : Image) {v : Nat} (hv : v < 32) :
    pushedVector image v = some v := by
  have hlt : v < 48 := by omega
  rw [pushedVector, stub_of_exception image hv, Option.bind_some, image.stubAt_addr]
  simp [Nat.mod_eq_of_lt hlt]

theorem pushedVector_syscall (image : Image) : pushedVector image 128 = some 128 := by
  rw [pushedVector, stub_of_syscall, Option.bind_some, image.stubAt_addr]

theorem Trap.Ok.pushedVector (h : t.Ok) (image : Image) :
    pushedVector image t.vector = some t.vector := by
  obtain ⟨hv, -⟩ | ⟨hv, -⟩ := h.vector
  · exact pushedVector_exception image hv
  · rw [hv]
    exact pushedVector_syscall image

theorem Trap.Ok.contextAt (h : t.Ok) :
    contextAt (t.entered t.vector).mem (t.entered t.vector).rsp = interrupted t.cpu t.vector t.error :=
  contextAt_isrEnter h.error h.room t.cpu

theorem Trap.Ok.entered_outside (h : t.Ok) {a : Nat} (ha : ¬(frameRange t.stack frameSize).Holds a) :
    (t.entered t.vector).mem a = t.cpu.mem a := by
  rw [Trap.entered]
  exact isrEnter_outside h.error h.room t.cpu ha

theorem Trap.Ok.handled (h : t.Ok) (hs : Synced color out) :
    ∃ out', rustIsrHandler t.mapped (t.entered t.vector).mem t.cr2 out
      (interrupted t.cpu t.vector t.error) =
        some (t.returned, out') ∧ out'.serial = out.serial ++ t.text ∧ Synced color out' := by
  obtain ⟨hlt, h8⟩ | ⟨hv, hexit⟩ := h.vector
  · have hne : t.vector ≠ 128 := by omega
    have hword : ∀ n < 256, n ≠ t.vector → (BitVec.ofNat 64 t.vector : Word) ≠ BitVec.ofNat 64 n := by
      intro n hn hne he
      have hnat := congrArg BitVec.toNat he
      rw [BitVec.toNat_ofNat, BitVec.toNat_ofNat] at hnat
      omega
    obtain ⟨out', hrun, hserial, h'⟩ :=
      hs.print (Keyboard.ascii (excMessage (interrupted t.cpu t.vector t.error) t.cr2))
    refine ⟨out', ?_, ?_, h'⟩
    · have h128 : (interrupted t.cpu t.vector t.error).vector ≠ 128 :=
        hword 128 (by decide) (Ne.symm hne)
      have hdf : (interrupted t.cpu t.vector t.error).vector ≠ 8 := hword 8 (by decide) (Ne.symm h8)
      rw [rustIsrHandler, if_neg h128, hrun, Trap.returned, if_neg hne]
      simp only [Option.bind_eq_bind, Option.bind_some, if_neg hdf]
      rfl
    · rw [hserial, Trap.text, if_neg hne]
  · obtain ⟨r, hr⟩ := Option.ne_none_iff_exists'.mp
      (mt (result_eq_none_iff (t.cpu.regs .rax) (t.cpu.regs .rdi)
      (t.cpu.regs .rsi) (t.cpu.regs .rdx)).mp hexit)
    obtain ⟨out', hrun, hserial, h'⟩ := hs.served (t.entered t.vector).mem hr h.readable
    have hctx : (interrupted t.cpu t.vector t.error).vector = 128 := by
      rw [interrupted, hv]
      rfl
    refine ⟨out', ?_, ?_, h'⟩
    · rw [rustIsrHandler, if_pos hctx, Trap.returned, if_pos hv, hr]
      simp only [interrupted, hrun]
      rfl
    · have hmem : ∀ a, t.buffer.Holds a → (t.entered t.vector).mem a = t.cpu.mem a :=
        fun a ha => h.entered_outside (h.apart.not_mem ha)
      rw [hserial, Trap.text, if_pos hv, printed_congr hmem]

theorem slot_storeRax {ctx : Word} (hfit : ctx.toNat + frameSize ≤ 2 ^ 64) (m : Memory)
    (v : Word) {k : Nat}
    (hk : k < 22) : slot (storeRax m ctx (some v)) ctx k = if k = 14 then v else slot m ctx k := by
  have haddr : ∀ j < 22, (ctx + BitVec.ofNat 64 (8 * j)).toNat = ctx.toNat + 8 * j :=
    fun _ => toNat_slot hfit
  rw [storeRax, slot, raxAddr, haddr 14 (by decide), haddr k hk]
  split_ifs with h14
  · rw [h14, read64_write64_same]
  · rw [read64_write64_of_disjoint (by omega), slot, haddr k hk]

theorem idxOf_eq_rax (r : Reg) : pushOrder.reverse.idxOf r = 14 ↔ r = .rax := by cases r <;> decide

theorem idxOf_lt (r : Reg) : pushOrder.reverse.idxOf r < 22 := by cases r <;> decide

theorem contextAt_storeRax {ctx : Word} (hfit : ctx.toNat + frameSize ≤ 2 ^ 64) (m : Memory)
    (v : Option Word) : contextAt (storeRax m ctx v) ctx = { contextAt m ctx with
      regs := v.elim (contextAt m ctx).regs (Function.update (contextAt m ctx).regs .rax) } := by
  cases v with
  | none => rfl
  | some v =>
    have hother : ∀ k < 22, k ≠ 14 → slot (storeRax m ctx (some v)) ctx k = slot m ctx k := by
      intro k hk hne
      rw [slot_storeRax hfit m v hk, if_neg hne]
    simp only [contextAt, Option.elim_some, hother 15 (by decide) (by decide),
      hother 16 (by decide) (by decide),
      hother 17 (by decide) (by decide), hother 18 (by decide) (by decide),
        hother 19 (by decide) (by decide),
      hother 20 (by decide) (by decide), hother 21 (by decide) (by decide),
        InterruptContext.mk.injEq, and_true]
    funext r
    rw [slot_storeRax hfit m v (idxOf_lt r), Function.update_apply]
    simp only [idxOf_eq_rax]

theorem contextAt_congr {m m' : Memory} {ctx : Word} (h : ∀ k < 22, slot m ctx k = slot m' ctx k) :
    contextAt m ctx = contextAt m' ctx := by
  simp only [contextAt, h 15 (by decide), h 16 (by decide), h 17 (by decide), h 18 (by decide),
    h 19 (by decide), h 20 (by decide), h 21 (by decide), InterruptContext.mk.injEq, and_true]
  funext r
  exact h _ (idxOf_lt r)

theorem Trap.Ok.fits (h : t.Ok) : (t.entered t.vector).rsp.toNat + frameSize ≤ 2 ^ 64 := by
  have hlt := (t.stack &&& ~~~15).isLt
  have hroom := h.room
  have hrsp := isrEnter_rsp h.error h.room t.cpu
  rw [Trap.entered, hrsp, frameRange]
  dsimp only
  omega

theorem Trap.scribble_of_forall_ne (t : Trap) (m : Memory) {a : Nat} (h : ∀ w ∈ t.stores, w.1 ≠ a) :
    t.scribble m a = m a := by
  rw [Trap.scribble]
  generalize t.stores = ws at h
  induction ws generalizing m with
  | nil => rfl
  | cons w ws ih =>
    obtain ⟨hw, hws⟩ := List.forall_mem_cons.mp h
    rw [List.foldl_cons, ih _ hws, Function.update_of_ne hw.symm]

theorem Trap.Ok.contextAt_scribble (h : t.Ok) :
    IsrStubs.contextAt (t.scribble (t.entered t.vector).mem) (t.entered t.vector).rsp =
      interrupted t.cpu t.vector t.error := by
  rw [← h.contextAt]
  refine contextAt_congr fun k hk => slot_congr h.fits (fun a hlo hhi => ?_) hk
  have hrsp : (t.entered t.vector).rsp.toNat = (frameRange t.stack frameSize).base :=
    isrEnter_rsp h.error h.room t.cpu
  rw [hrsp] at hlo hhi
  refine t.scribble_of_forall_ne _ fun w hw ha => (h.stores w hw).1 ?_
  rw [ha]
  exact ⟨hlo, hhi⟩

/-- The program is where it was, with the result of a system call in `rax`. Memory has changed only in
the frame and where the handler stores. -/
structure Resumes (t : Trap) (c : Cpu) : Prop where
  back : c = { t.cpu with
    regs := t.returned.elim t.cpu.regs (Function.update t.cpu.regs .rax)
    mem := c.mem }
  mem : ∀ a, ¬(frameRange t.stack frameSize).Holds a → (∀ w ∈ t.stores, w.1 ≠ a) → c.mem a = t.cpu.mem a

theorem storeRax_outside {ctx : Word} (hfit : ctx.toNat + frameSize ≤ 2 ^ 64) (m : Memory)
    (v : Option Word) {a : Nat}
    (ha : ¬Range.Holds ⟨ctx.toNat, frameSize⟩ a) : storeRax m ctx v a = m a := by
  cases v with
  | none => rfl
  | some v =>
    have haddr : raxAddr ctx = ctx.toNat + 8 * 14 := toNat_slot (n := 22) hfit (by decide)
    refine writeNat_apply_of_outside ?_
    unfold Range.Holds frameSize at ha
    dsimp only at ha
    omega

theorem Trap.Ok.resumes (h : t.Ok) :
    Resumes t (isrLeave { t.entered t.vector with
      mem := storeRax (t.scribble (t.entered t.vector).mem) (t.entered t.vector).rsp t.returned }) := by
  constructor
  · rw [isrLeave_eq, contextAt_storeRax h.fits, h.contextAt_scribble, Trap.entered, isrEnter_eq h.error]
    simp only [resumed, interrupted, setWidth_selector]
  · intro a hframe hstores
    have hrsp : (t.entered t.vector).rsp.toNat = (frameRange t.stack frameSize).base :=
      isrEnter_rsp h.error h.room t.cpu
    rw [isrLeave_eq]
    refine (storeRax_outside h.fits _ _ ?_).trans
      ((t.scribble_of_forall_ne _ hstores).trans (h.entered_outside hframe))
    rw [hrsp]
    exact hframe

theorem Trap.Ok.serve (h : t.Ok) (image : Image) (hs : Synced color out) :
    ∃ c out', t.serve image out = some (c, out') ∧ Resumes t c ∧ out'.serial = out.serial ++ t.text ∧
      Synced color out' := by
  obtain ⟨out', hrun, hserial, h'⟩ := h.handled hs
  refine ⟨_, out', ?_, h.resumes, hserial, h'⟩
  rw [Trap.serve, h.pushedVector image, Option.bind_eq_bind, Option.bind_some]
  dsimp only
  rw [h.contextAt, hrun]
  rfl

def step (image : Image) (out : Option Output) (t : Trap) : Option Output :=
  out.bind fun out => (t.serve image out).map Prod.snd

def Served (image : Image) (out : Option Output) (t : Trap) : Prop :=
  ∃ c, (out.bind (t.serve image)).map Prod.fst = some c ∧ Resumes t c

theorem Trap.Ok.step (h : t.Ok) (image : Image) (hs : Synced color out) :
    Served image (some out) t ∧
      ∃ out', step image (some out) t = some out' ∧ out'.serial = out.serial ++ t.text ∧
        Synced color out' := by
  obtain ⟨c, out', hrun, hresumes, hserial, h'⟩ := h.serve image hs
  refine ⟨⟨c, ?_, hresumes⟩, out', ?_, hserial, h'⟩
  · rw [Option.bind_some, hrun, Option.map_some]
  · rw [Traps.step, Option.bind_some, hrun, Option.map_some]

end DeltaOS.Traps
