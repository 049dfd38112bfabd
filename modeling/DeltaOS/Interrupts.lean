import DeltaOS.Keyboard
import DeltaOS.Sched

namespace DeltaOS.Interrupts

open Kernel Tasks Sched Keyboard

structure Timer where
  tickCount : Word
  uptimeMs : Word
  timerHz : BitVec 32

/-- No result where the division by `TIMER_HZ` panics. -/
def onTimerTick (t : Timer) : Option Timer :=
  if t.timerHz = 0 then none
  else some { t with
    tickCount := t.tickCount + 1
    uptimeMs := t.uptimeMs + 1000 / t.timerHz.setWidth 64 }

/-- The statics that the interrupt handlers work on. -/
structure Devices where
  timer : Timer
  keyboard : KeyboardState
  scheduler : Option Scheduler

/-- The entry points: `isr0` to `isr47` and `isr128`, `timer_isr` and `spurious_isr`. -/
inductive Stub
  | isr (vector : Fin 48)
  | isr128
  | timerIsr
  | spuriousIsr
deriving DecidableEq, Repr

/-- Where the linker put the stubs. -/
structure Image where
  addr : Stub → Word
  stubAt : Word → Option Stub
  stubAt_addr : ∀ s, stubAt (addr s) = some s

def isrStubTable : List Stub := (List.finRange 48).map .isr ++ [.isr128]

structure IdtEntry where
  offsetLow : BitVec 16 := 0
  selector : BitVec 16 := 0
  ist : BitVec 8 := 0
  attributes : BitVec 8 := 0
  offsetMiddle : BitVec 16 := 0
  offsetHigh : BitVec 32 := 0
  reserved : BitVec 32 := 0

abbrev Idt := Nat → IdtEntry

def idtEntries : Nat := 256
def idtPresent : BitVec 8 := 0x80
def idtInterruptGate : BitVec 8 := 0x0E
def idtTrapGate : BitVec 8 := 0x0F
def idtDplKernel : BitVec 8 := 0x00
def idtDplUser : BitVec 8 := 0x60

def setHandler (idt : Idt) (vector : Nat) (handlerAddr : Word) (attributes : BitVec 8) : Idt :=
  if vector ≥ idtEntries then idt
  else Function.update idt vector
    { offsetLow := (handlerAddr &&& 0xFFFF).setWidth 16
      selector := 0x08
      ist := 0
      attributes := attributes
      offsetMiddle := (handlerAddr >>> 16 &&& 0xFFFF).setWidth 16
      offsetHigh := (handlerAddr >>> 32 &&& 0xFFFFFFFF).setWidth 32
      reserved := 0 }

section Table

variable (image : Image)

/-- One of the loops of `init`: it fills `count` vectors from `first` on with the stubs of the
table, the vector `i` with the entry `i - shift`. -/
def setStubs (idt : Idt) (first count shift : Nat) : Idt :=
  (List.range' first count).foldl (fun idt i =>
    setHandler idt i (image.addr (isrStubTable.getD (i - shift) .spuriousIsr))
      (idtPresent ||| idtInterruptGate ||| idtDplKernel)) idt

/-- The table `init` builds. -/
def init : Idt :=
  let idt : Idt := fun _ => {}
  let idt := setStubs image idt 0 32 0
  let idt := setHandler idt 32 (image.addr .timerIsr) (idtPresent ||| idtInterruptGate ||| idtDplKernel)
  let idt := setStubs image idt 33 15 1
  let idt := setHandler idt 0x80 (image.addr (isrStubTable.getD 48 .spuriousIsr))
    (idtPresent ||| idtTrapGate ||| idtDplUser)
  setHandler idt 0xFF (image.addr .spuriousIsr) (idtPresent ||| idtInterruptGate ||| idtDplKernel)

end Table

def IdtEntry.handler (e : IdtEntry) : Option Word :=
  if e.attributes &&& idtPresent = 0 then none
  else some (e.offsetHigh ++ e.offsetMiddle ++ e.offsetLow)

/-- A hardware interrupt, with what its handler finds: the byte in port 0x60, the registers that
`context_switch` would store, and the stack pointer that `timer_isr` passes on. -/
structure Interrupt where
  irq : Fin 16
  port60 : Byte
  cpu : SavedRegisters
  savedStatePtr : Word

def Interrupt.vector (i : Interrupt) : Nat := 32 + i.irq

def rustTimerHandler (d : Devices) (savedStatePtr : Word) : Option (Devices × Word) :=
  (onTimerTick d.timer).map fun timer =>
    let d := { d with timer := timer }
    match d.scheduler with
    | none => (d, savedStatePtr)
    | some s =>
      if s.preemptEnabled then
        let r := s.preemptSchedule savedStatePtr
        ({ d with scheduler := some r.1 }, r.2)
      else (d, savedStatePtr)

/-- The scheduler's part of a tick in `rust_isr_handler`, with the registers after it. -/
def schedulerTick (d : Devices) (cpu : SavedRegisters) : Devices × SavedRegisters :=
  match d.scheduler with
  | none => (d, cpu)
  | some s => ({ d with scheduler := some (s.tick cpu).1 }, (s.tick cpu).2)

/-- What a vector does to the devices, and the registers that the handler goes on with. The
exceptions only print, apart from the double fault, which does not return; `syscall` is what
`rust_syscall_handler` does. -/
def rustIsrHandler (syscall : Devices → Devices) (d : Devices) (vector : Nat) (i : Interrupt) :
    Option (Devices × SavedRegisters) :=
  match vector with
  | 8 => none
  | 32 => (onTimerTick d.timer).map fun timer => schedulerTick { d with timer := timer } i.cpu
  | 33 => some ({ d with keyboard := handleKeyboardScancode d.keyboard i.port60 }, i.cpu)
  | 128 => some (syscall d, i.cpu)
  | _ => some (d, i.cpu)

/-- The end of an interrupt: the devices, the stack pointer from which the stub returns and the
registers that its handler went on with. -/
structure Outcome where
  devices : Devices
  savedStatePtr : Word
  cpu : SavedRegisters

/-- An interrupt runs the stub at its vector, and the stub passes on the vector it pushes. Only
`timer_isr` takes the stack pointer from its handler. -/
def deliver (image : Image) (syscall : Devices → Devices) (d : Devices) (i : Interrupt) :
    Option Outcome :=
  let isrHandler (vector : Nat) := (rustIsrHandler syscall d vector i).map fun r =>
    Outcome.mk r.1 i.savedStatePtr r.2
  match (init image i.vector).handler.bind image.stubAt with
  | none => none
  | some (.isr vector) => isrHandler vector
  | some .isr128 => isrHandler 128
  | some .timerIsr => (rustTimerHandler d i.savedStatePtr).map fun r => ⟨r.1, r.2, i.cpu⟩
  | some .spuriousIsr => some ⟨d, i.savedStatePtr, i.cpu⟩

end DeltaOS.Interrupts
