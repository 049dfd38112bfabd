import DeltaOS.InterruptDispatch
import DeltaOS.NumberParsing
import DeltaOS.ShellLine

namespace DeltaOS.KernelShell

open Kernel Overflow NumberParsing Tasks Sched Vga ShellLine Keyboard Interrupts

abbrev Text := List Byte

structure PmmCounts where
  totalPages : Nat
  freePageCount : Nat
  le : freePageCount ≤ totalPages
  fits : totalPages * pageSize < usizeRange

/-- What the commands read besides the state that they share with the interrupt handlers: the answers
of the hardware, and what `kernel_main` left in the other statics. Where nothing is mapped there is no
byte to read: the handler of the fault prints and goes back to the load, for ever. -/
structure Hardware where
  cmos : Byte → Byte
  memory : Word → Option Byte
  port : BitVec 16 → Byte
  cr0 : Word
  cr2 : Word
  cr3 : Word
  cr4 : Word
  lapicId : Nat
  apicInitialized : Bool
  usingApic : Bool
  pmm : Option PmmCounts
  vmm : Bool

/-- Where the linker put the functions that `run` starts, and `_kernel_end`. -/
structure Entries where
  demoTask : Word
  counterTask : Word
  idleTestTask : Word
  kernelEnd : Nat

/-- What a command does to the machine, apart from what it prints. -/
inductive Access
  | readByte (addr : Word)
  | inb (port : BitVec 16)
  | outb (port : BitVec 16) (value : Byte)
  | readCr
  | readLapic
deriving DecidableEq

/-- `DEV_MODE`, the statics of the interrupt handlers, and all that the commands have done to the
machine. -/
structure Status where
  devMode : Bool
  devices : Devices
  accesses : List Access

/-- The screen, and the bytes that went to the serial port, which takes every one in the end. -/
structure Kernel where
  console : Console
  serial : Text
  status : Status

abbrev Cmd (α : Type) := StateT Kernel Option α

section output

def decimal (n : Nat) : Text := ascii (toString n)

def hexDigits (n : Nat) : Text := (Nat.toDigits 16 n).map fun ch => BitVec.ofNat 8 ch.toUpper.toNat

/-- `{:#X}`. -/
def hex (n : Nat) : Text := ascii "0x" ++ hexDigits n

/-- `{:02}`. -/
def twoDigits (n : Nat) : Text := (decimal n).leftpad 2 (BitVec.ofNat 8 '0'.toNat)

def onOff (b : Bool) : Text := if b then ascii "ON" else ascii "OFF"

/-- `vga_print` ends with `serial_print`. -/
def kprint (text : Text) : Cmd Unit := fun k => do
  let console ← vgaPrint k.console text
  return ((), { k with console, serial := k.serial ++ text })

def kprintln (text : Text) : Cmd Unit := kprint (text ++ [newline])

def kprintLines : List Text → Cmd Unit
  | [] => pure ()
  | text :: lines => do
    kprintln text
    kprintLines lines

def setColor (fg bg : Byte) : Cmd Unit :=
  fun k => some ((), { k with console := vgaSetColor k.console fg bg })

def clearScreen : Cmd Unit := fun k => do
  let console ← vgaClear k.console
  return ((), { k with console })

end output

section hardware

def getStatus : Cmd Status := fun k => some (k.status, k)

def setStatus (status : Status) : Cmd Unit := fun k => some ((), { k with status })

/-- No result where the arithmetic panics or a load never comes to an end. -/
def checked {α : Type} (r : Option α) : Cmd α := fun k => r.map fun a => (a, k)

def access (a : Access) : Cmd Unit := do
  let s ← getStatus
  setStatus { s with accesses := s.accesses ++ [a] }

def setScheduler (s : Scheduler) : Cmd Unit := do
  let status ← getStatus
  setStatus { status with devices := { status.devices with scheduler := some s } }

variable (hw : Hardware)

def readCmos (reg : Byte) : Cmd Byte := do
  access (.outb 0x70 reg)
  access (.inb 0x71)
  return hw.cmos reg

def bcdToBinary (val : Byte) : Nat := (val &&& 0x0F).toNat + (val >>> 4).toNat * 10

/-- `LocalApic::id`. -/
def lapicId : Cmd Nat := do
  access .readLapic
  return hw.lapicId

end hardware

section system

variable (hw : Hardware) (entries : Entries)

def infoLines : List Text :=
  ["========================================",
    "  DeltaOS v0.2.0",
    "  64-bit Rust Operating System",
    "========================================",
    "  Architecture:   x86_64 (long mode)",
    "  Kernel:         Rust #![no_std]",
    "  Bootloader:     NASM (multiboot2)",
    "  Memory Manager: PMM (bitmap) + VMM (4-level paging)",
    "  Heap:           Slab allocator (10 classes)",
    "  Scheduler:      Round-Robin + priorities + preemptive",
    "  VFS:            Trait-oriented (NTFS + ramfs)",
    "  Drivers:        AHCI, NVMe, PS/2 Keyboard (C)",
    "  Shell:          Kernel-space CLI",
    "  Timer:          PIT + HPET + LAPIC Timer",
    "  Interrupts:     PIC/APIC with preemptive scheduling"].map ascii

def pmmInfo (pmm : PmmCounts) : List Text :=
  [ascii "  PMM free:       " ++ decimal pmm.freePageCount ++ ascii " pages (" ++
      decimal (pmm.freePageCount * pageSize / 1024) ++ ascii " KB)",
    ascii "  PMM total:      " ++ decimal pmm.totalPages ++ ascii " pages (" ++
      decimal (pmm.totalPages * 4096 / 1024 / 1024) ++ ascii " MB)"]

def schedulerInfo (stats : SchedulerStats) : List Text :=
  [ascii "  Preemption:     " ++ onOff stats.preemptionEnabled,
    ascii "  Tasks:          " ++ decimal stats.totalTasks ++ ascii " total, " ++
      decimal stats.readyTasks ++
      ascii " ready",
    ascii "  Context sw:     " ++ decimal stats.contextSwitches]

def apicInfo : Cmd Unit :=
  if hw.apicInitialized then do
    let id ← lapicId hw
    kprintln (ascii "  APIC:           Local APIC active (ID: " ++ decimal id ++ ascii ")")
  else kprintln (ascii "  APIC:           Legacy PIC mode")

def uptimeSec (timer : Timer) : Word := timer.uptimeMs / 1000

def cmdInfo : Cmd Unit := do
  kprintLines infoLines
  kprintLines (hw.pmm.elim [] pmmInfo)
  let status ← getStatus
  kprintln (ascii "  Dev mode:       " ++ onOff status.devMode)
  apicInfo hw
  kprintLines (status.devices.scheduler.elim [] fun s => schedulerInfo s.stats)
  kprintln (ascii "  Uptime:         " ++ decimal (uptimeSec status.devices.timer).toNat ++ ascii " sec")
  kprintln (ascii "========================================")

def cmdTime : Cmd Unit := do
  let seconds ← readCmos hw 0x00
  let minutes ← readCmos hw 0x02
  let hours ← readCmos hw 0x04
  let day ← readCmos hw 0x07
  let month ← readCmos hw 0x08
  let year ← readCmos hw 0x09
  let shown (val : Byte) := twoDigits (bcdToBinary val)
  kprintln (ascii "RTC: 20" ++ shown year ++ ascii "-" ++ shown month ++ ascii "-" ++
    shown day ++ ascii " " ++ shown hours ++ ascii ":" ++ shown minutes ++ ascii ":" ++ shown seconds)
  let status ← getStatus
  kprintln (ascii "Uptime: " ++ decimal status.devices.timer.uptimeMs.toNat ++ ascii " ms (" ++
    decimal status.devices.timer.tickCount.toNat ++ ascii " ticks)")

def devLines : List Text :=
  ["[DEV] Developer mode ON", "[DEV] Access: root",
    "[DEV] Features: memory dump, register view, direct I/O"].map ascii

def devPmm (pmm : PmmCounts) : List Text :=
  [ascii "[DEV] PMM: " ++ decimal pmm.freePageCount ++ ascii " free / " ++ decimal pmm.totalPages ++
    ascii " total pages", ascii "[DEV] PMM bitmap at: " ++ hex pmmBitmapBase]

def cmdDev : Cmd Unit := do
  let status ← getStatus
  setStatus { status with devMode := !status.devMode }
  if !status.devMode then
    setColor 0x0A 0x00
    kprintLines devLines
    kprintLines (hw.pmm.elim [] devPmm)
    kprintLines (if hw.vmm then [ascii "[DEV] VMM: PML4 at CR3"] else [])
    kprintln (ascii "[DEV] Heap: " ++ hex heapBase ++ ascii "-" ++ hex (heapBase + heapSize))
    kprintln (ascii "[DEV] Kernel end: " ++ hex entries.kernelEnd)
  else
    setColor 0x0F 0x00
    kprintln (ascii "[DEV] Developer mode OFF")

def helpLines : List Text :=
  ["DeltaOS Shell v0.2.0 - Available commands:",
    "  info          - Show system information",
    "  time          - Show RTC time and uptime",
    "  dev           - Toggle developer mode",
    "  clear         - Clear screen",
    "  help          - Show this help",
    "  reboot        - Reboot system",
    "",
    "  Process Management:",
    "  ps            - List all processes",
    "  kill <id>     - Kill a process (SIGKILL)",
    "  run <name>    - Run a kernel task",
    "  bg <id>       - Resume stopped process in background",
    "  fg <id>       - Bring process to foreground",
    "  sched         - Show scheduler statistics"].map ascii

def devHelpLines : List Text :=
  ["",
    "[DEV] Developer commands:",
    "  mem <addr>    - Dump memory at address",
    "  regs          - Show CPU registers (CR0-CR4)",
    "  io <in|out> <port> [val] - I/O port access",
    "  pmm           - PMM status",
    "  apic          - APIC status",
    "  dev           - Turn off developer mode"].map ascii

def cmdHelp : Cmd Unit := do
  kprintLines helpLines
  let status ← getStatus
  if status.devMode then do
    setColor 0x0A 0x00
    kprintLines devHelpLines
    setColor 0x0F 0x00
  else pure ()

def cmdClear : Cmd Unit := clearScreen

def cmdReboot : Cmd Unit := access (.outb 0x64 0xFE)

end system

section developer

variable (profile : Profile) (hw : Hardware)

def str (word : Text) : Str := word.map fun byte => Char.ofNat byte.toNat

def dumpRow (addr i : Nat) : Cmd Unit :=
  if i % 16 = 0 then do
    let shown ← checked (add profile addr i)
    kprint ([newline] ++ ascii "  " ++ hex shown ++ ascii ": ")
  else pure ()

/-- A round of the loop of `cmd_dev_mem`. The pointer wraps where the sum that is printed panics. -/
def dumpByte (addr i : Nat) : Cmd Unit := do
  dumpRow profile addr i
  access (.readByte (BitVec.ofNat 64 (addr + i)))
  let val ← checked (hw.memory (BitVec.ofNat 64 (addr + i)))
  kprint ((hexDigits val.toNat).leftpad 2 (BitVec.ofNat 8 '0'.toNat) ++ [space])

def dump (addr : Nat) : List Nat → Cmd Unit
  | [] => pure ()
  | i :: rest => do
    dumpByte profile hw addr i
    dump addr rest

/-- The arguments start behind the name of the command, and the first of them is not looked at. -/
def cmdDevMem : List Text → Cmd Unit
  | _ :: word :: _ => do
    let addr ← checked (parseHex profile (str word))
    if addr = 0 then kprintln (ascii "Invalid address")
    else
      kprintln (ascii "Memory at " ++ hex addr ++ ascii ":")
      dump profile hw addr (List.range 64)
      kprintln []
  | _ => kprintln (ascii "Usage: mem <address>")

def cmdDevRegs : Cmd Unit := do
  access .readCr
  kprintLines [ascii "CR0: " ++ hex hw.cr0.toNat, ascii "CR2: " ++ hex hw.cr2.toNat, ascii "CR3: " ++
    hex hw.cr3.toNat, ascii "CR4: " ++ hex hw.cr4.toNat]

def ioOut (port : Nat) : List Text → Cmd Unit
  | word :: _ => do
    let val ← checked (parseHex profile (str word))
    access (.outb (BitVec.ofNat 16 port) (BitVec.ofNat 8 val))
    kprintln (ascii "OUT " ++ hex port ++ ascii " <- " ++ hex val)
  | [] => kprintln (ascii "Usage: io out <port> <value>")

/-- The first argument is not looked at here either. -/
def cmdDevIo : List Text → Cmd Unit
  | _ :: direction :: word :: rest => do
    let port ← checked (parseHex profile (str word))
    if port = 0 ∧ word ≠ ascii "0" ∧ word ≠ ascii "0x0" then kprintln (ascii "Invalid port")
    else if direction = ascii "in" then
      access (.inb (BitVec.ofNat 16 port))
      kprintln (ascii "IN " ++ hex port ++ ascii ": " ++ hex (hw.port (BitVec.ofNat 16 port)).toNat)
    else if direction = ascii "out" then ioOut profile port rest
    else pure ()
  | _ => kprintln (ascii "Usage: io <in|out> <port> [value]")

def pmmStatus (pmm : PmmCounts) : List Text :=
  let used := pmm.totalPages - pmm.freePageCount
  [ascii "PMM Status:",
    ascii "  Total pages:   " ++ decimal pmm.totalPages,
    ascii "  Free pages:    " ++ decimal pmm.freePageCount,
    ascii "  Used pages:    " ++ decimal used,
    ascii "  Free memory:   " ++ decimal (pmm.freePageCount * pageSize / 1024) ++ ascii " KB",
    ascii "  Used memory:   " ++ decimal (used * pageSize / 1024) ++ ascii " KB"]

def cmdDevPmm : Cmd Unit := kprintLines (hw.pmm.elim [ascii "PMM not initialized"] pmmStatus)

def cmdDevApic : Cmd Unit :=
  if hw.apicInitialized then do
    kprintln (ascii "APIC Status:")
    let id ← lapicId hw
    kprintln (ascii "  Local APIC:   ACTIVE (ID: " ++ decimal id ++ ascii ")")
    kprintln (ascii "  Using APIC:   " ++ ascii (toString hw.usingApic))
  else kprintLines (["APIC Status:", "  Local APIC:   NOT AVAILABLE",
    "  Using:        Legacy PIC"].map ascii)

end developer

section processes

def stateStr : TaskState → String
  | .ready => "READY"
  | .running => "RUNNING"
  | .blocked => "BLOCKED"
  | .terminated => "TERM"
  | .zombie => "ZOMBIE"

def priorityStr : TaskPriority → String
  | .low => "LOW"
  | .normal => "NORM"
  | .high => "HIGH"
  | .realTime => "RT"

def typeStr : TaskType → String
  | .kernel => "K"
  | .user => "U"

def fgStr : TaskForeground → String
  | .foreground => "FG"
  | .background => "BG"
  | .stopped => "STP"

def errorStr : KernelError → String
  | .outOfMemory => "OutOfMemory"
  | .invalidAddress => "InvalidAddress"
  | .pageNotMapped => "PageNotMapped"
  | .pageAlreadyMapped => "PageAlreadyMapped"
  | .invalidArgument => "InvalidArgument"
  | .deviceNotFound => "DeviceNotFound"
  | .fileSystemNotFound => "FileSystemNotFound"
  | .fileNotFound => "FileNotFound"
  | .ioError => "IoError"
  | .moduleNotFound => "ModuleNotFound"
  | .accessDenied => "AccessDenied"
  | .generalFault => "GeneralFault"

def column (width : Nat) (s : String) : Text := (ascii s).rightpad width space

def taskLine (info : TaskInfo) : Text :=
  ascii "  " ++ (decimal info.id).leftpad 3 space ++ ascii "  " ++ column 16 info.name ++ [space] ++
    column 6 (stateStr info.state) ++ [space] ++ column 4 (priorityStr info.priority) ++ [space] ++
    column 4 (typeStr info.taskType) ++ ascii "  " ++ column 3 (fgStr info.foreground) ++ [space] ++
      decimal info.cpuTicks.toNat

def psLines (tasks : List TaskInfo) : List Text :=
  if tasks.isEmpty then [ascii "No tasks"]
  else [ascii "  PID  NAME             STATE  PRI  TYPE  FG  CPU_T",
    ascii "  ---  ----             -----  ---  ----  --  -----"] ++
    tasks.map taskLine ++ [ascii "  Total: " ++ decimal tasks.length ++ ascii " tasks"]

def noScheduler : Text := ascii "Scheduler not initialized"

def cmdPs : Cmd Unit := do
  let status ← getStatus
  kprintLines (status.devices.scheduler.elim [noScheduler] fun s => psLines s.listTasks)

def schedLines (timer : Timer) (stats : SchedulerStats) : List Text :=
  [ascii "Scheduler Statistics:",
    ascii "  Total tasks:       " ++ decimal stats.totalTasks,
    ascii "  Ready tasks:       " ++ decimal stats.readyTasks,
    ascii "  Tick count:        " ++ decimal stats.tickCount,
    ascii "  Context switches:  " ++ decimal stats.contextSwitches,
    ascii "  Preemption:        " ++ ascii (if stats.preemptionEnabled then "ENABLED" else "DISABLED"),
    ascii "  Current task:      " ++ ascii stats.currentTask,
    ascii "  Timer frequency:   " ++ decimal timer.timerHz.toNat ++ ascii " Hz",
    ascii "  Uptime:            " ++ decimal (uptimeSec timer).toNat ++ ascii " sec (" ++
      decimal timer.tickCount.toNat ++
      ascii " ticks)"]

def cmdSched : Cmd Unit := do
  let status ← getStatus
  kprintLines (status.devices.scheduler.elim [noScheduler] fun s =>
    schedLines status.devices.timer s.stats)

/-- What is printed for the result of an operation on a process. -/
def outcome (done notFound : Text) (denied : Option Text) : KernelResult Unit → Text
  | .ok () => done
  | .error .invalidArgument => notFound
  | .error .accessDenied => denied.getD (ascii "Error: AccessDenied")
  | .error e => ascii "Error: " ++ ascii (errorStr e)

/-- `if let Some(ref mut scheduler) = KERNEL_SCHEDULER`. -/
def withScheduler (body : Status → Scheduler → Cmd Unit) (absent : Cmd Unit) : Cmd Unit := do
  let status ← getStatus
  status.devices.scheduler.elim absent (body status)

/-- An operation of the scheduler on a process, and a line about its result. -/
def onProcess (op : Scheduler → Scheduler × KernelResult Unit) (text : KernelResult Unit → Text) :
    Cmd Unit :=
  withScheduler (fun _ s => do
    setScheduler (op s).1
    kprintln (text (op s).2)) (pure ())

variable (profile : Profile) (entries : Entries)

def cmdKill : List Text → Cmd Unit
  | word :: _ => do
    let pid ← checked (parseInt profile (str word))
    if pid = 0 then kprintln (ascii "Invalid PID")
    else onProcess (·.terminateTask pid (-9)) (outcome (ascii "Killed process " ++ decimal pid)
      (ascii "Process " ++ decimal pid ++ ascii " not found")
        (some (ascii "Cannot kill system process " ++ decimal pid)))
  | [] => kprintln (ascii "Usage: kill <pid>")

def availableTasks : Text := ascii "Available: demo, counter, idle_test"

/-- The functions that `run` knows. -/
def taskEntry (name : Text) : Option (Word × String) :=
  if name = ascii "demo" then some (entries.demoTask, "demo")
  else if name = ascii "counter" then some (entries.counterTask, "counter")
  else if name = ascii "idle_test" then some (entries.idleTestTask, "idle_test")
  else none

def startTask (entry : Word) (name : String) : Cmd Unit :=
  withScheduler (fun status s => do
    let started := s.createKernelTask entry name status.devices.timer.tickCount.toNat
    setScheduler started.1
    kprintln (ascii "Started task '" ++ ascii name ++ ascii "' with PID " ++ decimal started.2))
      (kprintln noScheduler)

def cmdRun : List Text → Cmd Unit
  | name :: _ =>
    match taskEntry entries name with
    | some (entry, name) => startTask entry name
    | none => kprintLines [ascii "Unknown task: " ++ name, availableTasks]
  | [] => kprintLines [ascii "Usage: run <name>", availableTasks]

def cmdBg : List Text → Cmd Unit
  | word :: _ => do
    let pid ← checked (parseInt profile (str word))
    onProcess (·.backgroundTask pid)
      (outcome (ascii "Process " ++ decimal pid ++ ascii " resumed in background")
      (ascii "Process " ++ decimal pid ++ ascii " not found or not stopped") none)
  | [] => kprintln (ascii "Usage: bg <pid>")

def cmdFg : List Text → Cmd Unit
  | word :: _ => do
    let pid ← checked (parseInt profile (str word))
    onProcess (·.foregroundTask pid)
      (outcome (ascii "Process " ++ decimal pid ++ ascii " brought to foreground")
      (ascii "Process " ++ decimal pid ++ ascii " not found or already foreground") none)
  | [] => kprintln (ascii "Usage: fg <pid>")

end processes

section shell

variable (profile : Profile) (entries : Entries) (hw : Hardware)

def unknownCommand (cmd : Text) : Cmd Unit := kprintln (ascii "Unknown command: " ++ cmd)

def devOnly (cmd : Text) (body : Cmd Unit) : Cmd Unit := do
  let status ← getStatus
  if status.devMode then body else unknownCommand cmd

/-- The arms of the `match` in `execute_command`. -/
def commands : List (String × (List Text → Cmd Unit)) :=
  [("info", fun _ => cmdInfo hw),
    ("time", fun _ => cmdTime hw),
    ("dev", fun _ => cmdDev hw entries),
    ("help", fun _ => cmdHelp),
    ("clear", fun _ => cmdClear),
    ("reboot", fun _ => cmdReboot),
    ("ps", fun _ => cmdPs),
    ("kill", cmdKill profile),
    ("run", cmdRun entries),
    ("bg", cmdBg profile),
    ("fg", cmdFg profile),
    ("sched", fun _ => cmdSched),
    ("mem", fun args => devOnly (ascii "mem") (cmdDevMem profile hw args)),
    ("regs", fun _ => devOnly (ascii "regs") (cmdDevRegs hw)),
    ("io", fun args => devOnly (ascii "io") (cmdDevIo profile hw args)),
    ("pmm", fun _ => devOnly (ascii "pmm") (cmdDevPmm hw)),
    ("apic", fun _ => devOnly (ascii "apic") (cmdDevApic hw))]

def select (cmd : Text) (args : List Text) : List (String × (List Text → Cmd Unit)) → Cmd Unit
  | [] => unknownCommand cmd
  | (name, body) :: rest => if cmd = ascii name then body args else select cmd args rest

def trim (input : Text) : Text := ((input.dropWhile (· = space)).reverse.dropWhile (· = space)).reverse

/-- `input.split(' ').filter(|s| !s.is_empty())`. -/
def parts (input : Text) : List Text := (input.splitOn space).filter (!·.isEmpty)

def executeCommand (input : Text) : Cmd Unit :=
  let input := trim input
  if input.isEmpty then pure ()
  else
    match parts input with
    | [] => pure ()
    | cmd :: args => select cmd args (commands profile entries hw)

/-- The kernel with the line that is being typed. -/
structure Terminal where
  kernel : Kernel
  inputBuf : Vector Byte 256
  inputPos : Nat

def Terminal.shell (t : Terminal) : Shell := ⟨t.inputBuf, t.inputPos, t.kernel.console⟩

def nextLine (kernel : Kernel) (buf : Vector Byte 256) : Option Terminal := do
  let s ← beginLine kernel.status.devMode buf kernel.console
  return ⟨{ kernel with console := s.console, serial := kernel.serial ++ prompt },
    s.inputBuf, s.inputPos⟩

def echo (inputPos : Nat) (ch : Byte) : Text :=
  if ch = backspace then if inputPos > 0 then [backspace, space, backspace] else []
  else if ch.toNat ≥ 32 ∧ inputPos < 255 then [ch]
  else []

/-- What the shell does with a character from the keyboard. -/
def input (t : Terminal) (ch : Byte) : Option Terminal :=
  if ch = newline then do
    let (line, console) ← enter t.shell
    let inputBuf ← store t.inputBuf t.inputPos 0
    let serial := t.kernel.serial ++ [newline]
    let ((), kernel) ← executeCommand profile entries hw line { t.kernel with console, serial }
    nextLine kernel inputBuf
  else do
    let s ← keystroke t.shell ch
    let serial := t.kernel.serial ++ echo t.inputPos ch
    return ⟨{ t.kernel with console := s.console, serial }, s.inputBuf, s.inputPos⟩

/-- The body of the inner loop, behind `hlt`. -/
def poll (t : Terminal) : Option Terminal :=
  let devices := t.kernel.status.devices
  if keyboardHasData devices.keyboard then
    let (ch, keyboard) := keyboardReadChar devices.keyboard
    let status := { t.kernel.status with devices := { devices with keyboard } }
    input profile entries hw { t with kernel := { t.kernel with status } } ch
  else some t

def banner : List Text := ["", "DeltaOS Shell v0.2.0",
    "Type 'help' for available commands.", ""].map ascii

/-- `shell` up to its first look at the keyboard. -/
def shellStart (kernel : Kernel) : Option Terminal := do
  let ((), kernel) ← kprintLines banner kernel
  nextLine kernel (Vector.replicate 256 0)

end shell

end DeltaOS.KernelShell
