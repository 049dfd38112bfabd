import DeltaOS.CStringOps
import DeltaOS.PidText
import DeltaOS.Processes
import DeltaOS.Tokenizer

namespace DeltaOS.UserShell

open CStrings Processes Processes.Proc

abbrev Word := BitVec 64

/-- The system calls of the programs. A string or an array is given by what the kernel finds at the
pointer. -/
inductive Request
  | read (fd : Word) (size : Nat)
  | open (path : List Byte) (flags : Nat)
  | close (fd : Word)
  | mkdir (path : List Byte) (mode : Nat)
  | getdents (fd : Word) (size : Nat)
  | mount (device path fstype : List Byte)
  | exit (code : Nat)
  | getpid
  | print (bytes : List Byte)
  | readline (size : Nat)
deriving DecidableEq

def Request.room : Request → Nat
  | .read _ size | .getdents _ size | .readline size => size
  | _ => 0

/-- The result of a system call, and what the kernel has written to the array. -/
structure Answer where
  result : Word
  bytes : List Byte

structure Mem where
  gCwd : Buffer
  gInputLine : Buffer
  gRunning : Bool
  /-- what is in the array of `cmd_cat`, which is not initialized -/
  stack : Buffer

abbrev Program (α : Type) := Proc Request Answer Mem α

abbrev Ptr := Mem → Str

def gCwd : Ptr := fun m => ⟨512, m.gCwd, 0⟩

def gInputLine (i : Nat) : Ptr := fun m => ⟨1024, m.gInputLine, i⟩

def utf8 (s : String) : List Byte := s.toUTF8.data.toList.map UInt8.toBitVec

/-- A literal of the source. -/
def lit (s : String) : Ptr := fun _ => literal (utf8 s)

def string (p : Ptr) : Program (List Byte) :=
  eval fun m => do
    let len ← strlen (p m)
    (p m).take len

/-- A system call. A kernel that writes more than there is room for writes over other objects. -/
def syscall (r : Request) : Program Answer := do
  let a ← call r
  eval fun _ => if a.bytes.length ≤ r.room then some a else none

def print (str : Ptr) : Program Unit := do
  let bytes ← string str
  let _ ← syscall (.print bytes)

def newline : List Byte := [10]

def println (str : Ptr) : Program Unit := do
  print str
  let _ ← syscall (.print newline)

/-- One `println` after the other. -/
def printLines : List String → Program Unit
  | [] => pure ()
  | s :: lines => do
    println (lit s)
    printLines lines

/-- The tokens are given by where they start in `g_input_line`. -/
abbrev TokenList := List Nat

def tokenize : Program TokenList := do
  let r ← eval fun m => Tokenizer.tokenize 1024 m.gInputLine
  update fun m => some { m with gInputLine := r.2 }
  pure r.1

def sysOpen (path : Ptr) (flags : Nat) : Program Answer := do
  let path ← string path
  syscall (.open path flags)

def sysMkdir (path : Ptr) (mode : Nat) : Program Answer := do
  let path ← string path
  syscall (.mkdir path mode)

def sysMount (device path fstype : Ptr) : Program Answer := do
  let device ← string device
  let path ← string path
  let fstype ← string fstype
  syscall (.mount device path fstype)

/-- What `cmd_ls` prints for the result of `SYS_GETDENTS`. -/
def listing (bytes : Int) : String :=
  if bytes > 0 then "  (directory listing not yet implemented)"
  else if bytes = 0 then "  (empty directory)"
  else "ls: error reading directory"

/-- `args.count > 1 ? args.tokens[1] : g_cwd`. -/
def lsPath (args : TokenList) : Ptr :=
  match args[1]? with
  | some token => gInputLine token
  | none => gCwd

def cmdLs (args : TokenList) : Program Unit := do
  let path := lsPath args
  let fd ← sysOpen path 0
  if fd.result.toInt < 0 then
    print (lit "ls: cannot open '")
    print path
    println (lit "'")
  else
    let bytes ← syscall (.getdents fd.result 4096)
    println (lit (listing bytes.result.toInt))
    let _ ← syscall (.close fd.result)

/-- A round of the loop of `cmd_cat`, which keeps `buffer` from round to round. -/
def catRound (fd : Word) (buffer : Buffer) : Program (Option Buffer) := do
  let bytes ← syscall (.read fd 512)
  let buffer := overlay buffer bytes.bytes
  if bytes.result.toInt ≤ 0 then
    pure none
  else
    let chunk ← eval fun _ => Str.take ⟨512, buffer, 0⟩ bytes.result.toNat
    let _ ← syscall (.print chunk)
    pure (some buffer)

def cmdCat (args : TokenList) : Program Unit :=
  match args[1]? with
  | none => println (lit "cat: missing file operand")
  | some token => do
    let path := gInputLine token
    let fd ← sysOpen path 0
    if fd.result.toInt < 0 then
      print (lit "cat: ")
      print path
      println (lit ": No such file")
    else
      let buffer ← eval fun m => some m.stack
      loop (catRound fd.result) buffer
      let _ ← syscall (.close fd.result)

def setCwd (f : Mem → Option Buffer) (m : Mem) : Option Mem := do
  let cwd ← f m
  return { m with gCwd := cwd }

/-- What `cmd_cd` does to the memory for a path. -/
def changeDir (path : Ptr) (m : Mem) : Option Mem := do
  let first ← (path m).load 0
  if first = 47 then
    let len ← strlen (path m)
    if len < 512 then setCwd (fun m => strcpy (gCwd m) (path m)) m else some m
  else
    let len ← strlen (gCwd m)
    let len' ← strlen (path m)
    if len + len' + 2 < 512 then
      let d ← strcmp (gCwd m) (literal (utf8 "/"))
      let m ← if d ≠ 0 then setCwd (fun m => strcat (gCwd m) (literal (utf8 "/"))) m else some m
      setCwd (fun m => strcat (gCwd m) (path m)) m
    else
      some m

def cmdCd (args : TokenList) : Program Unit :=
  match args[1]? with
  | none => update (setCwd fun m => strcpy (gCwd m) (literal (utf8 "/")))
  | some token => update (changeDir (gInputLine token))

def cmdPwd : Program Unit := println gCwd

def cmdMkdir (args : TokenList) : Program Unit :=
  match args[1]? with
  | none => println (lit "mkdir: missing operand")
  | some token => do
    let result ← sysMkdir (gInputLine token) 0o755
    if result.result.toInt < 0 then
      print (lit "mkdir: cannot create '")
      print (gInputLine token)
      println (lit "'")
    else
      pure ()

/-- `cmd_mount` with enough arguments. -/
def mountArgs (device path fstype : Ptr) : Program Unit := do
  let result ← sysMount device path fstype
  if result.result.toInt < 0 then
    println (lit "mount: failed")
  else
    print (lit "mount: ")
    print device
    print (lit " mounted at ")
    println path

def cmdMount (args : TokenList) : Program Unit :=
  match args with
  | _ :: device :: path :: fstype :: _ =>
    mountArgs (gInputLine device) (gInputLine path) (gInputLine fstype)
  | _ => println (lit "mount: usage: mount <device> <path> <fstype>")

/-- The conversion of `cmd_sysinfo` for a result of the kernel, which may be negative. -/
def pidBuf (pid : Word) : Option Buffer :=
  if pid.toInt < 0 then some fun _ => 0 else PidText.sysinfoPid pid.toNat

def sysinfoLines : List String :=
  ["DeltaOS v0.1.0",
    "Kernel: Rust #![no_std] x86_64",
    "Filesystem: NTFS (delta_ntfs)",
    "Scheduler: Round-Robin with priorities",
    "Memory: PMM (bitmap) + VMM (4-level paging)",
    "Drivers: AHCI, NVMe, PS/2 Keyboard (C)",
    "Shell: C++17 freestanding"]

def cmdSysinfo : Program Unit := do
  printLines sysinfoLines
  let pid ← syscall .getpid
  print (lit "Current PID: ")
  let buf ← eval fun _ => pidBuf pid.result
  println fun _ => ⟨16, buf, 0⟩

def helpLines : List String :=
  ["DeltaOS Shell — Available commands:",
    "  ls [path]        - List directory contents",
    "  cat <file>       - Display file contents",
    "  cd <path>        - Change directory",
    "  pwd              - Print working directory",
    "  mkdir <dir>      - Create directory",
    "  mount <dev> <path> <fstype> - Mount filesystem",
    "  sysinfo          - Show system information",
    "  help             - Show this help",
    "  exit             - Exit shell"]

def cmdHelp : Program Unit := printLines helpLines

def cmdExit : Program Unit := do
  println (lit "Goodbye!")
  update fun m => some { m with gRunning := false }

def cmdUnknown (cmd : Ptr) : Program Unit := do
  print (lit "shell: unknown command: ")
  println cmd

def showPrompt : Program Unit := do
  print (lit "deltaos:")
  print gCwd
  print (lit "$ ")

/-- What `read_line` does to the line that the kernel has written. -/
def endLine (bytes : Word) (m : Mem) : Option Mem :=
  if bytes.toInt < 0 then do
    let line ← store 1024 m.gInputLine 0 0
    return { m with gInputLine := line }
  else do
    let len ← strlen (gInputLine 0 m)
    if len > 0 then
      let c ← load 1024 m.gInputLine (len - 1)
      if c = 10 then
        let line ← store 1024 m.gInputLine (len - 1) 0
        return { m with gInputLine := line }
      else
        return m
    else
      return m

def readLine : Program Unit := do
  let bytes ← syscall (.readline 1024)
  update fun m => some { m with gInputLine := overlay m.gInputLine bytes.bytes }
  update (endLine bytes.result)

/-- The commands in the order in which `execute_command` compares their names. -/
def commands : List (String × (TokenList → Program Unit)) :=
  [("ls", cmdLs), ("cat", cmdCat), ("cd", cmdCd), ("pwd", fun _ => cmdPwd), ("mkdir", cmdMkdir),
    ("mount", cmdMount),
    ("sysinfo", fun _ => cmdSysinfo), ("help", fun _ => cmdHelp), ("exit", fun _ => cmdExit)]

def select (cmd : Nat) (args : TokenList) : List (String × (TokenList → Program Unit)) → Program Unit
  | [] => cmdUnknown (gInputLine cmd)
  | (name, run) :: rest => do
    let d ← eval fun m => strcmp (gInputLine cmd m) (literal (utf8 name))
    if d = 0 then run args else select cmd args rest

def executeCommand (args : TokenList) : Program Unit :=
  match args with
  | [] => pure ()
  | cmd :: _ => select cmd args commands

def banner : List String := ["", "DeltaOS Shell v0.1.0", "Type 'help' for available commands.", ""]

/-- A round of the loop of `shell_main`. -/
def shellRound : Program Unit := do
  showPrompt
  readLine
  let args ← tokenize
  executeCommand args

def shellMain : Program Unit := do
  printLines banner
  whileLoop (·.gRunning) shellRound

/-- `init_main` after the first `SYS_MOUNT`. -/
def rootMounted (result : Int) : Program Unit :=
  if result < 0 then do
    println (lit "[init] WARNING: NTFS mount failed, using ramfs")
    let _ ← sysMount (lit "none") (lit "/") (lit "ramfs")
  else
    println (lit "[init] NTFS mounted at /")

def makeDirs : List (String × Nat) → Program Unit
  | [] => pure ()
  | (path, mode) :: rest => do
    let _ ← sysMkdir (lit path) mode
    makeDirs rest

def initLines : List String :=
  ["==========================================",
    "  DeltaOS Init v0.1.0",
    "  First userspace process",
    "==========================================",
    ""]

def baseDirs : List (String × Nat) :=
  [("/dev", 0o755), ("/tmp", 0o777), ("/proc", 0o555), ("/mnt", 0o755), ("/etc", 0o755),
    ("/home", 0o755)]

def initMain : Program Unit := do
  printLines initLines
  print (lit "[init] PID: ")
  let pid ← syscall .getpid
  let pidStr ← eval fun _ => PidText.initPid pid.result.toNat
  println fun _ => ⟨16, pidStr, 0⟩
  println (lit "[init] Mounting NTFS root filesystem...")
  let mountResult ← sysMount (lit "/dev/sda1") (lit "/") (lit "ntfs")
  rootMounted mountResult.result.toInt
  println (lit "[init] Creating base directories...")
  makeDirs baseDirs
  println (lit "[init] Base directories created")
  let _ ← sysMount (lit "none") (lit "/dev") (lit "devfs")
  let _ ← sysMount (lit "none") (lit "/proc") (lit "procfs")
  println (lit "[init] Virtual filesystems mounted")
  println (lit "[init] Starting shell...")
  shellMain
  println (lit "[init] Shell exited, restarting...")
  forever do
    shellMain
    println (lit "[init] Shell crashed, respawning...")

/-- `_start`. What comes behind `SYS_EXIT` is unreachable. -/
def start : Program Unit := do
  initMain
  let _ ← syscall (.exit 0)
  eval fun _ => none

def Mem.initial (stack : Buffer) : Mem := ⟨overlay (fun _ => 0) (utf8 "/"), fun _ => 0, true, stack⟩

end DeltaOS.UserShell
