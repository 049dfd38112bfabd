import DeltaOS.ByteMemory
import DeltaOS.Kernel
import DeltaOS.Ranges
import DeltaOS.VgaTerminal

namespace DeltaOS.Syscalls

open ByteMemory Kernel Ranges Vga VgaTerminal

inductive SyscallNumber
  | read | write | open | close | seek | stat | mkdir | unlink | getdents
  | mount | umount
  | clone | exit | waitpid | getpid | yield
  | mmap | munmap
  | print | readline
  | sysinfo
deriving DecidableEq, Repr

def SyscallNumber.from (v : Word) : SyscallNumber :=
  match v.toNat with
  | 0 => .read
  | 1 => .write
  | 2 => .open
  | 3 => .close
  | 4 => .seek
  | 5 => .stat
  | 6 => .mkdir
  | 7 => .unlink
  | 8 => .getdents
  | 10 => .mount
  | 11 => .umount
  | 20 => .clone
  | 21 => .exit
  | 22 => .waitpid
  | 23 => .getpid
  | 24 => .yield
  | 30 => .mmap
  | 31 => .munmap
  | 100 => .print
  | 101 => .readline
  | 200 => .sysinfo
  | _ => .read

/-- What `isize::from` makes of an error. -/
def errno : KernelError → Int
  | .outOfMemory => -12
  | .invalidAddress => -14
  | .pageNotMapped => -2
  | .pageAlreadyMapped => -17
  | .invalidArgument => -22
  | .deviceNotFound => -19
  | .fileSystemNotFound => -19
  | .fileNotFound => -2
  | .ioError => -5
  | .moduleNotFound => -2
  | .accessDenied => -13
  | .generalFault => -1

/-- The screen, and what has been sent over the serial line. -/
structure Output where
  console : Console
  serial : List Byte

/-- `vga_print`, which ends with `serial_print`. -/
def Output.print (out : Output) (msg : List Byte) : Option Output := do
  let console ← vgaPrint out.console msg
  return ⟨console, out.serial ++ msg⟩

def slice (m : Memory) (buffer : Word) (count : Nat) : List Byte :=
  (List.range count).map fun i => m (buffer.toNat + i)

/-- The loop of `sys_write` and `sys_print`: one call of `vga_print_char` for each byte. -/
def printBytes (out : Output) (bytes : List Byte) : Option Output :=
  bytes.foldlM (fun out byte => out.print [byte]) out

/-- The result of a system call and the output after it; none where the call does not return. -/
abbrev Served := Option (KernelResult Word × Output)

section handlers

variable (mapped : Nat → Bool)

/-- A byte that is not mapped is loaded over and over again, since the handler of the fault returns to
the load. -/
def sysPrint (m : Memory) (out : Output) (buffer count : Word) : Served := do
  guard ((List.range count.toNat).all fun i => mapped (buffer.toNat + i))
  let out ← printBytes out (slice m buffer count.toNat)
  return (.ok count, out)

def sysWrite (m : Memory) (out : Output) (fd buffer count : Word) : Served :=
  if fd = 1 ∨ fd = 2 then sysPrint mapped m out buffer count else some (.error .ioError, out)

def sysExit : Served := none

def dispatch (m : Memory) (out : Output) (nr arg1 arg2 arg3 : Word) : Served :=
  match SyscallNumber.from nr with
  | .write => sysWrite mapped m out arg1 arg2 arg3
  | .print => sysPrint mapped m out arg1 arg2
  | .getpid => some (.ok 1, out)
  | .yield => some (.ok 0, out)
  | .close => some (.ok 0, out)
  | .munmap => some (.ok 0, out)
  | .exit => sysExit
  | _ => some (.error .ioError, out)

/-- The result as the caller sees it in `rax`. -/
def toWord : KernelResult Word → Word
  | .ok val => val
  | .error e => BitVec.ofInt 64 (errno e)

def rustSyscallHandler (m : Memory) (out : Output) (nr arg1 arg2 arg3 : Word) :
    Option (Word × Output) := do
  let r ← dispatch mapped m out nr arg1 arg2 arg3
  return (toWord r.1, r.2)

end handlers

def buffer (nr arg1 arg2 arg3 : Word) : Range :=
  match SyscallNumber.from nr with
  | .write => if arg1 = 1 ∨ arg1 = 2 then ⟨arg2.toNat, arg3.toNat⟩ else ⟨0, 0⟩
  | .print => ⟨arg1.toNat, arg2.toNat⟩
  | _ => ⟨0, 0⟩

def bytesIn (m : Memory) (r : Range) : List Byte := (List.range r.len).map fun i => m (r.base + i)

def printed (m : Memory) (nr arg1 arg2 arg3 : Word) : List Byte := bytesIn m (buffer nr arg1 arg2 arg3)

/-- What a system call returns, if it does. -/
def result (nr arg1 arg2 arg3 : Word) : Option (KernelResult Word) :=
  match SyscallNumber.from nr with
  | .write => some (if arg1 = 1 ∨ arg1 = 2 then .ok arg3 else .error .ioError)
  | .print => some (.ok arg2)
  | .getpid => some (.ok 1)
  | .yield | .close | .munmap => some (.ok 0)
  | .exit => none
  | _ => some (.error .ioError)

theorem printed_congr {m m' : Memory} {nr arg1 arg2 arg3 : Word}
    (h : ∀ a, (buffer nr arg1 arg2 arg3).Holds a → m a = m' a) :
    printed m nr arg1 arg2 arg3 = printed m' nr arg1 arg2 arg3 := by
  refine List.map_congr_left fun i hi => h _ ?_
  exact ⟨Nat.le_add_right _ _, Nat.add_lt_add_left (List.mem_range.mp hi) _⟩

variable {out : Output} {color : Byte} {mapped : Nat → Bool}

def Synced (color : Byte) (out : Output) : Prop := Follows color out.serial out.console

theorem Synced.print (h : Synced color out) (msg : List Byte) :
    ∃ out', out.print msg = some out' ∧ out'.serial = out.serial ++ msg ∧ Synced color out' := by
  obtain ⟨console, hrun, hnext⟩ := h.vgaPrint msg
  exact ⟨⟨console, out.serial ++ msg⟩, by rw [Output.print, hrun]; rfl, rfl, hnext⟩

theorem Synced.printBytes (h : Synced color out) (bytes : List Byte) :
    ∃ out', printBytes out bytes = some out' ∧ out'.serial = out.serial ++ bytes ∧
      Synced color out' := by
  induction bytes generalizing out with
  | nil => exact ⟨out, rfl, (List.append_nil _).symm, h⟩
  | cons byte bytes ih =>
    obtain ⟨out₁, hfirst, hserial₁, h₁⟩ := h.print [byte]
    obtain ⟨out', hrest, hserial, h'⟩ := ih h₁
    refine ⟨out', ?_, ?_, h'⟩
    · rw [Syscalls.printBytes, List.foldlM_cons, hfirst]
      exact hrest
    · rw [hserial, hserial₁, List.append_assoc]
      rfl

/-- The kernel can read a range. -/
def Readable (mapped : Nat → Bool) (r : Range) : Prop := ∀ a, r.Holds a → mapped a = true

theorem Synced.sysPrint (h : Synced color out) (m : Memory) {buffer count : Word}
    (hmapped : Readable mapped ⟨buffer.toNat, count.toNat⟩) :
    ∃ out', sysPrint mapped m out buffer count = some (.ok count, out') ∧
      out'.serial = out.serial ++ slice m buffer count.toNat ∧ Synced color out' := by
  obtain ⟨out', hrun, hserial, h'⟩ := h.printBytes (slice m buffer count.toNat)
  have hall : (List.range count.toNat).all (fun i => mapped (buffer.toNat + i)) = true := by
    rw [List.all_eq_true]
    exact fun i hi => hmapped _ ⟨Nat.le_add_right _ _, Nat.add_lt_add_left (List.mem_range.mp hi) _⟩
  exact ⟨out', by rw [Syscalls.sysPrint, hall, hrun]; rfl, hserial, h'⟩

theorem Synced.sysWrite (h : Synced color out) (m : Memory) {fd buffer count : Word}
    (hmapped : Readable mapped (if fd = 1 ∨ fd = 2 then ⟨buffer.toNat, count.toNat⟩ else ⟨0, 0⟩)) :
    ∃ out', sysWrite mapped m out fd buffer count =
        some (if fd = 1 ∨ fd = 2 then .ok count else .error .ioError, out') ∧
      out'.serial = out.serial ++ bytesIn m (if fd = 1 ∨ fd = 2 then ⟨buffer.toNat, count.toNat⟩
        else ⟨0, 0⟩) ∧
      Synced color out' := by
  rw [Syscalls.sysWrite]
  split_ifs at hmapped ⊢ with hfd
  · exact h.sysPrint m hmapped
  · exact ⟨out, rfl, (List.append_nil _).symm, h⟩

theorem Synced.served (h : Synced color out) (m : Memory) {nr arg1 arg2 arg3 : Word}
    {r : KernelResult Word}
    (hr : result nr arg1 arg2 arg3 = some r) (hmapped : Readable mapped (buffer nr arg1 arg2 arg3)) :
    ∃ out', rustSyscallHandler mapped m out nr arg1 arg2 arg3 = some (toWord r, out') ∧
      out'.serial = out.serial ++ printed m nr arg1 arg2 arg3 ∧ Synced color out' := by
  have hquiet : out.serial = out.serial ++ [] := (List.append_nil _).symm
  simp only [rustSyscallHandler, dispatch, printed, buffer, result] at hr hmapped ⊢
  cases hnr : SyscallNumber.from nr with
  | write =>
    simp only [hnr] at hr hmapped
    obtain rfl := Option.some.inj hr
    obtain ⟨out', hrun, hserial, h'⟩ := h.sysWrite m hmapped
    exact ⟨out', by simp only [hrun]; rfl, hserial, h'⟩
  | print =>
    simp only [hnr] at hr hmapped
    obtain rfl := Option.some.inj hr
    obtain ⟨out', hrun, hserial, h'⟩ := h.sysPrint m hmapped
    exact ⟨out', by simp only [hrun]; rfl, hserial, h'⟩
  | exit =>
    simp only [hnr] at hr
    cases hr
  | _ =>
    simp only [hnr] at hr
    obtain rfl := Option.some.inj hr
    exact ⟨out, rfl, hquiet, h⟩

theorem result_eq_none_iff (nr arg1 arg2 arg3 : Word) :
    result nr arg1 arg2 arg3 = none ↔ SyscallNumber.from nr = .exit := by
  rw [result]
  cases SyscallNumber.from nr <;> simp

end DeltaOS.Syscalls
