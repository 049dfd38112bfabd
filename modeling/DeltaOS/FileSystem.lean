import DeltaOS.ByteSlices
import DeltaOS.Kernel
import DeltaOS.Overflow

namespace DeltaOS.FileSystem

open ByteSlices Kernel Overflow

/-- An `i64`. -/
abbrev FileOffset := BitVec 64

abbrev Path := List Char

abbrev OpenFlags := BitVec 32

namespace OpenFlags

def readOnly : OpenFlags := 0x01
def writeOnly : OpenFlags := 0x02
def readWrite : OpenFlags := 0x03

def contains (flags other : OpenFlags) : Bool := flags &&& other == other

def readable (flags : OpenFlags) : Bool := contains flags readOnly || contains flags readWrite

def writable (flags : OpenFlags) : Bool := contains flags writeOnly || contains flags readWrite

end OpenFlags

/-- The code behind `dyn FileSystem` and `dyn Inode`. A call that panics gives `none`. -/
structure Driver (φ ι : Type) where
  rootInode : φ → ι
  lookup : ι → Path → KernelResult ι
  read : ι → FileOffset → List Byte → Option (KernelResult Nat × List Byte × ι)
  write : ι → FileOffset → List Byte → Option (KernelResult Nat × ι)

structure FileDescriptor (ι : Type) where
  inode : ι
  flags : OpenFlags
  offset : FileOffset
deriving DecidableEq

variable {φ ι : Type}

namespace FileDescriptor

def new (inode : ι) (flags : OpenFlags) : FileDescriptor ι := ⟨inode, flags, 0⟩

/-- The end of `read` and `write`: after a call that succeeds the offset moves by the bytes it gives. -/
def advance (profile : Profile) (file : FileDescriptor ι) (inode : ι) :
    KernelResult Nat → Option (KernelResult Nat × FileDescriptor ι)
  | .error e => some (.error e, { file with inode })
  | .ok bytes => do
    let offset ← addSigned profile file.offset (BitVec.ofNat 64 bytes)
    some (.ok bytes, { file with inode, offset })

def read (profile : Profile) (driver : Driver φ ι) (file : FileDescriptor ι) (buffer : List Byte) :
    Option (KernelResult Nat × List Byte × FileDescriptor ι) :=
  if file.flags.readable then do
    let (result, buffer, inode) ← driver.read file.inode file.offset buffer
    let (result, file) ← file.advance profile inode result
    some (result, buffer, file)
  else some (.error .accessDenied, buffer, file)

def write (profile : Profile) (driver : Driver φ ι) (file : FileDescriptor ι) (data : List Byte) :
    Option (KernelResult Nat × FileDescriptor ι) :=
  if file.flags.writable then do
    let (result, inode) ← driver.write file.inode file.offset data
    file.advance profile inode result
  else some (.error .accessDenied, file)

def seek (file : FileDescriptor ι) (offset : FileOffset) : KernelResult FileOffset × FileDescriptor ι :=
  (.ok offset, { file with offset })

def position (file : FileDescriptor ι) : FileOffset := file.offset

end FileDescriptor

/-- The `Vfs` of the source: the file systems by mount path, and the open files by number. -/
structure Vfs (φ ι : Type) where
  mountPoints : AList fun _ : Path => φ
  nextFd : Nat
  openFiles : Nat → Option (FileDescriptor ι)

/-- The key the loop of `resolve_mount_point` has kept so far, against the next one. -/
def better (path best mountPath : Path) : Path :=
  if mountPath <+: path ∧ mountPath.length > best.length then mountPath else best

/-- The names that `split('/')` gives, without the empty ones. -/
def components (path : Path) : List Path := (path.splitOn '/').filter (· ≠ [])

def traversePath (driver : Driver φ ι) (root : ι) (path : Path) : KernelResult ι :=
  if path = [] ∨ path = ['/'] then .ok root else (components path).foldlM driver.lookup root

namespace Vfs

def new : Vfs φ ι where
  mountPoints := ∅
  nextFd := 3
  openFiles := fun _ => none

def mount (s : Vfs φ ι) (path : Path) (fs : φ) : KernelResult Unit × Vfs φ ι :=
  if path ∈ s.mountPoints then (.error .pageAlreadyMapped, s)
  else (.ok (), { s with mountPoints := s.mountPoints.insert path fs })

def unmount (s : Vfs φ ι) (path : Path) : KernelResult Unit × Vfs φ ι :=
  if path ∈ s.mountPoints then (.ok (), { s with mountPoints := s.mountPoints.erase path })
  else (.error .fileSystemNotFound, s)

def resolveMountPoint (s : Vfs φ ι) (path : Path) : KernelResult (Path × Path) :=
  let bestMount := s.mountPoints.keys.foldl (better path) []
  if bestMount = [] then
    if ['/'] ∈ s.mountPoints then .ok (['/'], path) else .error .fileSystemNotFound
  else .ok (bestMount, path.drop bestMount.length)

/-- The inode that `open` looks for. -/
def findInode (driver : Driver φ ι) (s : Vfs φ ι) (path : Path) : KernelResult ι := do
  let (mountPath, relativePath) ← s.resolveMountPoint path
  match s.mountPoints.lookup mountPath with
  | none => .error .fileSystemNotFound
  | some fs => traversePath driver (driver.rootInode fs) relativePath

def setFile (s : Vfs φ ι) (fd : Nat) (file : Option (FileDescriptor ι)) : Vfs φ ι :=
  { s with openFiles := Function.update s.openFiles fd file }

@[simp]
theorem setFile_self (s : Vfs φ ι) (fd : Nat) (file : Option (FileDescriptor ι)) :
    (s.setFile fd file).openFiles fd = file := Function.update_self _ _ _

theorem setFile_of_ne {fd fd' : Nat} (h : fd' ≠ fd) (s : Vfs φ ι) (file : Option (FileDescriptor ι)) :
    (s.setFile fd file).openFiles fd' = s.openFiles fd' := Function.update_of_ne h _ _

/-- `Vfs::open`. -/
def openFile (profile : Profile) (driver : Driver φ ι) (s : Vfs φ ι) (path : Path) (flags : OpenFlags) :
    Option (KernelResult Nat × Vfs φ ι) :=
  match s.findInode driver path with
  | .error e => some (.error e, s)
  | .ok inode => do
    let nextFd ← add profile s.nextFd 1
    some (.ok s.nextFd, { s with nextFd }.setFile s.nextFd (FileDescriptor.new inode flags))

def close (s : Vfs φ ι) (fd : Nat) : KernelResult Unit × Vfs φ ι :=
  match s.openFiles fd with
  | none => (.error .invalidArgument, s)
  | some _ => (.ok (), s.setFile fd none)

def read (profile : Profile) (driver : Driver φ ι) (s : Vfs φ ι) (fd : Nat) (buffer : List Byte) :
    Option (KernelResult Nat × List Byte × Vfs φ ι) :=
  match s.openFiles fd with
  | none => some (.error .invalidArgument, buffer, s)
  | some file => do
    let (result, buffer, file) ← file.read profile driver buffer
    some (result, buffer, s.setFile fd file)

def write (profile : Profile) (driver : Driver φ ι) (s : Vfs φ ι) (fd : Nat) (data : List Byte) :
    Option (KernelResult Nat × Vfs φ ι) :=
  match s.openFiles fd with
  | none => some (.error .invalidArgument, s)
  | some file => do
    let (result, file) ← file.write profile driver data
    some (result, s.setFile fd file)

end Vfs

/-- A system call on file descriptors. -/
inductive Call
  | openFile (path : Path) (flags : OpenFlags)
  | close (fd : Nat)
  | read (fd : Nat) (buffer : List Byte)
  | write (fd : Nat) (data : List Byte)
deriving DecidableEq

inductive Reply
  | opened (result : KernelResult Nat)
  | closed (result : KernelResult Unit)
  | read (result : KernelResult Nat) (buffer : List Byte)
  | written (result : KernelResult Nat)
deriving DecidableEq

def Vfs.call (profile : Profile) (driver : Driver φ ι) (s : Vfs φ ι) : Call → Option (Reply × Vfs φ ι)
  | .openFile path flags => (s.openFile profile driver path flags).map fun (result, s) =>
    (.opened result, s)
  | .close fd => some (.closed (s.close fd).1, (s.close fd).2)
  | .read fd buffer =>
    (s.read profile driver fd buffer).map fun (result, buffer, s) => (.read result buffer, s)
  | .write fd data => (s.write profile driver fd data).map fun (result, s) => (.written result, s)

/-- What a call that returns replies, and what it does to the table. -/
inductive Effect (profile : Profile) (driver : Driver φ ι) (s : Vfs φ ι) : Call → Reply → Vfs φ ι → Prop
  | refused {path : Path} {flags : OpenFlags} {e : KernelError}
    (h : s.findInode driver path = .error e) :
      Effect profile driver s (.openFile path flags) (.opened (.error e)) s
  | opened {path : Path} {flags : OpenFlags} {inode : ι} {nextFd : Nat}
      (h : s.findInode driver path = .ok inode)
      (hnext : add profile s.nextFd 1 = some nextFd) :
      Effect profile driver s (.openFile path flags) (.opened (.ok s.nextFd))
        ({ s with nextFd }.setFile s.nextFd (some (.new inode flags)))
  | closed {fd : Nat} {file : FileDescriptor ι} (h : s.openFiles fd = some file) :
      Effect profile driver s (.close fd) (.closed (.ok ())) (s.setFile fd none)
  | read {fd : Nat} {buffer buffer' : List Byte} {file file' : FileDescriptor ι}
      {result : KernelResult Nat}
      (h : s.openFiles fd = some file) (hread : file.read profile driver buffer =
        some (result, buffer', file')) :
      Effect profile driver s (.read fd buffer) (.read result buffer') (s.setFile fd (some file'))
  | written {fd : Nat} {data : List Byte} {file file' : FileDescriptor ι} {result : KernelResult Nat}
      (h : s.openFiles fd = some file) (hwrite : file.write profile driver data = some (result, file')) :
      Effect profile driver s (.write fd data) (.written result) (s.setFile fd (some file'))
  | notOpenClose {fd : Nat} (h : s.openFiles fd = none) :
      Effect profile driver s (.close fd) (.closed (.error .invalidArgument)) s
  | notOpenRead {fd : Nat} {buffer : List Byte} (h : s.openFiles fd = none) :
      Effect profile driver s (.read fd buffer) (.read (.error .invalidArgument) buffer) s
  | notOpenWrite {fd : Nat} {data : List Byte} (h : s.openFiles fd = none) :
      Effect profile driver s (.write fd data) (.written (.error .invalidArgument)) s

variable {profile : Profile} {driver : Driver φ ι} {s s' : Vfs φ ι} {file file' : FileDescriptor ι}
  {result : KernelResult Nat}

theorem FileDescriptor.inode_advance {inode : ι} {r : KernelResult Nat}
    (h : file.advance profile inode r = some (result, file')) : file'.inode = inode := by
  cases r with
  | error e =>
    cases h
    rfl
  | ok bytes =>
    obtain ⟨offset, -, heq⟩ := Option.bind_eq_some_iff.mp h
    cases heq
    rfl

theorem FileDescriptor.inode_read {buffer buffer' : List Byte}
    (h : file.read profile driver buffer = some (result, buffer', file')) :
    file'.inode = file.inode ∨
      ∃ r, driver.read file.inode file.offset buffer = some (r, buffer', file'.inode) := by
  rw [read] at h
  split_ifs at h
  · obtain ⟨⟨r, b, inode⟩, hread, hafter⟩ := Option.bind_eq_some_iff.mp h
    obtain ⟨moved, hmoved, heq⟩ := Option.bind_eq_some_iff.mp hafter
    cases heq
    rw [inode_advance hmoved]
    exact .inr ⟨r, hread⟩
  · cases h
    exact .inl rfl

theorem FileDescriptor.inode_write {data : List Byte}
    (h : file.write profile driver data = some (result, file')) :
    file'.inode = file.inode ∨ ∃ r, driver.write file.inode file.offset data =
      some (r, file'.inode) := by
  rw [write] at h
  split_ifs at h
  · obtain ⟨⟨r, inode⟩, hwrite, hafter⟩ := Option.bind_eq_some_iff.mp h
    rw [inode_advance hafter]
    exact .inr ⟨r, hwrite⟩
  · cases h
    exact .inl rfl

theorem call_effect {c : Call} {reply : Reply} (h : s.call profile driver c = some (reply, s')) :
    Effect profile driver s c reply s' := by
  cases c with
  | openFile path flags =>
    simp only [Vfs.call, Vfs.openFile] at h
    cases hfind : s.findInode driver path with
    | error e =>
      rw [hfind] at h
      cases h
      exact .refused hfind
    | ok inode =>
      rw [hfind] at h
      cases hnext : add profile s.nextFd 1 with
      | none =>
        rw [hnext] at h
        cases h
      | some nextFd =>
        rw [hnext] at h
        cases h
        exact .opened hfind hnext
  | close fd =>
    simp only [Vfs.call, Vfs.close] at h
    cases hfile : s.openFiles fd with
    | none =>
      rw [hfile] at h
      cases h
      exact .notOpenClose hfile
    | some file =>
      rw [hfile] at h
      cases h
      exact .closed hfile
  | read fd buffer =>
    simp only [Vfs.call, Vfs.read] at h
    cases hfile : s.openFiles fd with
    | none =>
      rw [hfile] at h
      cases h
      exact .notOpenRead hfile
    | some file =>
      rw [hfile] at h
      obtain ⟨_, hbind, heq⟩ := Option.map_eq_some_iff.mp h
      obtain ⟨r, hread, hr⟩ := Option.bind_eq_some_iff.mp hbind
      cases hr
      cases heq
      exact .read hfile hread
  | write fd data =>
    simp only [Vfs.call, Vfs.write] at h
    cases hfile : s.openFiles fd with
    | none =>
      rw [hfile] at h
      cases h
      exact .notOpenWrite hfile
    | some file =>
      rw [hfile] at h
      obtain ⟨_, hbind, heq⟩ := Option.map_eq_some_iff.mp h
      obtain ⟨r, hwrite, hr⟩ := Option.bind_eq_some_iff.mp hbind
      cases hr
      cases heq
      exact .written hfile hwrite

end DeltaOS.FileSystem
