import DeltaOS.NtfsFiles
import DeltaOS.Runs

namespace DeltaOS.OpenFiles

open ByteSlices Kernel Overflow FileSystem Runs

variable {φ ι : Type}

/-- A file system with the number of its mount, or an inode with the number of the volume it points
to. -/
structure OnVolume (α : Type) where
  volume : Nat
  object : α
deriving DecidableEq

def onVolumes (driver : Driver φ ι) : Driver (OnVolume φ) (OnVolume ι) where
  rootInode fs := ⟨fs.volume, driver.rootInode fs.object⟩
  lookup inode name := (driver.lookup inode.object name).map (OnVolume.mk inode.volume)
  read inode offset buffer :=
    (driver.read inode.object offset buffer).map fun r => (r.1, r.2.1, ⟨inode.volume, r.2.2⟩)
  write inode offset data := (driver.write inode.object offset data).map fun r =>
    (r.1, ⟨inode.volume, r.2⟩)

structure State (φ ι : Type) where
  vfs : Vfs (OnVolume φ) (OnVolume ι)
  volumes : Nat

inductive Op (φ : Type)
  | mount (path : Path) (fs : φ)
  | unmount (path : Path)
  | call (c : Call)

/-- One operation, where `none` is a panic. A volume that is not mounted is dropped. -/
def step (profile : Profile) (driver : Driver φ ι) : Option (State φ ι) → Op φ → Option (State φ ι)
  | none, _ => none
  | some s, .mount path fs => some ⟨(s.vfs.mount path ⟨s.volumes, fs⟩).2, s.volumes + 1⟩
  | some s, .unmount path => some { s with vfs := (s.vfs.unmount path).2 }
  | some s, .call c => (s.vfs.call profile (onVolumes driver) c).map fun r => { s with vfs := r.2 }

def start : State φ ι := ⟨.new, 0⟩

/-- Every open file is on a volume that is mounted. -/
def Backed (s : State φ ι) : Prop :=
  ∀ fd file, s.vfs.openFiles fd = some file →
    ∃ path fs, s.vfs.mountPoints.lookup path = some fs ∧ fs.volume = file.inode.volume

/-- No volume is unmounted that a file is open on. -/
def Unused : Option (State φ ι) → Op φ → Prop
  | some s, .unmount path => ∀ fs, s.vfs.mountPoints.lookup path = some fs →
      ∀ fd file, s.vfs.openFiles fd = some file → file.inode.volume ≠ fs.volume
  | _, _ => True

structure Inv (s : State φ ι) : Prop where
  backed : Backed s
  numbered : ∀ path fs, s.vfs.mountPoints.lookup path = some fs → fs.volume < s.volumes
  distinct : ∀ p q f g, s.vfs.mountPoints.lookup p = some f → s.vfs.mountPoints.lookup q = some g →
    f.volume = g.volume → p = q

variable {profile : Profile} {driver : Driver φ ι} {s : State φ ι}

theorem volume_foldlM {names : List Path} {inode inode' : OnVolume ι}
    (h : names.foldlM (onVolumes driver).lookup inode = .ok inode') : inode'.volume = inode.volume := by
  induction names generalizing inode with
  | nil =>
    cases h
    rfl
  | cons name names ih =>
    rw [List.foldlM_cons] at h
    simp only [onVolumes] at h
    cases hlookup : driver.lookup inode.object name with
    | error e =>
      rw [hlookup] at h
      cases h
    | ok next =>
      rw [hlookup] at h
      have hrest : names.foldlM (onVolumes driver).lookup ⟨inode.volume, next⟩ = .ok inode' := h
      have hvolume := ih hrest
      exact hvolume

theorem volume_findInode {vfs : Vfs (OnVolume φ) (OnVolume ι)} {path : Path} {inode : OnVolume ι}
    (h : vfs.findInode (onVolumes driver) path = .ok inode) :
    ∃ mountPath fs, vfs.mountPoints.lookup mountPath = some fs ∧ fs.volume = inode.volume := by
  rw [Vfs.findInode] at h
  cases hresolve : vfs.resolveMountPoint path with
  | error e =>
    rw [hresolve] at h
    cases h
  | ok r =>
    obtain ⟨mountPath, relativePath⟩ := r
    rw [hresolve, ok_bind] at h
    cases hfs : vfs.mountPoints.lookup mountPath with
    | none =>
      simp only [hfs] at h
      cases h
    | some fs =>
      simp only [hfs] at h
      refine ⟨mountPath, fs, hfs, ?_⟩
      simp only [traversePath] at h
      split_ifs at h
      · cases h
        rfl
      · exact (volume_foldlM h).symm

theorem volume_read {file file' : FileDescriptor (OnVolume ι)} {buffer buffer' : List Byte}
    {result : KernelResult Nat} (h : file.read profile (onVolumes driver) buffer =
      some (result, buffer', file')) :
    file'.inode.volume = file.inode.volume := by
  obtain heq | ⟨r, hread⟩ := FileDescriptor.inode_read h
  · rw [heq]
  · obtain ⟨_, -, heq⟩ := Option.map_eq_some_iff.mp hread
    exact congrArg (fun t => t.2.2.volume) heq.symm

theorem volume_write {file file' : FileDescriptor (OnVolume ι)} {data : List Byte}
    {result : KernelResult Nat} (h : file.write profile (onVolumes driver) data = some (result, file')) :
    file'.inode.volume = file.inode.volume := by
  obtain heq | ⟨r, hwrite⟩ := FileDescriptor.inode_write h
  · rw [heq]
  · obtain ⟨_, -, heq⟩ := Option.map_eq_some_iff.mp hwrite
    exact congrArg (fun t => t.2.volume) heq.symm

theorem inv_start : Inv (start : State φ ι) where
  backed := nofun
  numbered := nofun
  distinct := nofun

theorem Inv.of_files {vfs : Vfs (OnVolume φ) (OnVolume ι)} (h : Inv s)
    (hmounts : vfs.mountPoints = s.vfs.mountPoints) (hfiles : ∀ fd file, vfs.openFiles fd = some file →
      ∃ path fs, s.vfs.mountPoints.lookup path = some fs ∧ fs.volume = file.inode.volume) :
    Inv { s with vfs } where
  backed fd file hfile := by
    rw [hmounts]
    exact hfiles fd file hfile
  numbered := by
    rw [hmounts]
    exact h.numbered
  distinct := by
    rw [hmounts]
    exact h.distinct

theorem Inv.setFile (h : Inv s) (fd : Nat) (nextFd : Nat) {file : Option (FileDescriptor (OnVolume ι))}
    (hfile : ∀ f, file = some f → ∃ path fs, s.vfs.mountPoints.lookup path = some fs ∧
      fs.volume = f.inode.volume) :
    Inv { s with vfs := { s.vfs with nextFd }.setFile fd file } := by
  refine h.of_files rfl fun fd' f hf => ?_
  by_cases heq : fd' = fd
  · rw [heq, Vfs.setFile_self] at hf
    exact hfile f hf
  · rw [Vfs.setFile_of_ne heq] at hf
    exact h.backed fd' f hf

theorem Inv.call {c : Call} {reply : Reply} {vfs : Vfs (OnVolume φ) (OnVolume ι)} (h : Inv s)
    (hcall : s.vfs.call profile (onVolumes driver) c = some (reply, vfs)) : Inv { s with vfs } := by
  cases call_effect hcall with
  | refused | notOpenClose | notOpenRead | notOpenWrite => exact h
  | opened hfind hnext =>
    refine h.setFile _ _ fun f hf => ?_
    cases hf
    exact volume_findInode hfind
  | closed hfile => exact h.setFile _ s.vfs.nextFd nofun
  | read hfile hread =>
    refine h.setFile _ s.vfs.nextFd fun f hf => ?_
    cases hf
    rw [volume_read hread]
    exact h.backed _ _ hfile
  | written hfile hwrite =>
    refine h.setFile _ s.vfs.nextFd fun f hf => ?_
    cases hf
    rw [volume_write hwrite]
    exact h.backed _ _ hfile

theorem Inv.mount (h : Inv s) (path : Path) (fs : φ) :
    Inv (⟨(s.vfs.mount path ⟨s.volumes, fs⟩).2, s.volumes + 1⟩ : State φ ι) := by
  rw [Vfs.mount]
  split_ifs with hmem
  · exact ⟨h.backed, fun p f hf => (h.numbered p f hf).trans (Nat.lt_succ_self _), h.distinct⟩
  have hcases : ∀ {p f}, (s.vfs.mountPoints.insert path ⟨s.volumes, fs⟩).lookup p = some f →
      p = path ∧ f.volume = s.volumes ∨ s.vfs.mountPoints.lookup p = some f := by
    intro p f hf
    by_cases hp : p = path
    · rw [hp, AList.lookup_insert] at hf
      cases hf
      exact .inl ⟨hp, rfl⟩
    · rw [AList.lookup_insert_ne hp] at hf
      exact .inr hf
  refine ⟨fun fd file hfile => ?_, fun p f hf => ?_, fun p q f g hf hg hsame => ?_⟩
  · obtain ⟨p, f, hf, hvolume⟩ := h.backed fd file hfile
    have hp : p ≠ path := by
      rintro rfl
      exact hmem (AList.lookup_isSome.mp (Option.isSome_of_mem hf))
    exact ⟨p, f, by rw [AList.lookup_insert_ne hp]; exact hf, hvolume⟩
  · obtain ⟨-, hvolume⟩ | hold := hcases hf
    · rw [hvolume]
      exact Nat.lt_succ_self _
    · exact (h.numbered p f hold).trans (Nat.lt_succ_self _)
  · obtain ⟨hp, hf⟩ | hf := hcases hf <;> obtain ⟨hq, hg⟩ | hg := hcases hg
    · rw [hp, hq]
    · exact absurd (hsame.symm.trans hf) (h.numbered q g hg).ne
    · exact absurd (hsame.trans hg) (h.numbered p f hf).ne
    · exact h.distinct p q f g hf hg hsame

theorem Inv.unmount {path : Path} (h : Inv s) (hunused : Unused (some s) (.unmount path)) :
    Inv { s with vfs := (s.vfs.unmount path).2 } := by
  rw [Vfs.unmount]
  split_ifs with hmem
  · have hkept : ∀ {p f}, (s.vfs.mountPoints.erase path).lookup p = some f →
        s.vfs.mountPoints.lookup p = some f := by
      intro p f hf
      by_cases hp : p = path
      · rw [hp, AList.lookup_erase] at hf
        cases hf
      · rwa [AList.lookup_erase_ne hp] at hf
    refine ⟨fun fd file hfile => ?_, fun p f hf => h.numbered p f (hkept hf),
      fun p q f g hf hg => h.distinct p q f g (hkept hf) (hkept hg)⟩
    obtain ⟨p, f, hf, hvolume⟩ := h.backed fd file hfile
    have hp : p ≠ path := by
      rintro rfl
      exact hunused f hf fd file hfile hvolume.symm
    exact ⟨p, f, by rw [AList.lookup_erase_ne hp]; exact hf, hvolume⟩
  · exact h

theorem unused_of_backed {path : Path} (h : Inv s)
    (hbacked : Backed { s with vfs := (s.vfs.unmount path).2 }) : Unused (some s) (.unmount path) := by
  intro fs hfs fd file hfile hsame
  have hmem : path ∈ s.vfs.mountPoints := AList.lookup_isSome.mp (Option.isSome_of_mem hfs)
  rw [Vfs.unmount, if_pos hmem] at hbacked
  obtain ⟨p, f, hf, hvolume⟩ := hbacked fd file hfile
  by_cases hp : p = path
  · rw [hp, AList.lookup_erase] at hf
    cases hf
  · rw [AList.lookup_erase_ne hp] at hf
    exact hp (h.distinct p path f fs hf hfs (hvolume.trans hsame))

theorem inv_step {o : Option (State φ ι)} {op : Op φ} (h : ∀ s ∈ o, Inv s) (hunused : Unused o op) :
    ∀ s ∈ step profile driver o op, Inv s := by
  cases o with
  | none => nofun
  | some s =>
    have hs := h s rfl
    intro t ht
    cases op with
    | mount path fs =>
      cases ht
      exact hs.mount path fs
    | unmount path =>
      cases ht
      exact hs.unmount hunused
    | call c =>
      obtain ⟨⟨reply, vfs⟩, hcall, rfl⟩ := Option.map_eq_some_iff.mp ht
      exact hs.call hcall

/-- Open files stay on mounted volumes exactly when no volume is unmounted under an open file. -/
theorem backed_iff (profile : Profile) (driver : Driver φ ι) (ops : List (Op φ)) :
    Always (step profile driver) (fun o => ∀ s ∈ o, Backed s) (some start) ops ↔
      Guarded (step profile driver) Unused (some start) ops := by
  refine always_iff_guarded (I := fun o => ∀ s ∈ o, Inv s) (fun o h s hs => (h s hs).backed)
    (fun o op h hunused => inv_step h hunused) (fun o op h hbacked => ?_) ?_
  · cases o with
    | none => trivial
    | some s =>
      cases op with
      | mount path fs => trivial
      | unmount path => exact unused_of_backed (h s rfl) (hbacked _ rfl)
      | call c => trivial
  · rintro s ⟨⟩
    exact inv_start

/-- An NTFS volume is mounted at the root, its root directory is opened, and the volume is unmounted. -/
def openThenUnmount : List (Op NtfsFiles.NtfsVolume) :=
  [.mount ['/'] ⟨4096⟩, .call (.openFile ['/'] OpenFlags.readOnly), .unmount ['/']]

theorem openThenUnmount_dangles : ¬Always (step .release (NtfsFiles.driver .release))
    (fun o => ∀ s ∈ o, Backed s) (some start) openThenUnmount := by
  intro h
  obtain ⟨path, fs, hfs, -⟩ := h.last _ rfl 3 _ rfl
  cases hfs

end DeltaOS.OpenFiles
