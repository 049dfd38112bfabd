import DeltaOS.Interleaving
import DeltaOS.NtfsFiles

namespace DeltaOS.Descriptors

open ByteSlices Kernel Overflow FileSystem Interleaving

variable {φ ι : Type}

abbrev Event := Call × Reply

def mounted (mountPoints : AList fun _ : Path => φ) : Vfs φ ι := { (Vfs.new : Vfs φ ι) with mountPoints }

def openedBy : Event → Option Nat
  | (_, .opened (.ok fd)) => some fd
  | _ => none

def opened (t : List Event) : List Nat := t.filterMap openedBy

/-- The descriptor a call other than `open` is for. -/
def descriptor : Call → Option Nat
  | .openFile _ _ => none
  | .close fd => some fd
  | .read fd _ => some fd
  | .write fd _ => some fd

/-- The descriptor is what the call is for, or what it has opened. -/
def Own (fd : Nat) (e : Event) : Prop := openedBy e = some fd ∨ descriptor e.1 = some fd

instance (fd : Nat) : DecidablePred (Own fd) := fun _ => inferInstanceAs (Decidable (_ ∨ _))

/-- The descriptors that have been opened and not closed since. -/
def afterEvent (live : List Nat) : Event → List Nat
  | (_, .opened (.ok fd)) => fd :: live
  | (.close fd, .closed (.ok _)) => live.filter (· ≠ fd)
  | _ => live

def live (t : List Event) : List Nat := t.foldl afterEvent []

/-- The reply to a call on a descriptor that is not open. -/
def refusal : Call → Reply
  | .openFile _ _ => .opened (.error .invalidArgument)
  | .close _ => .closed (.error .invalidArgument)
  | .read _ buffer => .read (.error .invalidArgument) buffer
  | .write _ _ => .written (.error .invalidArgument)

/-- A descriptor by itself, over a fixed set of mounts: each of its calls acts on its own file. -/
def alone (profile : Profile) (driver : Driver φ ι) (fd : Nat)
    (v : (AList fun _ : Path => φ) × Option (FileDescriptor ι)) :
    Call → Option (Reply × (AList fun _ : Path => φ) × Option (FileDescriptor ι))
  | .openFile path flags =>
    match (mounted v.1 : Vfs φ ι).findInode driver path with
    | .error e => some (.opened (.error e), v)
    | .ok inode => some (.opened (.ok fd), v.1, some (.new inode flags))
  | .close _ =>
    match v.2 with
    | none => some (.closed (.error .invalidArgument), v)
    | some _ => some (.closed (.ok ()), v.1, none)
  | .read _ buffer =>
    match v.2 with
    | none => some (.read (.error .invalidArgument) buffer, v)
    | some file => (file.read profile driver buffer).map fun r => (.read r.1 r.2.1, v.1, some r.2.2)
  | .write _ data =>
    match v.2 with
    | none => some (.written (.error .invalidArgument), v)
    | some file => (file.write profile driver data).map fun r => (.written r.1, v.1, some r.2)

def slot (fd : Nat) (s : Vfs φ ι) : (AList fun _ : Path => φ) × Option (FileDescriptor ι) :=
  (s.mountPoints, s.openFiles fd)

variable {profile : Profile} {driver : Driver φ ι} {s s' : Vfs φ ι} {c : Call} {reply : Reply} {fd : Nat}

theorem findInode_mounted (s : Vfs φ ι) (path : Path) :
    (mounted s.mountPoints : Vfs φ ι).findInode driver path = s.findInode driver path := rfl

theorem slot_setFile_self (s : Vfs φ ι) (fd : Nat) (file : Option (FileDescriptor ι)) :
    slot fd (s.setFile fd file) = (s.mountPoints, file) := Prod.ext rfl (Vfs.setFile_self s fd file)

theorem slot_setFile_of_ne {fd' : Nat} (h : fd ≠ fd') (s : Vfs φ ι) (file : Option (FileDescriptor ι)) :
    slot fd (s.setFile fd' file) = slot fd s := Prod.ext rfl (Vfs.setFile_of_ne h s file)

theorem own_descriptor {fd' : Nat} (hc : descriptor c = some fd')
    (hopened : openedBy (c, reply) = none) : Own fd (c, reply) ↔ fd = fd' := by
  rw [Own, hopened, hc]
  simp [eq_comm]

theorem separate (profile : Profile) (driver : Driver φ ι) (fd : Nat) :
    Separate (Vfs.call profile driver) (alone profile driver fd) (slot fd) (Own fd) where
  own_call := by
    intro s s' c reply hcall hown
    cases call_effect hcall with
    | refused hfind => exact absurd hown (by simp [Own, openedBy, descriptor])
    | opened hfind hnext =>
      obtain rfl : s.nextFd = fd := by simpa [Own, openedBy, descriptor] using hown
      rw [slot_setFile_self]
      simp only [alone, slot, findInode_mounted, hfind]
    | closed hfile =>
      obtain rfl := (own_descriptor rfl rfl).mp hown
      rw [slot_setFile_self]
      simp only [alone, slot, hfile]
    | read hfile hread =>
      obtain rfl := (own_descriptor rfl rfl).mp hown
      rw [slot_setFile_self]
      simp only [alone, slot, hfile, hread, Option.map_some]
    | written hfile hwrite =>
      obtain rfl := (own_descriptor rfl rfl).mp hown
      rw [slot_setFile_self]
      simp only [alone, slot, hfile, hwrite, Option.map_some]
    | notOpenClose hnone | notOpenRead hnone | notOpenWrite hnone =>
      obtain rfl := (own_descriptor rfl rfl).mp hown
      simp only [alone, slot, hnone]
  other_call := by
    intro s s' c reply hcall hother
    cases call_effect hcall with
    | refused | notOpenClose | notOpenRead | notOpenWrite => rfl
    | @opened _ _ _ nextFd hfind hnext =>
      have hne : fd ≠ s.nextFd := fun heq => hother (.inl (congrArg some heq.symm))
      exact slot_setFile_of_ne hne { s with nextFd } _
    | closed | read | written =>
      exact slot_setFile_of_ne (fun heq => hother ((own_descriptor rfl rfl).mpr heq)) s _

theorem opened_cons (e : Event) (t : List Event) :
    opened (e :: t) = (openedBy e).toList ++ opened t := by
  rw [opened, List.filterMap_cons]
  cases openedBy e <;> rfl

theorem call_opened (hcall : s.call profile driver c = some (reply, s')) :
    openedBy (c, reply) = none ∧ s'.nextFd = s.nextFd ∨
      openedBy (c, reply) = some s.nextFd ∧ add profile s.nextFd 1 = some s'.nextFd := by
  cases call_effect hcall with
  | opened hfind hnext => exact .inr ⟨rfl, hnext⟩
  | _ => exact .inl ⟨rfl, rfl⟩

theorem opened_eq_range {cs : List Call} {t : List Event}
    (h : trace (Vfs.call profile driver) s cs = some (t, s'))
    (hword : s.nextFd < usizeRange) (hfew : s.nextFd + (opened t).length ≤ usizeRange) :
    opened t = List.range' s.nextFd (opened t).length := by
  induction cs generalizing s t with
  | nil =>
    obtain ⟨rfl, -⟩ := trace_nil h
    rfl
  | cons c cs ih =>
    obtain ⟨reply, s₁, t, hcall, hrest, rfl⟩ := trace_cons h
    rw [opened_cons] at hfew ⊢
    obtain ⟨hnone, hsame⟩ | ⟨hsome, hnext⟩ := call_opened hcall
    · rw [hnone, Option.toList_none, List.nil_append] at hfew ⊢
      rw [← hsame] at hword hfew ⊢
      exact ih hrest hword hfew
    · rw [hsome, Option.toList_some, List.singleton_append, List.length_cons] at hfew ⊢
      rw [List.range'_succ]
      obtain hlast | hmore := Nat.eq_zero_or_pos (opened t).length
      · rw [hlast, List.length_eq_zero_iff.mp hlast]
        rfl
      · rw [add_ok (by omega)] at hnext
        have heq : s.nextFd + 1 = s₁.nextFd := Option.some.inj hnext
        rw [heq, ← ih hrest (by omega) (by omega)]

theorem opened_few {cs : List Call} {t : List Event}
    (h : trace (Vfs.call .debug driver) s cs = some (t, s'))
    (hword : s.nextFd < usizeRange) : s.nextFd + (opened t).length < usizeRange := by
  induction cs generalizing s t with
  | nil =>
    obtain ⟨rfl, -⟩ := trace_nil h
    exact hword
  | cons c cs ih =>
    obtain ⟨reply, s₁, t, hcall, hrest, rfl⟩ := trace_cons h
    rw [opened_cons]
    obtain ⟨hnone, hsame⟩ | ⟨hsome, hnext⟩ := call_opened hcall
    · rw [hnone, Option.toList_none, List.nil_append, ← hsame]
      exact ih hrest (hsame.trans_lt hword)
    · have hlt := add_lt hnext
      simp only [add, Option.ite_none_right_eq_some, Option.some.injEq] at hnext
      have hfew := ih hrest hlt
      rw [hsome, Option.toList_some, List.singleton_append, List.length_cons]
      omega

theorem call_live {l : List Nat} (hcall : s.call profile driver c = some (reply, s'))
    (hl : ∀ fd, (s.openFiles fd).isSome ↔ fd ∈ l) (fd : Nat) :
    (s'.openFiles fd).isSome ↔ fd ∈ afterEvent l (c, reply) := by
  cases call_effect hcall with
  | refused | notOpenClose | notOpenRead | notOpenWrite => exact hl fd
  | @opened _ _ _ nextFd hfind hnext =>
    by_cases heq : fd = s.nextFd
    · rw [heq, Vfs.setFile_self]
      simp [afterEvent]
    · rw [Vfs.setFile_of_ne heq]
      simpa [afterEvent, heq] using hl fd
  | @closed fd' file hfile =>
    by_cases heq : fd = fd'
    · rw [heq, Vfs.setFile_self]
      simp [afterEvent]
    · rw [Vfs.setFile_of_ne heq]
      simpa [afterEvent, heq] using hl fd
  | @read fd' _ _ file _ _ hfile | @written fd' _ file _ _ hfile =>
    by_cases heq : fd = fd'
    · rw [heq, Vfs.setFile_self]
      exact iff_of_true rfl ((hl fd').mp (by rw [hfile]; rfl))
    · rw [Vfs.setFile_of_ne heq]
      exact hl fd

theorem live_iff {cs : List Call} {t : List Event} {l : List Nat}
    (h : trace (Vfs.call profile driver) s cs = some (t, s'))
    (hl : ∀ fd, (s.openFiles fd).isSome ↔ fd ∈ l)
    (fd : Nat) : (s'.openFiles fd).isSome ↔ fd ∈ t.foldl afterEvent l := by
  induction cs generalizing s t l with
  | nil =>
    obtain ⟨rfl, rfl⟩ := trace_nil h
    exact hl fd
  | cons c cs ih =>
    obtain ⟨reply, s₁, t, hcall, hrest, rfl⟩ := trace_cons h
    have hlive := ih hrest (call_live hcall hl)
    exact hlive

theorem call_refused (hc : descriptor c = some fd) (hnone : s.openFiles fd = none) :
    s.call profile driver c = some (refusal c, s) := by
  cases c with
  | openFile path flags => cases hc
  | close fd' | read fd' buffer | write fd' data =>
    obtain rfl : fd' = fd := Option.some.inj hc
    simp only [Vfs.call, Vfs.close, Vfs.read, Vfs.write, hnone]
    rfl

/-- Descriptors are independent of each other. They are told apart as long as the counter of 64 bits
does not wrap around, which overflow checks rule out. -/
theorem descriptors_independent (profile : Profile) (driver : Driver φ ι)
    (mountPoints : AList fun _ : Path => φ) (cs : List Call) (t : List Event) (s : Vfs φ ι)
    (h : trace (Vfs.call profile driver) (mounted mountPoints) cs = some (t, s)) :
    (profile = .debug ∨ 3 + (opened t).length ≤ 2 ^ 64 → (opened t).Nodup) ∧
    (∀ c fd, descriptor c = some fd → fd ∉ live t → s.call profile driver c = some (refusal c, s)) ∧
    (∀ path flags e s', s.call profile driver (.openFile path flags) =
      some (.opened (.error e), s') → s' = s) ∧
    ∀ cs' t' s', trace (Vfs.call profile driver) (mounted mountPoints) cs' = some (t', s') → ∀ fd,
      (t'.filter (Own fd)).map Prod.fst = (t.filter (Own fd)).map Prod.fst →
        t'.filter (Own fd) = t.filter (Own fd) := by
  have hthree : 3 < usizeRange := by decide
  have hstart : (mounted mountPoints : Vfs φ ι).nextFd < usizeRange := hthree
  refine ⟨fun hfew => ?_, fun c fd hc hfd => ?_, fun path flags e s' hcall => ?_,
    fun cs' t' s' h' fd hsame => ?_⟩
  · have hbound : 3 + (opened t).length ≤ usizeRange := by
      obtain rfl | hle := hfew
      · exact (opened_few h hstart).le
      · exact hle
    rw [opened_eq_range h hstart hbound]
    exact List.nodup_range'
  · have hempty : ∀ fd, ((mounted mountPoints : Vfs φ ι).openFiles fd).isSome ↔ fd ∈ [] := by
      intro fd
      exact iff_of_false Bool.false_ne_true List.not_mem_nil
    have hnone : s.openFiles fd = none :=
      Option.not_isSome_iff_eq_none.mp fun hsome => hfd ((live_iff h hempty fd).mp hsome)
    exact call_refused hc hnone
  · cases call_effect hcall with
    | refused => rfl
  · exact (separate profile driver fd).own_congr h' h rfl hsame

theorem opens_release {path : Path} (flags : OpenFlags) {inode : ι} (n : Nat) (s : Vfs φ ι)
    (hfind : s.findInode driver path = .ok inode) (hword : s.nextFd < usizeRange) :
    ∃ t s', trace (Vfs.call .release driver) s (List.replicate n (.openFile path flags)) = some (t, s') ∧
      opened t = (List.range n).map fun i => (s.nextFd + i) % usizeRange := by
  induction n generalizing s with
  | zero => exact ⟨[], s, rfl, rfl⟩
  | succ n ih =>
    set s₁ : Vfs φ ι := { s with nextFd := (s.nextFd + 1) % usizeRange }.setFile s.nextFd
      (some (.new inode flags)) with hs₁
    have hcall : s.call .release driver (.openFile path flags) = some (.opened (.ok s.nextFd), s₁) := by
      simp only [Vfs.call, Vfs.openFile, hfind]
      rfl
    have hfind₁ : s₁.findInode driver path = .ok inode := hfind
    obtain ⟨t, s', htrace, hopened⟩ := ih s₁ hfind₁ (Nat.mod_lt _ (by decide))
    refine ⟨(.openFile path flags, .opened (.ok s.nextFd)) :: t, s', trace_cons_eq hcall htrace, ?_⟩
    have hnext : s₁.nextFd = (s.nextFd + 1) % usizeRange := rfl
    rw [opened_cons, hopened, List.range_succ_eq_map, List.map_cons, List.map_map, Nat.add_zero,
      Nat.mod_eq_of_lt hword, hnext]
    simp [openedBy, Function.comp_def, Nat.add_assoc, Nat.add_comm 1]

def rootMounted : Vfs NtfsFiles.NtfsVolume NtfsFiles.NtfsInode := mounted (AList.insert ['/'] ⟨4096⟩ ∅)

/-- After `2 ^ 64` opens the first descriptor is given out once more. -/
theorem descriptor_reused : ∃ t s, trace (Vfs.call .release (NtfsFiles.driver .release)) rootMounted
    (List.replicate (2 ^ 64 + 1) (.openFile ['/'] OpenFlags.readOnly)) = some (t, s) ∧
      ¬(opened t).Nodup := by
  have hfind : rootMounted.findInode (NtfsFiles.driver .release) ['/'] =
      .ok (NtfsFiles.NtfsVolume.rootInode ⟨4096⟩) := rfl
  obtain ⟨t, s, htrace, hopened⟩ :=
    opens_release OpenFlags.readOnly (2 ^ 64 + 1) rootMounted hfind (by decide)
  refine ⟨t, s, htrace, fun hnodup => ?_⟩
  rw [hopened] at hnodup
  have hfirst : 0 ∈ List.range (2 ^ 64 + 1) := List.mem_range.mpr (Nat.succ_pos _)
  have hlast : 2 ^ 64 ∈ List.range (2 ^ 64 + 1) := List.mem_range.mpr (Nat.lt_succ_self _)
  have heq := List.inj_on_of_nodup_map hnodup hfirst hlast
    (by rw [usizeRange, Nat.add_zero, Nat.add_mod_right])
  exact absurd heq (by decide)

def twice : List Call :=
  [.openFile ['/'] OpenFlags.readOnly, .openFile ['/'] OpenFlags.readWrite, .close 3,
    .read 4 [7], .close 4]

theorem twice_distinct : ∃ t s,
    trace (Vfs.call .release (NtfsFiles.driver .release)) rootMounted twice = some (t, s) ∧
    opened t = [3, 4] ∧ (opened t).Nodup ∧ s.call .release (NtfsFiles.driver .release) (.close 3) =
      some (.closed (.error .invalidArgument), s) := by
  have h := descriptors_independent .release (NtfsFiles.driver .release)
    (AList.insert ['/'] ⟨4096⟩ ∅) twice _ _ rfl
  exact ⟨_, _, rfl, rfl, h.1 (.inr (by decide)), h.2.1 (.close 3) 3 rfl (by decide)⟩

end DeltaOS.Descriptors
