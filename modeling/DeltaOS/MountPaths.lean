import DeltaOS.FileSystem

namespace DeltaOS.MountPaths

open Kernel FileSystem

variable {φ ι : Type}

/-- The root, or names one after the other with a slash before each. -/
def Normalised (path : Path) : Prop :=
  path = ['/'] ∨ ∃ names : List Path, names ≠ [] ∧ (∀ n ∈ names, n ≠ [] ∧ '/' ∉ n) ∧
    path = names.flatMap ('/' :: ·)

def longestMount (mounts : List Path) (names : List Path) : Option Path :=
  (mounts.filter fun m => components m <+: names).argmax fun m => (components m).length

/-- The mount and the names that are left, going by names alone. -/
def byComponents (s : Vfs φ ι) (names : List Path) : KernelResult (Path × List Path) :=
  match longestMount s.mountPoints.keys names with
  | some m => .ok (m, names.drop (components m).length)
  | none => .error .fileSystemNotFound

/-- The mount that `resolve_mount_point` finds, and the names that `traverse_path` looks up there. -/
def resolved (s : Vfs φ ι) (path : Path) : KernelResult (Path × List Path) :=
  (s.resolveMountPoint path).map fun r => (r.1, components r.2)

/-- The right mount stands at the start of the path as it is written, and so does no longer one. -/
def SpelledOut (s : Vfs φ ι) (path : Path) : Prop :=
  match longestMount s.mountPoints.keys (components path) with
  | some m => m <+: path ∧ ∀ k ∈ s.mountPoints.keys, k <+: path → k.length ≤ m.length
  | none => ∀ k ∈ s.mountPoints.keys, ¬k <+: path

theorem components_append_slash (a b : Path) :
    components (a ++ '/' :: b) = components a ++ components b := by
  rw [components, components, components, List.splitOn, List.splitOnP_append_cons _ _ (by decide),
    List.filter_append]
  rfl

theorem components_slash (b : Path) : components ('/' :: b) = components b :=
  components_append_slash [] b

theorem components_name {w : Path} (hne : w ≠ []) (h : '/' ∉ w) : components w = [w] := by
  have hfree : ∀ c ∈ w, (c == '/') = false := by
    intro c hc
    exact beq_false_of_ne fun heq => h (heq ▸ hc)
  rw [components, List.splitOn, List.splitOnP_eq_singleton hfree]
  simp [hne]

theorem traversePath_eq (driver : Driver φ ι) (root : ι) (path : Path) :
    traversePath driver root path = (components path).foldlM driver.lookup root := by
  rw [traversePath]
  split_ifs with h
  · obtain rfl | rfl := h <;> rfl
  · rfl

theorem findInode_eq (driver : Driver φ ι) (s : Vfs φ ι) (path : Path) :
    s.findInode driver path = resolved s path >>= fun r =>
      match s.mountPoints.lookup r.1 with
      | none => .error .fileSystemNotFound
      | some fs => r.2.foldlM driver.lookup (driver.rootInode fs) := by
  rw [Vfs.findInode, resolved]
  simp only [traversePath_eq]
  cases s.resolveMountPoint path <;> rfl

/-- What the loop over the mounts has found: nothing yet, or the longest mount the path starts with. -/
structure Longest (path : Path) (keys : List Path) (best : Path) : Prop where
  found : best ≠ [] → best ∈ keys ∧ best <+: path
  longest : ∀ k ∈ keys, k <+: path → k.length ≤ best.length

variable {s : Vfs φ ι} {path best m : Path} {keys : List Path}

theorem Longest.step {k : Path} (h : Longest path keys best) :
    Longest path (keys ++ [k]) (better path best k) := by
  rw [better]
  split_ifs with hk
  · refine ⟨fun _ => ⟨List.mem_append_right _ (List.mem_singleton_self k), hk.1⟩, ?_⟩
    intro k' hk' hstarts
    obtain hold | hnew := List.mem_append.mp hk'
    · exact (h.longest k' hold hstarts).trans hk.2.le
    · rw [List.mem_singleton.mp hnew]
  · refine ⟨fun hne => ⟨List.mem_append_left _ (h.found hne).1, (h.found hne).2⟩, ?_⟩
    intro k' hk' hstarts
    obtain hold | hnew := List.mem_append.mp hk'
    · exact h.longest k' hold hstarts
    · rw [List.mem_singleton.mp hnew] at hstarts ⊢
      exact not_lt.mp fun hlt => hk ⟨hstarts, hlt⟩

theorem longest_foldl (path : Path) (keys : List Path) :
    Longest path keys (keys.foldl (better path) []) := by
  induction keys using List.reverseRecOn with
  | nil => exact ⟨fun h => absurd rfl h, nofun⟩
  | append_singleton keys k ih =>
    rw [List.foldl_append]
    exact ih.step

theorem not_prefix_of_cut {name rest : Path} {c : Char} (hname : '/' ∉ name) (hc : c ≠ '/') :
    ¬[name] <+: components (name ++ c :: rest) := by
  set word := name ++ c :: rest.takeWhile (· ≠ '/') with hword
  have hfree : '/' ∉ word := by
    simp only [hword, List.mem_append, List.mem_cons, not_or]
    refine ⟨hname, hc.symm, fun hmem => ?_⟩
    simpa using List.mem_takeWhile_imp hmem
  have hlong : word ≠ name := by simp [hword]
  have hwhole : name ++ c :: rest = word ++ rest.dropWhile (· ≠ '/') := by
    rw [hword, List.append_assoc, List.cons_append, List.takeWhile_append_dropWhile]
  have hcomponents : ∃ names, components (name ++ c :: rest) = word :: names := by
    have hnonempty : word ≠ [] := by simp [hword]
    rw [hwhole]
    cases hrest : rest.dropWhile (· ≠ '/') with
    | nil => exact ⟨[], by rw [List.append_nil, components_name hnonempty hfree]⟩
    | cons d rest' =>
      have hd : d = '/' := by
        have hhead := List.head?_dropWhile_not (· ≠ '/') rest
        rw [hrest] at hhead
        simpa using hhead
      rw [hd, components_append_slash, components_name hnonempty hfree]
      exact ⟨_, rfl⟩
  obtain ⟨names, hnames⟩ := hcomponents
  rw [hnames]
  intro hprefix
  exact hlong (List.cons_prefix_cons.mp hprefix).1.symm

theorem components_rest (hm : Normalised m) (hstart : m <+: path)
    (hnames : components m <+: components path) :
    components (path.drop m.length) = (components path).drop (components m).length := by
  obtain ⟨rest, rfl⟩ := hstart
  rw [List.drop_left]
  cases rest with
  | nil => rw [List.append_nil, List.drop_length]; rfl
  | cons c rest =>
    by_cases hc : c = '/'
    · rw [hc, components_append_slash, components_slash, List.drop_left]
    · obtain rfl | ⟨names, hne, hall, rfl⟩ := hm
      · exact (components_slash (c :: rest)).symm
      · obtain ⟨init, last, rfl⟩ : ∃ init last, names = init ++ [last] :=
          ⟨names.dropLast, names.getLast hne, (List.dropLast_append_getLast hne).symm⟩
        have hlast := hall last (by simp)
        have hsplit : ∀ r, (init ++ [last]).flatMap ('/' :: ·) ++ r = init.flatMap ('/' :: ·) ++
            '/' :: (last ++ r) := by
          intro r
          simp
        have hself := hsplit []
        rw [List.append_nil, List.append_nil] at hself
        rw [hsplit, hself, components_append_slash, components_append_slash,
          components_name hlast.1 hlast.2, List.prefix_append_right_inj] at hnames
        exact absurd hnames (not_prefix_of_cut hlast.2 hc)

theorem Normalised.ne_nil (h : Normalised m) : m ≠ [] := by
  obtain rfl | ⟨names, hne, -, rfl⟩ := h
  · exact List.cons_ne_nil _ _
  · obtain ⟨n, names, rfl⟩ := List.exists_cons_of_ne_nil hne
    exact List.cons_ne_nil _ _

theorem longestMount_spec {names : List Path} (h : longestMount keys names = some m) :
    m ∈ keys ∧ components m <+: names := by
  have hmem := List.argmax_mem (Option.mem_def.mpr h)
  simpa using hmem

theorem resolved_eq (habs : ['/'] <+: path) : resolved s path =
    if s.mountPoints.keys.foldl (better path) [] = [] then .error .fileSystemNotFound
    else .ok (s.mountPoints.keys.foldl (better path) [],
      components (path.drop (s.mountPoints.keys.foldl (better path) []).length)) := by
  have hlongest := longest_foldl path s.mountPoints.keys
  rw [resolved, Vfs.resolveMountPoint]
  by_cases hnone : s.mountPoints.keys.foldl (better path) [] = []
  · have hroot : ['/'] ∉ s.mountPoints := by
      intro hmem
      have hle := hlongest.longest _ (AList.mem_keys.mp hmem) habs
      rw [hnone] at hle
      exact absurd hle (by decide)
    rw [if_pos hnone]
    simp only [hnone, if_true, if_neg hroot]
    rfl
  · simp only [if_neg hnone]
    rfl

theorem resolved_eq_iff (hnormalised : ∀ k ∈ s.mountPoints.keys, Normalised k) (habs : ['/'] <+: path) :
    resolved s path = byComponents s (components path) ↔ SpelledOut s path := by
  have hlongest := longest_foldl path s.mountPoints.keys
  rw [resolved_eq habs, byComponents, SpelledOut]
  set best := s.mountPoints.keys.foldl (better path) [] with hbest
  cases hmount : longestMount s.mountPoints.keys (components path) with
  | none =>
    by_cases hnone : best = []
    · rw [if_pos hnone]
      refine iff_of_true rfl fun k hk hstarts => ?_
      have hle := hlongest.longest k hk hstarts
      rw [hnone, List.length_nil, Nat.le_zero, List.length_eq_zero_iff] at hle
      exact (hnormalised k hk).ne_nil hle
    · rw [if_neg hnone]
      obtain ⟨hmem, hstarts⟩ := hlongest.found hnone
      exact iff_of_false nofun fun hall => hall best hmem hstarts
  | some m =>
    obtain ⟨hmem, hnames⟩ := longestMount_spec hmount
    have hne := (hnormalised m hmem).ne_nil
    constructor
    · intro heq
      by_cases hnone : best = []
      · rw [if_pos hnone] at heq
        cases heq
      · rw [if_neg hnone] at heq
        obtain rfl : best = m := congrArg Prod.fst (Except.ok.inj heq)
        exact ⟨(hlongest.found hnone).2, hlongest.longest⟩
    · rintro ⟨hstarts, hall⟩
      have hge := hlongest.longest m hmem hstarts
      have hnone : best ≠ [] := by
        intro hnil
        rw [hnil, List.length_nil, Nat.le_zero, List.length_eq_zero_iff] at hge
        exact hne hge
      obtain ⟨hbestMem, hbestStarts⟩ := hlongest.found hnone
      obtain rfl : best = m := by
        have hsame := le_antisymm (hall best hbestMem hbestStarts) hge
        exact (List.prefix_of_prefix_length_le hbestStarts hstarts hsame.le).eq_of_length hsame
      rw [if_neg hnone, components_rest (hnormalised best hmem) hstarts hnames]

/-- Mounts are resolved by names exactly on the paths that write the right mount out. Where two ways of
writing the same names do, they lead to the same mount and the same lookups. -/
theorem resolution_iff (s : Vfs φ ι) (path : Path) (hnormalised : ∀ k ∈ s.mountPoints.keys, Normalised k)
    (habs : ['/'] <+: path) :
    (resolved s path = byComponents s (components path) ↔ SpelledOut s path) ∧
      ∀ path', ['/'] <+: path' → components path' = components path → SpelledOut s path →
        SpelledOut s path' →
        resolved s path' = resolved s path ∧ ∀ driver, s.findInode driver path' =
          s.findInode driver path := by
  refine ⟨resolved_eq_iff hnormalised habs, fun path' habs' hsame hpath hpath' => ?_⟩
  have heq : resolved s path' = resolved s path := by
    rw [(resolved_eq_iff hnormalised habs').mpr hpath',
      (resolved_eq_iff hnormalised habs).mpr hpath, hsame]
  exact ⟨heq, fun driver => by rw [findInode_eq, findInode_eq, heq]⟩

/-- A file system at the root and one at `/mnt`. -/
def twoMounts : Vfs Nat Nat where
  mountPoints := (AList.insert ['/'] 0 ∅).insert ['/', 'm', 'n', 't'] 1
  nextFd := 3
  openFiles := fun _ => none

theorem twoMounts_normalised : ∀ k ∈ twoMounts.mountPoints.keys, Normalised k := by
  have hkeys : twoMounts.mountPoints.keys = [['/', 'm', 'n', 't'], ['/']] := rfl
  rw [hkeys, List.forall_mem_cons, List.forall_mem_singleton]
  exact ⟨.inr ⟨[['m', 'n', 't']], by decide, by decide, rfl⟩, .inl rfl⟩

theorem twoMounts_resolves : resolved twoMounts ['/', 'm', 'n', 't', '/', 'a'] =
    byComponents twoMounts [['m', 'n', 't'], ['a']] := by
  refine (resolution_iff twoMounts ['/', 'm', 'n', 't', '/', 'a'] twoMounts_normalised
    (by decide)).1.mpr ?_
  have hmount : longestMount twoMounts.mountPoints.keys (components ['/', 'm', 'n', 't', '/', 'a']) =
      some ['/', 'm', 'n', 't'] := by decide
  rw [SpelledOut, hmount]
  decide

/-- Neither a sibling of `/mnt` nor a second spelling of a path below it is resolved by names. -/
theorem twoMounts_misresolves :
    resolved twoMounts ['/', 'm', 'n', 't', 'x'] = .ok (['/', 'm', 'n', 't'], [['x']]) ∧
      byComponents twoMounts (components ['/', 'm', 'n', 't', 'x']) =
        .ok (['/'], [['m', 'n', 't', 'x']]) ∧
      resolved twoMounts ['/', '/', 'm', 'n', 't'] = .ok (['/'], [['m', 'n', 't']]) ∧
      byComponents twoMounts (components ['/', '/', 'm', 'n', 't']) =
        .ok (['/', 'm', 'n', 't'], []) := by
  decide +kernel

end DeltaOS.MountPaths
