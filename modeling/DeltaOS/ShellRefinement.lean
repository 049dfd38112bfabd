import DeltaOS.UserShell
import DeltaOS.Words

namespace DeltaOS.ShellRefinement

open CStrings Processes Processes.Proc UserShell Words

/-- What the shell is about: a directory, and whether it still reads commands. -/
structure Session where
  cwd : List Byte
  running : Bool

abbrev Spec (α : Type) := Proc Request Answer Session α

def chars (s : String) : List Byte := beforeZero (utf8 s)

def slash : List Byte := chars "/"

def say (bytes : List Byte) : Spec Unit := do
  let _ ← call (.print bytes)

def sayLine (bytes : List Byte) : Spec Unit := do
  say bytes
  let _ ← call (.print newline)

def sayLines : List String → Spec Unit
  | [] => pure ()
  | s :: lines => do
    sayLine (chars s)
    sayLines lines

/-- The commands work on the words of the line; the first one is the name of the command. -/
abbrev Args := List (List Byte)

def ls (args : Args) : Spec Unit := do
  let cwd ← eval fun s => some s.cwd
  let path := args[1]?.getD cwd
  let fd ← call (.open path 0)
  if fd.result.toInt < 0 then
    say (chars "ls: cannot open '")
    say path
    sayLine (chars "'")
  else
    let bytes ← call (.getdents fd.result 4096)
    sayLine (chars (listing bytes.result.toInt))
    let _ ← call (.close fd.result)

def catChunk (fd : Word) : Unit → Spec (Option Unit) := fun _ => do
  let bytes ← call (.read fd 512)
  if bytes.result.toInt ≤ 0 then
    pure none
  else
    let _ ← call (.print (bytes.bytes.take bytes.result.toNat))
    pure (some ())

def cat (args : Args) : Spec Unit :=
  match args[1]? with
  | none => sayLine (chars "cat: missing file operand")
  | some path => do
    let fd ← call (.open path 0)
    if fd.result.toInt < 0 then
      say (chars "cat: ")
      say path
      sayLine (chars ": No such file")
    else
      loop (catChunk fd.result) ()
      let _ ← call (.close fd.result)

/-- Where `cd` goes. A path that does not fit in the buffer of the shell is ignored. -/
def resolve (cwd path : List Byte) : List Byte :=
  if path.head? = some 47 then
    if path.length < 512 then path else cwd
  else if cwd.length + path.length + 2 < 512 then
    if cwd = slash then cwd ++ path else cwd ++ slash ++ path
  else
    cwd

def cd (args : Args) : Spec Unit :=
  match args[1]? with
  | none => update fun s => some { s with cwd := slash }
  | some path => update fun s => some { s with cwd := resolve s.cwd path }

def pwd : Spec Unit := do
  let cwd ← eval fun s => some s.cwd
  sayLine cwd

def mkdir (args : Args) : Spec Unit :=
  match args[1]? with
  | none => sayLine (chars "mkdir: missing operand")
  | some path => do
    let result ← call (.mkdir path 0o755)
    if result.result.toInt < 0 then
      say (chars "mkdir: cannot create '")
      say path
      sayLine (chars "'")
    else
      pure ()

def mountArgs (device path fstype : List Byte) : Spec Unit := do
  let result ← call (.mount device path fstype)
  if result.result.toInt < 0 then
    sayLine (chars "mount: failed")
  else
    say (chars "mount: ")
    say device
    say (chars " mounted at ")
    sayLine path

def mount (args : Args) : Spec Unit :=
  match args with
  | _ :: device :: path :: fstype :: _ => mountArgs device path fstype
  | _ => sayLine (chars "mount: usage: mount <device> <path> <fstype>")

/-- What `sysinfo` shows of a process identifier: at most its first digit. -/
def shownPid (pid : Nat) : List Byte :=
  if pid = 0 then [PidText.digitByte 0]
    else (PidText.digits pid).take (min 1 ((PidText.digits pid).length - 1))

def sysinfo : Spec Unit := do
  sayLines sysinfoLines
  let pid ← call .getpid
  say (chars "Current PID: ")
  sayLine (shownPid pid.result.toNat)

def help : Spec Unit := sayLines helpLines

def exit : Spec Unit := do
  sayLine (chars "Goodbye!")
  update fun s => some { s with running := false }

def unknown (cmd : List Byte) : Spec Unit := do
  say (chars "shell: unknown command: ")
  sayLine cmd

def commands : List (String × (Args → Spec Unit)) :=
  [("ls", ls), ("cat", cat), ("cd", cd), ("pwd", fun _ => pwd), ("mkdir", mkdir), ("mount", mount),
    ("sysinfo", fun _ => sysinfo), ("help", fun _ => help), ("exit", fun _ => exit)]

def select (cmd : List Byte) (args : Args) : List (String × (Args → Spec Unit)) → Spec Unit
  | [] => unknown cmd
  | (name, run) :: rest => if cmd = chars name then run args else select cmd args rest

def execute (args : Args) : Spec Unit :=
  match args with
  | [] => pure ()
  | cmd :: _ => select cmd args commands

def chomp (s : List Byte) : List Byte := if s.getLast? = some 10 then s.dropLast else s

def lineOf (a : Answer) : List Byte := if a.result.toInt < 0 then [] else chomp (beforeZero a.bytes)

def prompt : Spec Unit := do
  say (chars "deltaos:")
  let cwd ← eval fun s => some s.cwd
  say cwd
  say (chars "$ ")

/-- A line is read and the command of its first 16 words is executed. -/
def interact : Spec Unit := do
  prompt
  let a ← call (.readline 1024)
  execute ((words (lineOf a)).take 16)

def rootMounted (result : Int) : Spec Unit :=
  if result < 0 then do
    sayLine (chars "[init] WARNING: NTFS mount failed, using ramfs")
    let _ ← call (.mount (chars "none") slash (chars "ramfs"))
  else
    sayLine (chars "[init] NTFS mounted at /")

def makeDirs : List (String × Nat) → Spec Unit
  | [] => pure ()
  | (path, mode) :: rest => do
    let _ ← call (.mkdir (chars path) mode)
    makeDirs rest

/-- What `init` shows of its process identifier: all digits but the last one. -/
def shownInitPid (pid : Nat) : List Byte :=
  if pid = 0 then [PidText.digitByte 0]
  else if (PidText.digits pid).length = 15 then [] else (PidText.digits pid).dropLast

/-- What `init` does before it starts the shell. -/
def setUp : Spec Unit := do
  sayLines initLines
  say (chars "[init] PID: ")
  let pid ← call .getpid
  sayLine (shownInitPid pid.result.toNat)
  sayLine (chars "[init] Mounting NTFS root filesystem...")
  let mountResult ← call (.mount (chars "/dev/sda1") slash (chars "ntfs"))
  rootMounted mountResult.result.toInt
  sayLine (chars "[init] Creating base directories...")
  makeDirs baseDirs
  sayLine (chars "[init] Base directories created")
  let _ ← call (.mount (chars "none") (chars "/dev") (chars "devfs"))
  let _ ← call (.mount (chars "none") (chars "/proc") (chars "procfs"))
  sayLine (chars "[init] Virtual filesystems mounted")
  sayLine (chars "[init] Starting shell...")

/-- What is left when the shell has been left: messages without an end. No line is read any more. -/
def ended : Spec Unit := do
  sayLine (chars "[init] Shell exited, restarting...")
  forever do
    sayLines banner
    sayLine (chars "[init] Shell crashed, respawning...")

def userSpace : Spec Unit := do
  setUp
  sayLines banner
  whileLoop (·.running) interact
  ended

def Session.initial : Session := ⟨slash, true⟩

/-- What the programs rely on: the kernel writes no more than there is room for, ends a line with a
terminator, has read what it says it has, and has no process identifiers of more than 15 digits. -/
def Keeps (r : Request) (a : Answer) : Prop :=
  a.bytes.length ≤ r.room ∧
  match r with
  | .readline _ => 0 ≤ a.result.toInt → 0 ∈ a.bytes
  | .read _ _ => a.result.toInt ≤ a.bytes.length
  | .getpid => a.result.toNat < 10 ^ 15
  | _ => True

/-- The directory is in `g_cwd`. -/
structure Agrees (m : Mem) (s : Session) : Prop where
  cwd : (gCwd m).Is s.cwd
  absolute : s.cwd.head? = some 47
  running : m.gRunning = s.running

section rules

variable {P : Mem → Session → Prop} {p : Ptr} {s : List Byte} {k : Nat} {α β : Type}
    {f : List Byte → Program α} {q : Spec β}
  {Q : α → β → Mem → Session → Prop}

theorem refines_string (h : ∀ m t, P m t → (p m).Is s) (hnext : Refines Keeps Agrees P k (f s) q Q) :
    Refines Keeps Agrees P k (string p >>= f) q Q := by
  refine Refines.eval_left (V := fun c m t => c = s ∧ P m t) (fun m t hp => ⟨s, ?_, rfl, hp⟩) fun c => ?_
  · rw [strlen_eq (h m t hp), Option.bind_eq_bind, Option.bind_some, (h m t hp).take]
  · refine Refines.of_pre (fun _ _ hp => hp.1) ?_
    rintro rfl
    exact hnext.conseq (Nat.le_refl _) (fun _ _ hp => hp.2) fun _ _ _ _ hq => hq

theorem refines_syscall (hP : ∀ m t, P m t → Agrees m t) (r : Request) :
    Refines Keeps Agrees P 1 (syscall r) (call r) fun a b m t => (a = b ∧ Keeps r b) ∧ P m t := by
  rw [← bind_pure (call r : Spec Answer)]
  refine Refines.bind (l := 0) (Refines.call r hP) fun a b => ?_
  refine Refines.eval_pure ?_
  rintro m t ⟨rfl, hkeeps, hp⟩
  exact ⟨a, if_pos hkeeps.1, ⟨rfl, hkeeps⟩, hp⟩

theorem refines_answer (hP : ∀ m t, P m t → Agrees m t) (r : Request) {f : Answer → Program α}
    {g : Answer → Spec β} (h : ∀ a, Keeps r a → Refines Keeps Agrees P 0 (f a) (g a) Q) :
    Refines Keeps Agrees P 1 (syscall r >>= f) (call r >>= g) Q := by
  refine Refines.seq (refines_syscall hP r) fun a b => Refines.of_pre (fun _ _ hp => hp.1) ?_
  rintro ⟨rfl, hkeeps⟩
  exact (h a hkeeps).conseq (Nat.le_refl _) (fun _ _ hp => hp.2) fun _ _ _ _ hq => hq

theorem refines_print (hP : ∀ m t, P m t → Agrees m t) (h : ∀ m t, P m t → (p m).Is s) :
    Refines Keeps Agrees P 1 (print p) (say s) fun _ _ => P := by
  refine refines_string h ?_
  exact refines_answer hP _ fun _ _ => Refines.pure fun m t hp => hp

theorem refines_println (hP : ∀ m t, P m t → Agrees m t) (h : ∀ m t, P m t → (p m).Is s) :
    Refines Keeps Agrees P 1 (println p) (sayLine s) fun _ _ => P := by
  refine Refines.seq (refines_print hP h) fun _ _ => ?_
  exact (refines_answer hP _ fun _ _ => Refines.pure fun m t hp => hp).any

theorem refines_lastLine (hP : ∀ m t, P m t → Agrees m t) (h : ∀ m t, P m t → (p m).Is s) :
    Refines Keeps Agrees P 0 (println p) (sayLine s) fun _ _ => Agrees :=
  (refines_println hP h).conseq (Nat.zero_le _) (fun _ _ hp => hp) fun _ _ => hP

theorem refines_lines (hP : ∀ m t, P m t → Agrees m t) (lines : List String) :
    Refines Keeps Agrees P 0 (printLines lines) (sayLines lines) fun _ _ => P := by
  induction lines with
  | nil => exact Refines.pure fun m t hp => hp
  | cons line lines ih =>
    exact (Refines.seq (refines_println hP fun _ _ _ => literal_is _)
      fun _ _ => ih).any

end rules

/-- A command is executed: its tokens are the words of the line. -/
structure Given (args : TokenList) (ws : Args) (m : Mem) (t : Session) : Prop where
  agrees : Agrees m t
  tokens : List.Forall₂ (fun i w => (gInputLine i m).Is w) args ws
  nonempty : ∀ w ∈ ws, w ≠ []

def Performs (run : TokenList → Program Unit) (spec : Args → Spec Unit) : Prop :=
  ∀ args ws, Refines Keeps Agrees (Given args ws) 0 (run args) (spec ws) fun _ _ => Agrees

section commands

variable {args : TokenList} {ws : Args} {m : Mem} {t : Session}

theorem Given.get (h : Given args ws m t) (k : Nat) : (args[k]? = none ∧ ws[k]? = none) ∨
    ∃ i w, args[k]? = some i ∧ ws[k]? = some w := by
  have hlen := h.tokens.length_eq
  by_cases hk : k < args.length
  · exact .inr ⟨args[k], ws[k], List.getElem?_eq_getElem hk, List.getElem?_eq_getElem (hlen ▸ hk)⟩
  · exact .inl ⟨List.getElem?_eq_none (not_lt.mp hk), List.getElem?_eq_none (hlen ▸ not_lt.mp hk)⟩

theorem Given.token (h : Given args ws m t) {k i : Nat} {w : List Byte} (hi : args[k]? = some i)
    (hw : ws[k]? = some w) : (gInputLine i m).Is w := by
  obtain ⟨hk, rfl⟩ := List.getElem?_eq_some_iff.mp hi
  obtain ⟨hk', rfl⟩ := List.getElem?_eq_some_iff.mp hw
  exact List.Forall₂.get h.tokens hk hk'

theorem Given.token_ne_nil (h : Given args ws m t) {k : Nat} {w : List Byte}
    (hw : ws[k]? = some w) : w ≠ [] :=
  h.nonempty w (List.mem_of_getElem? hw)

theorem ls_performs : Performs cmdLs ls := by
  intro args ws
  -- the path is a token or the directory, which the specification reads first
  refine Refines.eval_right (V := fun cwd m t => Given args ws m t ∧ t.cwd = cwd)
    (fun m t h => ⟨_, rfl, h, rfl⟩) fun cwd => ?_
  have hP : ∀ m t, (Given args ws m t ∧ t.cwd = cwd) → Agrees m t := fun _ _ h => h.1.agrees
  have hpath : ∀ m t, (Given args ws m t ∧ t.cwd = cwd) →
      (lsPath args m).Is (ws[1]?.getD cwd) := by
    rintro m t ⟨h, rfl⟩
    obtain ⟨hi, hw⟩ | ⟨i, w, hi, hw⟩ := h.get 1
    · rw [lsPath, hi, hw]
      exact h.agrees.cwd
    · rw [lsPath, hi, hw]
      exact h.token hi hw
  simp only [cmdLs, sysOpen, bind_assoc]
  refine refines_string hpath ?_
  refine (refines_answer hP _ fun fd _ => ?_).any
  split_ifs with hfd
  · refine (Refines.seq (refines_print hP fun _ _ _ => literal_is _) fun _ _ => ?_).any
    refine (Refines.seq (refines_print hP hpath) fun _ _ => ?_).any
    exact refines_lastLine hP fun _ _ _ => literal_is _
  · refine (refines_answer hP _ fun bytes _ => ?_).any
    refine (Refines.seq (refines_println hP fun _ _ _ => literal_is _) fun _ _ => ?_).any
    exact (refines_answer hP _ fun _ _ => Refines.pure hP).any

theorem toNat_of_pos {v : Word} (h : 0 < v.toInt) : (v.toNat : Int) = v.toInt := by
  rw [BitVec.toInt_eq_toNat_cond] at h ⊢
  split_ifs at h ⊢ with hlt
  · rfl
  · have := v.isLt
    omega

theorem refines_catRound {P : Mem → Session → Prop} (hP : ∀ m t, P m t → Agrees m t) (fd : Word)
    (buffer : Buffer) (u : Unit) :
    Refines Keeps Agrees P 1 (catRound fd buffer) (catChunk fd u) (Round (fun _ _ => P) P) := by
  refine refines_answer hP _ fun bytes hkeeps => ?_
  have ⟨hroom, hread⟩ : bytes.bytes.length ≤ 512 ∧ bytes.result.toInt ≤ bytes.bytes.length := hkeeps
  dsimp only
  split_ifs with hend
  · exact Refines.pure fun m t hp => hp
  · have hlen := toNat_of_pos (not_le.mp hend)
    refine Refines.eval_left (V := fun chunk m t => chunk = bytes.bytes.take bytes.result.toNat ∧ P m t)
      (fun m t hp => ⟨_, take_overlay (by omega) hroom, rfl, hp⟩) fun chunk => ?_
    refine Refines.of_pre (fun _ _ hp => hp.1) ?_
    rintro rfl
    refine ((refines_answer hP _ fun _ _ => ?_).conseq (Nat.zero_le _) (fun _ _ hp => hp.2)
      fun _ _ _ _ hq => hq)
    exact Refines.pure fun m t hp => hp

theorem cat_performs : Performs cmdCat cat := by
  intro args ws
  have hP : ∀ m t, Given args ws m t → Agrees m t := fun _ _ h => h.agrees
  refine Refines.of_pre (fun _ _ h => h.get 1) ?_
  rintro (⟨hi, hw⟩ | ⟨i, w, hi, hw⟩) <;> simp only [cmdCat, cat, hi, hw]
  · exact refines_lastLine hP fun _ _ _ => literal_is _
  · have hpath : ∀ m t, Given args ws m t → (gInputLine i m).Is w := fun _ _ h => h.token hi hw
    simp only [sysOpen, bind_assoc]
    refine refines_string hpath ?_
    refine (refines_answer hP _ fun fd _ => ?_).any
    split_ifs with hfd
    · refine (Refines.seq (refines_print hP fun _ _ _ => literal_is _) fun _ _ => ?_).any
      refine (Refines.seq (refines_print hP hpath) fun _ _ => ?_).any
      exact refines_lastLine hP fun _ _ _ => literal_is _
    · refine Refines.eval_left (V := fun _ => Given args ws) (fun m t h => ⟨_, rfl, h⟩) fun buffer => ?_
      refine (Refines.seq (Refines.loop (refines_catRound hP fd.result) buffer ()) fun _ _ => ?_).any
      exact (refines_answer hP _ fun _ _ => Refines.pure hP).any

theorem slash_is : (literal (utf8 "/")).Is slash := literal_is _

theorem slash_eq : slash = [47] := by decide

section directories

variable {path : Ptr} {w : List Byte}

theorem setCwd_eq (hrun : m.gRunning = t.running) {f : Mem → Option Buffer}
    {cwd : List Byte} {b : Buffer}
    (hf : f m = some b) (hb : Str.Is ⟨512, b, 0⟩ cwd) (habs : cwd.head? = some 47) :
    setCwd f m = some { m with gCwd := b } ∧ Agrees { m with gCwd := b } { t with cwd := cwd } :=
  ⟨by rw [setCwd, hf]; rfl, hb, habs, hrun⟩

theorem head?_append_of_absolute {cwd rest : List Byte} (h : cwd.head? = some 47) :
    (cwd ++ rest).head? = some 47 := by
  rw [List.head?_append, h]
  rfl

theorem goHome (h : Agrees m t) :
    ∃ m', setCwd (fun m => strcpy (gCwd m) (literal (utf8 "/"))) m = some m' ∧
      Agrees m' { t with cwd := slash } := by
  obtain ⟨b, hcopy, hb⟩ := strcpy_eq (p := gCwd m) slash_is
    (by rw [slash_eq]; exact (by decide : 0 + 1 < 512))
  exact ⟨_, setCwd_eq h.running hcopy hb (by rw [slash_eq]; rfl)⟩

theorem appendPath_eq (h : Agrees m t) (hpath : ∀ b, (path { m with gCwd := b }).Is w)
    (hlen : t.cwd.length + w.length + 2 < 512) :
    ∃ m', (do
        let d ← strcmp (gCwd m) (literal (utf8 "/"))
        let m ← if d ≠ 0 then setCwd (fun m => strcat (gCwd m) (literal (utf8 "/"))) m else some m
        setCwd (fun m => strcat (gCwd m) (path m)) m) = some m' ∧
      Agrees m' { t with cwd := if t.cwd = slash then t.cwd ++ w else t.cwd ++ slash ++ w } := by
  have hone : slash.length = 1 := by rw [slash_eq]; rfl
  obtain ⟨d, hd, hiff⟩ := strcmp_eq_zero_iff h.cwd slash_is
  simp only [hd, Option.bind_eq_bind, Option.bind_some, ne_eq, hiff]
  split_ifs with hslash
  · obtain ⟨b, hcat, hb⟩ := strcat_eq h.cwd (hpath m.gCwd)
      (by rw [gCwd, Nat.zero_add, List.length_append]; dsimp only; omega)
    exact ⟨_, setCwd_eq h.running hcat hb (head?_append_of_absolute h.absolute)⟩
  · obtain ⟨b, hcat, hb⟩ := strcat_eq h.cwd slash_is
      (by rw [gCwd, Nat.zero_add, List.length_append]; dsimp only; omega)
    have habs : (t.cwd ++ slash).head? = some 47 := head?_append_of_absolute h.absolute
    obtain ⟨hset, hnext⟩ := setCwd_eq (f := fun m => strcat (gCwd m) (literal (utf8 "/")))
      h.running hcat hb habs
    obtain ⟨b', hcat', hb'⟩ := strcat_eq hnext.cwd (hpath b)
      (by rw [gCwd, Nat.zero_add, List.length_append, List.length_append]; dsimp only; omega)
    rw [hset, Option.bind_some]
    exact ⟨_, setCwd_eq hnext.running hcat' hb' (head?_append_of_absolute habs)⟩

theorem changeDir_eq (h : Agrees m t) (hpath : ∀ b, (path { m with gCwd := b }).Is w) (hne : w ≠ []) :
    ∃ m', changeDir path m = some m' ∧ Agrees m' { t with cwd := resolve t.cwd w } := by
  have hw : (path m).Is w := hpath m.gCwd
  have hcwd : (gCwd m).Is t.cwd := h.cwd
  have hhead : w.getD 0 0 = 47 ↔ w.head? = some 47 := by
    obtain ⟨c, w', rfl⟩ := List.exists_cons_of_ne_nil hne
    simp
  have hsame : Agrees m { t with cwd := t.cwd } := h
  simp only [changeDir, hw.load (Nat.zero_le _), strlen_eq hw, strlen_eq hcwd, Option.bind_eq_bind,
    Option.bind_some, hhead, resolve]
  by_cases habs : w.head? = some 47
  · simp only [if_pos habs]
    split_ifs with hlen
    · obtain ⟨b, hcopy, hb⟩ := strcpy_eq (p := gCwd m) hw (by rw [gCwd, Nat.zero_add]; exact hlen)
      exact ⟨_, setCwd_eq h.running hcopy hb habs⟩
    · exact ⟨m, rfl, hsame⟩
  · simp only [if_neg habs]
    by_cases hlen : t.cwd.length + w.length + 2 < 512
    · simp only [if_pos hlen]
      exact appendPath_eq h hpath hlen
    · simp only [if_neg hlen]
      exact ⟨m, rfl, hsame⟩

theorem cd_performs : Performs cmdCd cd := by
  intro args ws
  refine Refines.of_pre (fun _ _ h => h.get 1) ?_
  rintro (⟨hi, hw⟩ | ⟨i, w, hi, hw⟩) <;> simp only [cmdCd, cd, hi, hw]
  · refine Refines.update fun m t h => ?_
    obtain ⟨m', hrun, hnext⟩ := goHome h.agrees
    exact ⟨m', _, hrun, rfl, hnext⟩
  · refine Refines.update fun m t h => ?_
    have hpath : ∀ b, (gInputLine i { m with gCwd := b }).Is w := fun _ => h.token hi hw
    obtain ⟨m', hrun, hnext⟩ := changeDir_eq h.agrees hpath (h.token_ne_nil hw)
    exact ⟨m', _, hrun, rfl, hnext⟩

end directories

theorem pwd_performs : Performs (fun _ => cmdPwd) fun _ => pwd := by
  intro args ws
  refine Refines.eval_right (V := fun cwd m t => Agrees m t ∧ t.cwd = cwd)
    (fun m t h => ⟨_, rfl, h.agrees, rfl⟩) fun cwd => ?_
  refine refines_lastLine (fun _ _ h => h.1) ?_
  rintro m t ⟨h, rfl⟩
  exact h.cwd

theorem mkdir_performs : Performs cmdMkdir mkdir := by
  intro args ws
  have hP : ∀ m t, Given args ws m t → Agrees m t := fun _ _ h => h.agrees
  refine Refines.of_pre (fun _ _ h => h.get 1) ?_
  rintro (⟨hi, hw⟩ | ⟨i, w, hi, hw⟩) <;> simp only [cmdMkdir, mkdir, hi, hw]
  · exact refines_lastLine hP fun _ _ _ => literal_is _
  · have hpath : ∀ m t, Given args ws m t → (gInputLine i m).Is w := fun _ _ h => h.token hi hw
    simp only [sysMkdir, bind_assoc]
    refine refines_string hpath ?_
    refine (refines_answer hP _ fun result _ => ?_).any
    split_ifs with hresult
    · refine (Refines.seq (refines_print hP fun _ _ _ => literal_is _) fun _ _ => ?_).any
      refine (Refines.seq (refines_print hP hpath) fun _ _ => ?_).any
      exact refines_lastLine hP fun _ _ _ => literal_is _
    · exact Refines.pure hP

theorem exists_four {α : Type} {l : List α} (h : 4 ≤ l.length) :
    ∃ a b c d l', l = a :: b :: c :: d :: l' := by
  rcases l with _ | ⟨a, _ | ⟨b, _ | ⟨c, _ | ⟨d, l⟩⟩⟩⟩
  iterate 4 exact absurd h (by simp)
  exact ⟨a, b, c, d, l, rfl⟩

theorem cmdMount_of_lt (h : args.length < 4) :
    cmdMount args = println (lit "mount: usage: mount <device> <path> <fstype>") := by
  rcases args with _ | ⟨a, _ | ⟨b, _ | ⟨c, _ | ⟨d, l⟩⟩⟩⟩
  iterate 4 rfl
  exact absurd h (by simp)

theorem mount_of_lt (h : ws.length < 4) :
    mount ws = sayLine (chars "mount: usage: mount <device> <path> <fstype>") := by
  rcases ws with _ | ⟨a, _ | ⟨b, _ | ⟨c, _ | ⟨d, l⟩⟩⟩⟩
  iterate 4 rfl
  exact absurd h (by simp)

theorem refines_mountArgs {P : Mem → Session → Prop} {device path fstype : Ptr}
    {device' path' fstype' : List Byte}
    (hP : ∀ m t, P m t → Agrees m t) (hdevice : ∀ m t, P m t → (device m).Is device')
    (hpath : ∀ m t, P m t → (path m).Is path') (hfstype : ∀ m t, P m t → (fstype m).Is fstype') :
    Refines Keeps Agrees P 0 (UserShell.mountArgs device path fstype) (mountArgs device' path' fstype')
      fun _ _ => Agrees := by
  simp only [UserShell.mountArgs, mountArgs, sysMount, bind_assoc]
  refine refines_string hdevice (refines_string hpath (refines_string hfstype ?_))
  refine (refines_answer hP _ fun result _ => ?_).any
  split_ifs with hresult
  · exact refines_lastLine hP fun _ _ _ => literal_is _
  · refine (Refines.seq (refines_print hP fun _ _ _ => literal_is _) fun _ _ => ?_).any
    refine (Refines.seq (refines_print hP hdevice) fun _ _ => ?_).any
    refine (Refines.seq (refines_print hP fun _ _ _ => literal_is _) fun _ _ => ?_).any
    exact refines_lastLine hP hpath

theorem mount_performs : Performs cmdMount mount := by
  intro args ws
  have hP : ∀ m t, Given args ws m t → Agrees m t := fun _ _ h => h.agrees
  refine Refines.of_pre (fun _ _ h => h.tokens.length_eq) fun hlen => ?_
  obtain hlt | hge := Nat.lt_or_ge args.length 4
  · rw [cmdMount_of_lt hlt, mount_of_lt (by omega)]
    exact refines_lastLine hP fun _ _ _ => literal_is _
  · obtain ⟨a, device, path, fstype, args, rfl⟩ := exists_four hge
    obtain ⟨w, device', path', fstype', ws, rfl⟩ := exists_four (show 4 ≤ ws.length by omega)
    exact refines_mountArgs hP (fun _ _ h => h.token (k := 1) rfl rfl)
      (fun _ _ h => h.token (k := 2) rfl rfl)
      fun _ _ h => h.token (k := 3) rfl rfl

section pids

variable {pid : Nat}

theorem sysinfoPid_is (h : pid < 10 ^ 15) :
    ∃ buf, PidText.sysinfoPid pid = some buf ∧ Str.Is ⟨16, buf, 0⟩ (shownPid pid) := by
  obtain rfl | hpos := eq_or_ne pid 0
  · exact ⟨_, rfl, by decide, by decide, rfl, by decide⟩
  · obtain ⟨buf, hrun, htext⟩ := PidText.sysinfoPid_text hpos h
    refine ⟨buf, hrun, ?_⟩
    rw [shownPid, if_neg hpos, ← htext]
    refine text_is ?_
    rw [htext, List.length_take]
    omega

theorem initPid_is (h : pid < 10 ^ 15) :
    ∃ buf, PidText.initPid pid = some buf ∧ Str.Is ⟨16, buf, 0⟩ (shownInitPid pid) := by
  obtain rfl | hpos := eq_or_ne pid 0
  · exact ⟨_, rfl, by decide, by decide, rfl, by decide⟩
  · obtain ⟨buf, hrun, htext⟩ := PidText.initPid_text hpos h
    have hlen := PidText.length_digits h
    refine ⟨buf, hrun, ?_⟩
    rw [shownInitPid, if_neg hpos, ← htext]
    refine text_is ?_
    rw [htext]
    split_ifs
    · decide
    · rw [List.length_dropLast]
      omega

end pids

theorem pidBuf_eq {pid : Word} (h : pid.toNat < 10 ^ 15) :
    pidBuf pid = PidText.sysinfoPid pid.toNat := by
  refine if_neg ?_
  rw [BitVec.toInt_eq_toNat_of_lt (by omega)]
  omega

theorem refines_pid {P : Mem → Session → Prop} (hP : ∀ m t, P m t → Agrees m t) {buf : Option Buffer}
    {b : Buffer} {s : List Byte}
    (hbuf : buf = some b) (h : Str.Is ⟨16, b, 0⟩ s) {α β : Type} {Q : α → β → Mem → Session → Prop}
    {f : Unit → Program α} {g : Unit → Spec β} (hnext : Refines Keeps Agrees P 0 (f ()) (g ()) Q) :
    Refines Keeps Agrees P 0 (eval (fun _ => buf) >>= fun buf => println (fun _ => ⟨16, buf, 0⟩) >>= f)
    (sayLine s >>= g) Q := by
  refine Refines.eval_left (V := fun c m t => c = b ∧ P m t)
    (fun m t hp => ⟨b, hbuf, rfl, hp⟩) fun c => ?_
  refine Refines.of_pre (fun _ _ hp => hp.1) ?_
  rintro rfl
  refine (Refines.seq (refines_println (fun _ _ hp => hP _ _ hp.2) fun _ _ _ => h) fun _ _ => ?_).any
  exact hnext.conseq (Nat.le_refl _) (fun _ _ hp => hp.2) fun _ _ _ _ hq => hq

theorem sysinfo_performs : Performs (fun _ => cmdSysinfo) fun _ => sysinfo := by
  intro args ws
  have hP : ∀ m t, Given args ws m t → Agrees m t := fun _ _ h => h.agrees
  refine Refines.seq (refines_lines hP sysinfoLines) fun _ _ => ?_
  refine (refines_answer hP _ fun pid hkeeps => ?_).any
  refine (Refines.seq (refines_print hP fun _ _ _ => literal_is _) fun _ _ => ?_).any
  obtain ⟨buf, hbuf, his⟩ := sysinfoPid_is hkeeps.2
  rw [pidBuf_eq hkeeps.2]
  have hshow := refines_pid hP hbuf his (f := Pure.pure) (g := Pure.pure) (Q := fun _ _ => Agrees)
    (Refines.pure hP)
  simpa only [bind_pure] using hshow

theorem help_performs : Performs (fun _ => cmdHelp) fun _ => help := by
  intro args ws
  exact (refines_lines (fun _ _ h => h.agrees) helpLines).conseq (Nat.le_refl _) (fun _ _ h => h)
    fun _ _ _ _ h => h.agrees

theorem exit_performs : Performs (fun _ => cmdExit) fun _ => exit := by
  intro args ws
  have hP : ∀ m t, Given args ws m t → Agrees m t := fun _ _ h => h.agrees
  refine (Refines.seq (refines_println hP fun _ _ _ => literal_is _) fun _ _ => ?_).any
  exact Refines.update fun m t h => ⟨_, _, rfl, rfl, h.agrees.cwd, h.agrees.absolute, rfl⟩

theorem refines_select {cs : List (String × (TokenList → Program Unit))}
    {ss : List (String × (Args → Spec Unit))}
    (h : List.Forall₂ (fun c s => c.1 = s.1 ∧ Performs c.2 s.2) cs ss) {cmd : Nat} {w : List Byte}
    (hcmd : args[0]? = some cmd) (hw : ws[0]? = some w) :
    Refines Keeps Agrees (Given args ws) 0 (UserShell.select cmd args cs)
    (select w ws ss) fun _ _ => Agrees := by
  have hP : ∀ m t, Given args ws m t → Agrees m t := fun _ _ h => h.agrees
  have htoken : ∀ m t, Given args ws m t → (gInputLine cmd m).Is w := fun _ _ h => h.token hcmd hw
  induction h with
  | nil =>
    refine (Refines.seq (refines_print hP fun _ _ _ => literal_is _) fun _ _ => ?_).any
    exact refines_lastLine hP htoken
  | @cons c s cs ss hc _ ih =>
    obtain ⟨hname, hrun⟩ := hc
    refine Refines.eval_left (V := fun d m t => (d = 0 ↔ w = chars s.1) ∧
      Given args ws m t) ?_ fun d => ?_
    · intro m t h
      obtain ⟨d, hd, hiff⟩ := strcmp_eq_zero_iff (htoken m t h) (literal_is (utf8 c.1))
      rw [← hname]
      exact ⟨d, hd, hiff, h⟩
    · refine Refines.of_pre (fun _ _ h => h.1) fun hiff => ?_
      rw [select]
      simp only [hiff]
      split_ifs with heq
      · exact (hrun args ws).conseq (Nat.le_refl _) (fun _ _ h => h.2) fun _ _ _ _ hq => hq
      · exact ih.conseq (Nat.le_refl _) (fun _ _ h => h.2) fun _ _ _ _ hq => hq

theorem commands_perform : List.Forall₂ (fun c s => c.1 = s.1 ∧ Performs c.2 s.2) UserShell.commands
    commands := by
  refine .cons ⟨rfl, ls_performs⟩ (.cons ⟨rfl, cat_performs⟩ (.cons ⟨rfl, cd_performs⟩ ?_))
  refine .cons ⟨rfl, pwd_performs⟩ (.cons ⟨rfl, mkdir_performs⟩ (.cons ⟨rfl, mount_performs⟩ ?_))
  exact .cons ⟨rfl, sysinfo_performs⟩ (.cons ⟨rfl, help_performs⟩ (.cons ⟨rfl, exit_performs⟩ .nil))

theorem execute_performs : Performs executeCommand execute := by
  intro args ws
  have hP : ∀ m t, Given args ws m t → Agrees m t := fun _ _ h => h.agrees
  refine Refines.of_pre (fun _ _ h => h.tokens.length_eq) fun hlen => ?_
  cases args with
  | nil =>
    obtain rfl : ws = [] := List.eq_nil_of_length_eq_zero hlen.symm
    exact Refines.pure hP
  | cons cmd args =>
    cases ws with
    | nil => exact absurd hlen (Nat.succ_ne_zero _)
    | cons w ws => exact refines_select commands_perform rfl rfl

end commands

section lines

variable {m : Mem} {t : Session} {a : Answer}

theorem chomp_eq {s : List Byte} (hpos : 0 < s.length) :
    chomp s = if s.getD (s.length - 1) 0 = 10 then s.dropLast else s := by
  have hlast : s.getLast? = some (s.getD (s.length - 1) 0) := by
    rw [List.getLast?_eq_getElem?, List.getD_eq_getElem _ _ (by omega), List.getElem?_eq_getElem]
  simp only [chomp, hlast, Option.some.injEq]

theorem endLine_eq (hkeeps : Keeps (.readline 1024) a) :
    ∃ line, endLine a.result { m with gInputLine := overlay m.gInputLine a.bytes } =
      some { m with gInputLine := line } ∧ Str.Is ⟨1024, line, 0⟩ (lineOf a) := by
  have ⟨hroom, hzero⟩ : a.bytes.length ≤ 1024 ∧ (0 ≤ a.result.toInt → 0 ∈ a.bytes) := hkeeps
  rw [endLine, lineOf]
  by_cases hneg : a.result.toInt < 0
  · rw [if_pos hneg, if_pos hneg, store_eq (by decide)]
    exact ⟨_, rfl, nil_is (by decide)⟩
  · have his : Str.Is ⟨1024, overlay m.gInputLine a.bytes, 0⟩ (beforeZero a.bytes) :=
      overlay_is (hzero (not_lt.mp hneg)) hroom
    have hlen : strlen (gInputLine 0 { m with gInputLine := overlay m.gInputLine a.bytes }) =
      some (beforeZero a.bytes).length :=
      strlen_eq his
    rw [if_neg hneg, if_neg hneg, hlen, Option.bind_eq_bind, Option.bind_some]
    generalize overlay m.gInputLine a.bytes = b at his ⊢
    generalize beforeZero a.bytes = s at his ⊢
    obtain hpos | hnil := Nat.eq_zero_or_pos s.length |>.symm
    · have hfits : s.length < 1024 := by simpa using his.fits
      have hload : load 1024 b (s.length - 1) = some (s.getD (s.length - 1) 0) := by
        have hload := his.load (Nat.sub_le s.length 1)
        rwa [Str.load, Nat.zero_add] at hload
      have hstore : store 1024 b (s.length - 1) 0 = some _ := store_eq (by omega)
      have hdrop := his.dropLast hpos
      rw [Nat.zero_add] at hdrop
      simp only [if_pos hpos, hload, hstore, chomp_eq hpos, Option.bind_eq_bind, Option.bind_some]
      split_ifs with hlast
      · exact ⟨_, rfl, hdrop⟩
      · exact ⟨b, rfl, his⟩
    · obtain rfl := List.eq_nil_of_length_eq_zero hnil
      exact ⟨b, rfl, his⟩

end lines

theorem refines_prompt : Refines Keeps Agrees Agrees 1 showPrompt prompt fun _ _ => Agrees := by
  refine Refines.seq (refines_print (fun _ _ h => h) fun _ _ _ => literal_is _) fun _ _ => ?_
  refine Refines.eval_right (V := fun cwd m t => Agrees m t ∧ t.cwd = cwd)
    (fun m t h => ⟨_, rfl, h, rfl⟩) fun cwd => ?_
  have hP : ∀ m t, (Agrees m t ∧ t.cwd = cwd) → Agrees m t := fun _ _ h => h.1
  refine (Refines.seq (refines_print hP ?_) fun _ _ => ?_).any
  · rintro m t ⟨h, rfl⟩
    exact h.cwd
  · exact (refines_print hP fun _ _ _ => literal_is _).conseq (Nat.zero_le _) (fun _ _ h => h) fun _ _ =>
      hP

theorem refines_round : Refines Keeps Agrees Agrees 1 shellRound interact fun _ _ => Agrees := by
  simp only [shellRound, readLine, tokenize, bind_assoc, pure_bind]
  refine Refines.seq refines_prompt fun _ _ => ?_
  refine (refines_answer (fun _ _ h => h) _ fun a hkeeps => ?_).any
  -- the line, then its tokens
  refine Refines.update_left (V := fun m t => ∃ b, m.gInputLine = overlay b a.bytes ∧ Agrees m t)
    (fun m t h => ⟨_, rfl, m.gInputLine, rfl, h.cwd, h.absolute, h.running⟩) ?_
  refine Refines.update_left (V := fun m t => Agrees m t ∧
    Str.Is ⟨1024, m.gInputLine, 0⟩ (lineOf a)) ?_ ?_
  · rintro m t ⟨b, hb, h⟩
    obtain ⟨line, hrun, hline⟩ := endLine_eq (m := { m with gInputLine := b }) hkeeps
    refine ⟨{ m with gInputLine := line }, ?_, ⟨h.cwd, h.absolute, h.running⟩, hline⟩
    rw [← hrun, ← hb]
  · refine Refines.eval_left (V := fun r m t => Agrees m t ∧
      List.Forall₂ (fun i w => Str.Is ⟨1024, r.2, i⟩ w) r.1 ((words (lineOf a)).take 16)) ?_ fun r => ?_
    · rintro m t ⟨h, hline⟩
      obtain ⟨result, after, hrun, htokens⟩ := tokenize_words hline
      exact ⟨(result, after), hrun, h, htokens⟩
    · refine Refines.update_left (V := Given r.1 ((words (lineOf a)).take 16)) ?_ (execute_performs _ _)
      rintro m t ⟨h, htokens⟩
      refine ⟨_, rfl, ⟨h.cwd, h.absolute, h.running⟩, htokens, ?_⟩
      exact fun w hw => ne_nil_of_mem_words (List.mem_of_mem_take hw)

theorem refines_session : Refines Keeps Agrees Agrees 0 (whileLoop (·.gRunning) shellRound)
    (whileLoop (·.running) interact) fun _ _ m t => Agrees m t ∧ m.gRunning = false :=
  Refines.whileLoop (fun _ _ h => h.running) (refines_round.conseq (Nat.le_refl _) (fun _ _ h => h.1)
    fun _ _ _ _ h => h)

section init

theorem refines_mount {α β : Type} {Q : α → β → Mem → Session → Prop} (device path fstype : String)
    {f : Answer → Program α}
    {g : Answer → Spec β} (h : ∀ a, Refines Keeps Agrees Agrees 0 (f a) (g a) Q) :
    Refines Keeps Agrees Agrees 0 (sysMount (lit device) (lit path) (lit fstype) >>= f)
      (call (.mount (chars device) (chars path) (chars fstype)) >>= g) Q := by
  simp only [sysMount, bind_assoc]
  refine refines_string (fun _ _ _ => literal_is _) (refines_string (fun _ _ _ => literal_is _) ?_)
  refine refines_string (fun _ _ _ => literal_is _) ?_
  exact (refines_answer (fun _ _ h => h) _ fun a _ => h a).any

theorem refines_line {α β : Type} {Q : α → β → Mem → Session → Prop} (line : String)
    {f : Unit → Program α} {g : Unit → Spec β} (h : Refines Keeps Agrees Agrees 0 (f ()) (g ()) Q) :
    Refines Keeps Agrees Agrees 0 (println (lit line) >>= f) (sayLine (chars line) >>= g) Q :=
  (Refines.seq (refines_println (fun _ _ h => h) fun _ _ _ => literal_is _) fun _ _ => h).any

theorem refines_rootMounted (result : Int) :
    Refines Keeps Agrees Agrees 0 (UserShell.rootMounted result)
    (rootMounted result) fun _ _ => Agrees := by
  simp only [UserShell.rootMounted, rootMounted]
  split_ifs
  · exact refines_line _ (refines_mount _ _ _ fun _ => Refines.pure (fun _ _ h => h))
  · exact refines_lastLine (fun _ _ h => h) fun _ _ _ => literal_is _

theorem refines_makeDirs (dirs : List (String × Nat)) :
    Refines Keeps Agrees Agrees 0 (UserShell.makeDirs dirs) (makeDirs dirs) fun _ _ => Agrees := by
  induction dirs with
  | nil => exact Refines.pure (fun _ _ h => h)
  | cons dir dirs ih =>
    simp only [UserShell.makeDirs, makeDirs, sysMkdir, bind_assoc]
    refine refines_string (fun _ _ _ => literal_is _) ?_
    exact (refines_answer (fun _ _ h => h) _ fun _ _ => ih).any

theorem refines_respawn : Refines Keeps Agrees (fun m t => Agrees m t ∧ m.gRunning = false) 1
    (do shellMain; println (lit "[init] Shell crashed, respawning..."))
    (do sayLines banner; sayLine (chars "[init] Shell crashed, respawning..."))
    fun _ _ m t => Agrees m t ∧ m.gRunning = false := by
  have hP : ∀ m t, (Agrees m t ∧ m.gRunning = false) → Agrees m t := fun _ _ h => h.1
  simp only [shellMain, bind_assoc]
  refine Refines.bind (k := 0) (l := 1) (refines_lines hP banner) fun _ _ => ?_
  rw [← pure_bind () fun _ => sayLine (chars "[init] Shell crashed, respawning...")]
  refine Refines.bind (k := 0) (l := 1) (Refines.whileLoop_skip fun m t h => h.2) fun _ _ => ?_
  exact refines_println hP fun _ _ _ => literal_is _

theorem refines_init : Refines Keeps Agrees Agrees 0 initMain userSpace fun _ _ _ _ => False := by
  simp only [initMain, userSpace, ended, setUp, bind_assoc]
  refine Refines.seq (refines_lines (fun _ _ h => h) initLines) fun _ _ => ?_
  refine (Refines.seq (refines_print (fun _ _ h => h) fun _ _ _ => literal_is _) fun _ _ => ?_).any
  refine (refines_answer (fun _ _ h => h) _ fun pid hkeeps => ?_).any
  obtain ⟨buf, hbuf, his⟩ := initPid_is hkeeps.2
  refine refines_pid (fun _ _ h => h) hbuf his (refines_line _ ?_)
  refine refines_mount _ _ _ fun mountResult => ?_
  refine Refines.seq (refines_rootMounted _) fun _ _ => refines_line _ ?_
  refine Refines.seq (refines_makeDirs _) fun _ _ => refines_line _ ?_
  refine refines_mount _ _ _ fun _ => refines_mount _ _ _ fun _ => refines_line _ (refines_line _ ?_)
  simp only [shellMain, bind_assoc]
  refine Refines.seq (refines_lines (fun _ _ h => h) banner) fun _ _ =>
    Refines.seq refines_session fun _ _ => ?_
  refine (Refines.seq (refines_println (fun _ _ h => h.1) fun _ _ _ => literal_is _) fun _ _ => ?_).any
  have hend := Refines.forever refines_respawn
  simpa only [shellMain, bind_assoc] using hend

end init

theorem initial_agrees (stack : Buffer) : Agrees (Mem.initial stack) Session.initial := by
  refine ⟨overlay_zero_is ?_, ?_, rfl⟩
  · exact (by decide : (utf8 "/").length < 512)
  · exact (congrArg List.head? slash_eq).trans rfl

theorem refines_start : Refines Keeps Agrees Agrees 0 start userSpace fun _ _ _ _ => False :=
  Refines.bind_of_false refines_init

theorem start_fits (kernel : List Request → Answer) (hk : Honest Keeps kernel)
    (stack : Buffer) (n : Nat) : let process := start kernel ⟨n, [], Mem.initial stack⟩
    let spec := userSpace kernel ⟨n, [], Session.initial⟩
    process.1 = .error .waiting ∧ process.2.trace = spec.2.trace ∧ Agrees process.2.mem spec.2.mem := by
  have hfits := refines_start kernel hk ⟨n, [], Mem.initial stack⟩ ⟨n, [], Session.initial⟩ ⟨rfl, rfl⟩
    (initial_agrees stack)
  dsimp only
  generalize start kernel ⟨n, [], Mem.initial stack⟩ = x at hfits ⊢
  generalize userSpace kernel ⟨n, [], Session.initial⟩ = y at hfits ⊢
  cases hfits with
  | done _ _ hpost => exact hpost.elim
  | waiting hlink hwait => exact ⟨rfl, hlink.trace, hwait⟩

theorem Agrees.shown {m : Mem} {t : Session} (h : Agrees m t) :
    m.gRunning = t.running ∧ text 512 m.gCwd 0 = t.cwd ∧ t.cwd.head? = some 47 :=
  ⟨h.running, h.cwd.text_eq, h.absolute⟩

/-- Over a kernel that keeps to the contract, and however many of its requests have been answered, the
process on its buffers has not left any of them, has not ended, and has made the requests of its
specification. -/
theorem start_refines_userSpace (kernel : List Request → Answer) (hk : Honest Keeps kernel)
    (stack : Buffer) (n : Nat) : let process := start kernel ⟨n, [], Mem.initial stack⟩
    let spec := userSpace kernel ⟨n, [], Session.initial⟩
    process.1 = .error .waiting ∧ process.2.trace = spec.2.trace ∧
      process.2.mem.gRunning = spec.2.mem.running ∧
      text 512 process.2.mem.gCwd 0 = spec.2.mem.cwd ∧ spec.2.mem.cwd.head? = some 47 := by
  obtain ⟨hwaits, htrace, hagrees⟩ := start_fits kernel hk stack n
  exact ⟨hwaits, htrace, hagrees.shown⟩

/-- A kernel on which every line is `exit`. -/
def exiting (trace : List Request) : Answer :=
  match trace.getLast? with
  | some (.readline size) => if 6 ≤ size then ⟨5, utf8 "exit\n" ++ [0]⟩ else ⟨-5, []⟩
  | _ => ⟨0, []⟩

theorem exiting_honest : Honest Keeps exiting := by
  intro trace r
  rw [exiting, List.getLast?_concat]
  cases r with
  | readline size =>
    dsimp only
    split_ifs with hsize
    · have hlen : (utf8 "exit\n" ++ [0]).length = 6 := by decide
      exact ⟨hlen.le.trans hsize, fun _ => by decide⟩
    · exact ⟨Nat.zero_le _, fun h => absurd h (by decide)⟩
  | read => exact ⟨Nat.zero_le _, (by decide : (0 : Word).toInt ≤ 0)⟩
  | getpid => exact ⟨Nat.zero_le _, (by decide : (0 : Word).toNat < 10 ^ 15)⟩
  | _ => exact ⟨Nat.zero_le _, trivial⟩

theorem exiting_refined : Honest Keeps exiting ∧
    (start exiting ⟨100, [], Mem.initial fun _ => 0⟩).2.trace =
      (userSpace exiting ⟨100, [], Session.initial⟩).2.trace :=
  ⟨exiting_honest, (start_refines_userSpace exiting exiting_honest (fun _ => 0) 100).2.1⟩

end DeltaOS.ShellRefinement
