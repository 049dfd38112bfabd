import DeltaOS.ShellRefinement
import DeltaOS.Syscalls

namespace DeltaOS.UserOnKernel

open Processes Processes.Proc UserShell ShellRefinement

/-- The number of a system call. -/
def nr : Request → Word
  | .read _ _ => 0
  | .open _ _ => 2
  | .close _ => 3
  | .mkdir _ _ => 6
  | .getdents _ _ => 8
  | .mount _ _ _ => 10
  | .exit _ => 21
  | .getpid => 23
  | .print _ => 100
  | .readline _ => 101

/-- What `rust_syscall_handler` answers. It writes to no buffer, and does not return from `exit`. -/
def Serves (r : Request) (a : Answer) : Prop :=
  a.bytes = [] ∧ ((∃ code, r = .exit code) ∨ ∃ mapped m out out' arg1 arg2 arg3,
    (∀ bytes, r = .print bytes → arg2 = BitVec.ofNat 64 bytes.length) ∧
    Syscalls.rustSyscallHandler mapped m out (nr r) arg1 arg2 arg3 = some (a.result, out'))

variable {a : Answer}

theorem Serves.failed {r : Request} (h : Serves r a)
    (hnr : ∀ mapped m out arg1 arg2 arg3,
      Syscalls.dispatch mapped m out (nr r) arg1 arg2 arg3 = some (.error .ioError, out)) :
    a.result = -5 := by
  obtain ⟨-, ⟨code, rfl⟩ | ⟨mapped, m, out, out', arg1, arg2, arg3, -, hserved⟩⟩ := h
  · have hexit := hnr (fun _ => true) (fun _ => 0) ⟨⟨0, 0, 0, fun _ => 0⟩, []⟩ 0 0 0
    cases hexit
  · rw [Syscalls.rustSyscallHandler, hnr] at hserved
    exact (congrArg Prod.fst (Option.some.inj hserved)).symm

theorem Serves.getpid (h : Serves .getpid a) : a.result = 1 := by
  obtain ⟨-, ⟨code, hcode⟩ | ⟨mapped, m, out, out', arg1, arg2, arg3, -, hserved⟩⟩ := h
  · cases hcode
  · exact (congrArg Prod.fst (Option.some.inj hserved)).symm

theorem Serves.keeps {r : Request} (h : Serves r a) : Keeps r a := by
  refine ⟨by rw [h.1]; exact Nat.zero_le _, ?_⟩
  cases r with
  | readline size =>
    rw [h.failed fun _ _ _ _ _ _ => rfl]
    exact fun hpos => absurd hpos (by decide)
  | read fd size =>
    rw [h.failed fun _ _ _ _ _ _ => rfl, h.1]
    exact (by decide : (-5 : Word).toInt ≤ 0)
  | getpid =>
    rw [h.getpid]
    exact (by decide : (1 : Word).toNat < 10 ^ 15)
  | _ => trivial

/-- The requests of a `println`. -/
def line (bytes : List Byte) : List Request := [.print bytes, .print newline]

def textLines (lines : List String) : List Request := lines.flatMap fun s => line (chars s)

/-- What `init` asks for before it starts the shell. Neither of the two root file systems can be
mounted. -/
def setUpRequests : List Request :=
  textLines initLines ++ [Request.print (chars "[init] PID: ")] ++ [Request.getpid] ++
    line (shownInitPid 1) ++
    line (chars "[init] Mounting NTFS root filesystem...") ++
      [Request.mount (chars "/dev/sda1") slash (chars "ntfs")] ++
    (line (chars "[init] WARNING: NTFS mount failed, using ramfs") ++
      [Request.mount (chars "none") slash (chars "ramfs")]) ++
    line (chars "[init] Creating base directories...") ++
      baseDirs.map (fun dir => Request.mkdir (chars dir.1) dir.2) ++
    line (chars "[init] Base directories created") ++
      [Request.mount (chars "none") (chars "/dev") (chars "devfs")] ++
    [Request.mount (chars "none") (chars "/proc") (chars "procfs")] ++
      line (chars "[init] Virtual filesystems mounted") ++
    line (chars "[init] Starting shell...")

def roundRequests : List Request :=
  [Request.print (chars "deltaos:")] ++ [Request.print slash] ++ [Request.print (chars "$ ")] ++
    [Request.readline 1024]

section requests

variable {P : Session → Prop}

theorem makes_request {r : Request} : Makes Serves P (call r : Spec Answer)
    [r] fun a m => Serves r a ∧ P m :=
  Makes.call fun _ _ hserves hp => ⟨hserves, hp⟩

theorem makes_say (bytes : List Byte) : Makes Serves P (say bytes) [.print bytes] fun _ => P :=
  Makes.last makes_request fun _ => Makes.pure fun _ hp => hp.2

theorem makes_sayLine (bytes : List Byte) : Makes Serves P (sayLine bytes) (line bytes) fun _ => P :=
  Makes.cons (makes_say bytes) fun _ => makes_say newline

theorem makes_sayLines (lines : List String) :
    Makes Serves P (sayLines lines) (textLines lines) fun _ => P := by
  induction lines with
  | nil => exact Makes.pure fun _ hp => hp
  | cons s lines ih => exact Makes.bind (makes_sayLine (chars s)) fun _ => ih

theorem makes_makeDirs (dirs : List (String × Nat)) :
    Makes Serves P (makeDirs dirs) (dirs.map fun dir => .mkdir (chars dir.1) dir.2) fun _ => P := by
  induction dirs with
  | nil => exact Makes.pure fun _ hp => hp
  | cons dir dirs ih =>
    exact Makes.cons makes_request fun _ => ih.conseq (fun _ hp => hp.2) fun _ _ hq => hq

theorem makes_rootMounted {a : Answer} (h : a.result = -5) : Makes Serves P (rootMounted a.result.toInt)
    (line (chars "[init] WARNING: NTFS mount failed, using ramfs") ++
      [.mount (chars "none") slash (chars "ramfs")])
    fun _ => P := by
  rw [ShellRefinement.rootMounted, h, if_pos (by decide)]
  refine Makes.bind (makes_sayLine _) fun _ => ?_
  exact Makes.last makes_request fun _ => Makes.pure fun _ hp => hp.2

theorem makes_setUp : Makes Serves P setUp setUpRequests fun _ => P := by
  have hP : ∀ {r : Request} (a : Answer) (m : Session), (Serves r a ∧ P m) → P m := fun _ _ hp => hp.2
  simp only [setUpRequests, List.append_assoc]
  refine Makes.bind (makes_sayLines _) fun _ => Makes.bind (makes_say _) fun _ => ?_
  refine Makes.bind makes_request fun pid => Makes.of_pre (fun _ hp => hp.1.getpid) fun hpid => ?_
  rw [hpid]
  refine (Makes.bind (makes_sayLine _) fun _ => Makes.bind (makes_sayLine _) fun _ => ?_).conseq (hP pid)
    fun _ _ hq => hq
  refine Makes.bind makes_request fun result =>
    Makes.of_pre (fun _ hp => hp.1.failed fun _ _ _ _ _ _ => rfl) fun hresult => ?_
  simp only [← List.append_assoc (line (chars "[init] WARNING: NTFS mount failed, using ramfs"))]
  refine (Makes.bind (makes_rootMounted hresult) fun _ => ?_).conseq (hP result) fun _ _ hq => hq
  refine Makes.bind (makes_sayLine _) fun _ => Makes.bind (makes_makeDirs _) fun _ => ?_
  refine Makes.bind (makes_sayLine _) fun _ =>
    Makes.bind (makes_request.conseq (fun _ hp => hp) hP) fun _ => ?_
  refine Makes.bind (makes_request.conseq (fun _ hp => hp) hP) fun _ =>
    Makes.bind (makes_sayLine _) fun _ => ?_
  exact makes_sayLine _

end requests

theorem execute_lineOf (h : a.result = -5) :
    execute ((Words.words (ShellRefinement.lineOf a)).take 16) = pure () := by
  have hline : ShellRefinement.lineOf a = [] := if_pos (by rw [h]; decide)
  rw [hline]
  rfl

theorem makes_interact :
    Makes Serves (· = Session.initial) interact roundRequests fun _ m => m = Session.initial := by
  simp only [interact, prompt, bind_assoc, roundRequests, List.append_assoc]
  refine Makes.bind (makes_say _) fun _ => ?_
  refine Makes.eval (a := slash) (fun m hm => by rw [hm]; rfl) ?_
  refine Makes.bind (makes_say _) fun _ => Makes.bind (makes_say _) fun _ => ?_
  refine Makes.last makes_request fun a => ?_
  refine Makes.of_pre (fun _ hp => hp.1.failed fun _ _ _ _ _ _ => rfl) fun hresult => ?_
  rw [execute_lineOf hresult]
  exact Makes.pure fun _ hp => hp.2

/-- On this kernel the user space only ever asks for lines: it prints its messages and then prompts
for `/`, again and again, and executes no command. -/
theorem user_space_prompts (kernel : List Request → Answer) (hk : Honest Serves kernel)
    (stack : CStrings.Buffer) (n : Nat) : let process := start kernel ⟨n, [], Mem.initial stack⟩
    process.1 = .error .waiting ∧
      process.2.trace = (setUpRequests ++ textLines banner ++ repeated roundRequests (n + 1)).take
        (n + 1) := by
  obtain ⟨hwaits, htrace, -⟩ := start_fits kernel (fun trace r => (hk trace r).keeps) stack n
  refine ⟨hwaits, htrace.trans ?_⟩
  have hopening : Makes Serves (· = Session.initial) (setUp >>= fun _ => sayLines banner)
      (setUpRequests ++ textLines banner)
      fun _ m => m = Session.initial := Makes.bind makes_setUp fun _ => makes_sayLines banner
  have hrunning : ∀ m : Session, m = Session.initial → m.running = true := fun m hm => by
    rw [hm]
    rfl
  rw [← hopening.bind_endless (f := fun _ => ended) hrunning makes_interact (by decide) hk n rfl,
    bind_assoc]
  rfl

def count : Request → Word
  | .print bytes => BitVec.ofNat 64 bytes.length
  | _ => 0

def handler (trace : List Request) : Answer :=
  match trace.getLast? with
  | some r => ⟨((Syscalls.result (nr r) 0 (count r) 0).map Syscalls.toWord).getD 0, []⟩
  | none => ⟨0, []⟩

theorem handler_serves : Honest Serves handler := by
  intro trace r
  rw [handler, List.getLast?_concat]
  refine ⟨rfl, ?_⟩
  cases hr : Syscalls.result (nr r) 0 (count r) 0 with
  | none =>
    cases r with
    | exit code => exact .inl ⟨code, rfl⟩
    | _ => cases hr
  | some result =>
    obtain ⟨s₀, -, hstart⟩ := VgaTerminal.vgaClear_follows ⟨0, 0, 0, fun _ => 0⟩
    have hs : Syscalls.Synced 0 ⟨s₀, []⟩ := hstart
    have hread : Syscalls.Readable (fun _ => true) (Syscalls.buffer (nr r) 0 (count r) 0) :=
      fun _ _ => rfl
    obtain ⟨out', hserved, -⟩ := hs.served (fun _ => 0) hr hread
    dsimp only
    rw [hr, Option.map_some, Option.getD_some]
    refine .inr ⟨_, _, _, out', 0, count r, 0, ?_, hserved⟩
    rintro bytes rfl
    rfl

theorem handler_prompts : Honest Serves handler ∧
    (start handler ⟨1000, [], Mem.initial fun _ => 0⟩).2.trace =
    (setUpRequests ++ textLines banner ++ repeated roundRequests 1001).take 1001 :=
  ⟨handler_serves, (user_space_prompts handler handler_serves (fun _ => 0) 1000).2⟩

end DeltaOS.UserOnKernel
