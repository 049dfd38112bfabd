import DeltaOS.Abstractions
import DeltaOS.KernelShell
import DeltaOS.SavedContexts

namespace DeltaOS.ShellSession

open Kernel Overflow NumberParsing Tasks Sched Vga ShellLine Keyboard Interrupts Abstractions KernelShell

inductive Action
  | report
  | toggleDev
  | touch (accesses : List Access)
  | process (op : Op)

def perform (s : Status) : Action → Status
  | .report => s
  | .toggleDev => { s with devMode := !s.devMode }
  | .touch accesses => { s with accesses := s.accesses ++ accesses }
  | .process op =>
    { s with devices := { s.devices with scheduler := s.devices.scheduler.map (step · op) } }

section meaning

variable (profile : Profile) (entries : Entries) (hw : Hardware)

def clockReads : List Access :=
  [0x00, 0x02, 0x04, 0x07, 0x08, 0x09].flatMap fun reg => [.outb 0x70 reg, .inb 0x71]

def lapicReads : Action := if hw.apicInitialized then .touch [.readLapic] else .report

def named (act : Nat → Action) : List Text → Option Action
  | word :: _ => (parseInt profile (str word)).map act
  | [] => some .report

def killing (pid : Nat) : Action := if pid = 0 then .report else .process (.terminateTask pid (-9))

def starting (now : Nat) : List Text → Action
  | name :: _ => ((taskEntry entries name).map fun task =>
    .process (.createKernelTask task.1 task.2 now)).getD .report
  | [] => .report

/-- A dump of 64 bytes panics if the address of its last row does, and goes on for ever at a byte that
is not mapped. -/
def dumping (addr : Nat) : Option Action :=
  if addr = 0 then some .report
  else if (add profile addr 48).isSome ∧ ∀ i < 64, (hw.memory (BitVec.ofNat 64 (addr + i))).isSome then
    some (.touch ((List.range 64).map fun i => .readByte (BitVec.ofNat 64 (addr + i))))
  else none

def reading : List Text → Option Action
  | _ :: word :: _ => do
    let addr ← parseHex profile (str word)
    dumping profile hw addr
  | _ => some .report

def writing (port : Nat) : List Text → Option Action
  | word :: _ => (parseHex profile (str word)).map fun val => .touch [.outb (BitVec.ofNat 16 port)
    (BitVec.ofNat 8 val)]
  | [] => some .report

def portAccess : List Text → Option Action
  | _ :: direction :: word :: rest => do
    let port ← parseHex profile (str word)
    if port = 0 ∧ word ≠ ascii "0" ∧ word ≠ ascii "0x0" then return .report
    else if direction = ascii "in" then return .touch [.inb (BitVec.ofNat 16 port)]
    else if direction = ascii "out" then writing profile port rest
    else return .report
  | _ => some .report

def inDevMode (s : Status) (action : Option Action) : Option Action :=
  if s.devMode then action else some .report

def actions : List (String × (Status → List Text → Option Action)) :=
  [("info", fun _ _ => some (lapicReads hw)),
    ("time", fun _ _ => some (.touch clockReads)),
    ("dev", fun _ _ => some .toggleDev),
    ("help", fun _ _ => some .report),
    ("clear", fun _ _ => some .report),
    ("reboot", fun _ _ => some (.touch [.outb 0x64 0xFE])),
    ("ps", fun _ _ => some .report),
    ("kill", fun _ => named profile killing),
    ("run", fun s args => some (starting entries s.devices.timer.tickCount.toNat args)),
    ("bg", fun _ => named profile fun pid => .process (.backgroundTask pid)),
    ("fg", fun _ => named profile fun pid => .process (.foregroundTask pid)),
    ("sched", fun _ _ => some .report),
    ("mem", fun s args => inDevMode s (reading profile hw args)),
    ("regs", fun s _ => inDevMode s (some (.touch [.readCr]))),
    ("io", fun s args => inDevMode s (portAccess profile args)),
    ("pmm", fun s _ => inDevMode s (some .report)),
    ("apic", fun s _ => inDevMode s (some (lapicReads hw)))]

def choose (s : Status) (cmd : Text) (args : List Text) :
    List (String × (Status → List Text → Option Action)) → Option Action
  | [] => some .report
  | (name, action) :: rest => if cmd = ascii name then action s args else choose s cmd args rest

/-- What a line means, from its words on; nothing where it panics or does not come to an end. -/
def meaning (s : Status) : List Text → Option Action
  | [] => some .report
  | cmd :: args => choose s cmd args (actions profile entries hw)

end meaning

/-- The line that is being typed, and what the commands work on. -/
structure Session where
  line : Text
  status : Status

def typeKey (line : Text) (ch : Byte) : Text :=
  if ch = backspace then line.dropLast else if ch.toNat ≥ 32 ∧ line.length < 255
    then line ++ [ch] else line

def obey (profile : Profile) (entries : Entries) (s : Status) (l : Hardware × Text) : Option Status :=
  (meaning profile entries l.1 s (parts l.2)).map (perform s)

def press (profile : Profile) (entries : Entries) (s : Session) (key : Hardware × Byte) :
    Option Session :=
  if key.2 = newline then (obey profile entries s.status (key.1, s.line)).map (Session.mk [])
  else some { s with line := typeKey s.line key.2 }

section words

theorem parts_append (l r : Text) : parts (l ++ space :: r) = parts l ++ parts r := by
  have hsplit := List.splitOnP_append_cons (p := fun ch => ch == space) l r (beq_self_eq_true space)
  rw [parts, parts, parts, ← List.filter_append]
  exact congrArg (List.filter fun w => !w.isEmpty) hsplit

theorem parts_nil : parts [] = [] := rfl

theorem parts_blanks_append {blanks : Text} (h : ∀ ch ∈ blanks, ch = space) (l : Text) :
    parts (blanks ++ l) = parts l := by
  induction blanks with
  | nil => rfl
  | cons ch blanks ih =>
    obtain ⟨rfl, hrest⟩ := List.forall_mem_cons.mp h
    exact (parts_append [] (blanks ++ l)).trans (ih hrest)

theorem parts_append_blanks {blanks : Text} (h : ∀ ch ∈ blanks, ch = space) (l : Text) :
    parts (l ++ blanks) = parts l := by
  cases blanks with
  | nil => rw [List.append_nil]
  | cons ch blanks =>
    obtain ⟨rfl, hrest⟩ := List.forall_mem_cons.mp h
    rw [parts_append, ← List.append_nil blanks, parts_blanks_append hrest, parts_nil, List.append_nil]

theorem blanks_dropWhile (l : Text) :
    ∃ blanks, (∀ ch ∈ blanks, ch = space) ∧ blanks ++ l.dropWhile (· = space) = l := by
  refine ⟨l.takeWhile (· = space), fun ch hch => ?_, List.takeWhile_append_dropWhile⟩
  have hblank := List.mem_takeWhile_imp hch
  exact of_decide_eq_true hblank

theorem parts_trim (l : Text) : parts (trim l) = parts l := by
  obtain ⟨front, hfront, hl⟩ := blanks_dropWhile l
  obtain ⟨back, hback, hrev⟩ := blanks_dropWhile (l.dropWhile (· = space)).reverse
  have hmid : trim l ++ back.reverse = l.dropWhile (· = space) := by
    rw [trim, ← List.reverse_append, hrev, List.reverse_reverse]
  calc parts (trim l) = parts (trim l ++ back.reverse) :=
        (parts_append_blanks (fun ch hch => hback ch (List.mem_reverse.mp hch)) _).symm
    _ = parts (front ++ l.dropWhile (· = space)) := by rw [hmid, parts_blanks_append hfront]
    _ = parts l := by rw [hl]

end words

section commands

/-- A program does to the status what another one says, and keeps the cursor on the screen. -/
def Works {α : Type} (c : Cmd α) (d : StateT Status Option α) : Prop :=
  Shows KernelShell.Kernel.status (fun k => Tidy k.console) c d

/-- A command does what the action says. -/
def Does (c : Cmd Unit) (action : Status → Option Action) : Prop :=
  Works c fun s => (action s).map fun a => ((), perform s a)

variable {α : Type} {c : Cmd Unit} {action : Status → Option Action}

def Prints (c : Cmd Unit) : Prop := Works c (pure ())

theorem kprint_prints (text : Text) : Prints (kprint text) := by
  constructor
  · intro k hk
    obtain ⟨console, hprint, -⟩ := hk.print text
    simp only [kprint, hprint]
    rfl
  · intro k hk r hr
    obtain ⟨console, hprint, htidy⟩ := hk.print text
    simp only [kprint, hprint] at hr
    cases hr
    exact htidy

theorem clearScreen_prints : Prints clearScreen := by
  constructor
  · intro k _
    obtain ⟨console, hclear, -⟩ := vgaClear_tidy k.console
    simp only [clearScreen, hclear]
    rfl
  · intro k _ r hr
    obtain ⟨console, hclear, htidy⟩ := vgaClear_tidy k.console
    simp only [clearScreen, hclear] at hr
    cases hr
    exact htidy

theorem setColor_prints (fg bg : Byte) : Prints (setColor fg bg) where
  result _ _ := rfl
  keeps k hk r hr := by
    cases hr
    exact ⟨hk.row, hk.col, hk.ahead⟩

theorem Prints.seq {c' : Unit → Cmd Unit} (h : Prints c) (h' : Prints (c' ())) : Prints (c >>= c') :=
  Shows.hidden h h'

theorem kprintln_prints (text : Text) : Prints (kprintln text) := kprint_prints _

theorem kprintLines_prints (lines : List Text) : Prints (kprintLines lines) := by
  induction lines with
  | nil => exact Shows.pure ()
  | cons text lines ih => exact (kprintln_prints text).seq ih

theorem getStatus_works : Works getStatus fun s => some (s, s) where
  result _ _ := rfl
  keeps k hk r hr := by
    cases hr
    exact hk

theorem setStatus_works (t : Status) : Works (setStatus t) fun _ => some ((), t) where
  result _ _ := rfl
  keeps k hk r hr := by
    cases hr
    exact hk

theorem checked_works (r : Option α) : Works (checked r) fun s => r.map fun a => (a, s) := by
  cases r with
  | none => exact ⟨fun _ _ => rfl, fun k _ r hr => by cases hr⟩
  | some a =>
    refine ⟨fun _ _ => rfl, fun k hk r hr => ?_⟩
    cases hr
    exact hk

theorem Prints.does (h : Prints c) : Does c fun _ => some .report := h

theorem Prints.then {f : Unit → Cmd Unit} (h : Prints c) (hnext : Does (f ()) action) :
    Does (c >>= f) action :=
  Shows.hidden h hnext

theorem does_getStatus {f : Status → Cmd Unit} {a : Status → Status → Option Action}
    (h : ∀ t, Does (f t) (a t)) : Does (getStatus >>= f) fun s => a s s :=
  Shows.bind getStatus_works h

theorem does_checked {r : Option α} {f : α → Cmd Unit} {action : α → Status → Option Action}
    (h : ∀ a, Does (f a) (action a)) : Does (checked r >>= f) fun s => r.bind fun a => action a s := by
  have hbind := Shows.bind (checked_works r) h
  cases r with
  | none => exact hbind
  | some a => exact hbind

theorem Does.then {f : Unit → Cmd Unit} {b : Status → Action} (h : Does c fun s => some (b s))
    (hnext : Prints (f ())) : Does (c >>= f) fun s => some (b s) := Shows.bind h fun _ => hnext

theorem Does.stops {f : Unit → Cmd Unit} {b : Status → Action} (h : Does c fun s => some (b s))
    (hnext : Does (f ()) fun _ => none) : Does (c >>= f) fun _ => none := Shows.bind h fun _ => hnext

theorem access_does (a : Access) : Does (access a) fun _ => some (.touch [a]) :=
  Shows.bind getStatus_works fun _ => setStatus_works _

theorem Works.congr {c : Cmd α} {d d' : StateT Status Option α} (h : Works c d)
    (heq : ∀ s, d s = d' s) : Works c d' :=
  ⟨fun k hk => (h.result k hk).trans (heq _), h.keeps⟩

theorem Prints.ite {p : Prop} [Decidable p] {c' : Cmd Unit} (h : Prints c) (h' : Prints c') :
    Prints (if p then c else c') := by
  split
  · exact h
  · exact h'

theorem Prints.getStatus {f : Status → Cmd Unit} (h : ∀ t, Prints (f t)) : Prints (getStatus >>= f) :=
  Shows.bind getStatus_works h

theorem Prints.touch (h : Prints c) : Does c fun _ => some (.touch []) :=
  Works.congr h fun s => by
    change some ((), s) = some ((), { s with accesses := s.accesses ++ [] })
    rw [List.append_nil]

theorem touch_then {as : List Access} {f : Unit → Cmd Unit} (a : Access)
    (h : Does (f ()) fun _ => some (.touch as)) :
    Does (access a >>= f) fun _ => some (.touch (a :: as)) := by
  refine Works.congr (Shows.bind (access_does a) fun _ => h) fun s => ?_
  exact congrArg (fun l => some ((), { s with accesses := l })) (List.append_assoc s.accesses [a] as)

variable {profile : Profile} {entries : Entries} {hw : Hardware}

theorem lapicId_does {f : Nat → Cmd Unit} (h : ∀ id, Prints (f id)) :
    Does (lapicId hw >>= f) fun _ => some (.touch [.readLapic]) := by
  rw [lapicId, bind_assoc]
  exact touch_then _ (by rw [pure_bind]; exact (h _).touch)

theorem apicInfo_does : Does (apicInfo hw) fun _ => some (lapicReads hw) := by
  rw [apicInfo, lapicReads]
  split
  · exact lapicId_does fun _ => kprintln_prints _
  · exact (kprintln_prints _).does

theorem cmdInfo_does : Does (cmdInfo hw) fun _ => some (lapicReads hw) := by
  refine (kprintLines_prints _).then ((kprintLines_prints _).then ?_)
  refine does_getStatus (a := fun _ _ => some (lapicReads hw)) fun status =>
    (kprintln_prints _).then (apicInfo_does.then ?_)
  exact (kprintLines_prints _).seq ((kprintln_prints _).seq (kprintln_prints _))

theorem readCmos_does {as : List Access} {f : Byte → Cmd Unit} (reg : Byte)
    (h : Does (f (hw.cmos reg)) fun _ => some (.touch as)) :
    Does (readCmos hw reg >>= f) fun _ => some (.touch (.outb 0x70 reg :: .inb 0x71 :: as)) := by
  rw [readCmos, bind_assoc]
  refine touch_then _ ?_
  rw [bind_assoc]
  refine touch_then _ ?_
  rw [pure_bind]
  exact h

theorem cmdTime_does : Does (cmdTime hw) fun _ => some (.touch clockReads) := by
  refine readCmos_does _ (readCmos_does _
    (readCmos_does _ (readCmos_does _ (readCmos_does _ (readCmos_does _ ?_)))))
  refine Prints.touch ((kprintln_prints _).seq (Prints.getStatus fun _ => kprintln_prints _))

theorem cmdDev_does : Does (cmdDev hw entries) fun _ => some .toggleDev := by
  refine Works.congr (Shows.bind getStatus_works fun status => Shows.bind (setStatus_works _) fun _ =>
    Prints.ite ?_ ((setColor_prints _ _).seq (kprintln_prints _))) fun _ => rfl
  refine (setColor_prints _ _).seq
    ((kprintLines_prints _).seq ((kprintLines_prints _).seq ((kprintLines_prints _).seq ?_)))
  exact (kprintln_prints _).seq (kprintln_prints _)

theorem cmdHelp_prints : Prints cmdHelp := by
  refine (kprintLines_prints _).seq (Prints.getStatus fun status => Prints.ite ?_ (Shows.pure ()))
  exact (setColor_prints _ _).seq ((kprintLines_prints _).seq (setColor_prints _ _))

def Shown (profile : Profile) (hw : Hardware) (addr i : Nat) : Prop :=
  (i % 16 = 0 → (add profile addr i).isSome) ∧ (hw.memory (BitVec.ofNat 64 (addr + i))).isSome

section dumps

variable {addr i : Nat} {is : List Nat}

theorem dumpRow_prints (h : i % 16 = 0 → (add profile addr i).isSome) :
    Prints (dumpRow profile addr i) := by
  rw [dumpRow]
  split
  · rename_i hrow
    obtain ⟨shown, hshown⟩ := Option.isSome_iff_exists.mp (h hrow)
    rw [hshown]
    exact Shows.bind (checked_works (some shown)) fun _ => kprint_prints _
  · exact Shows.pure ()

theorem dumpByte_does (h : Shown profile hw addr i) :
    Does (dumpByte profile hw addr i) fun _ =>
      some (.touch [.readByte (BitVec.ofNat 64 (addr + i))]) := by
  obtain ⟨val, hval⟩ := Option.isSome_iff_exists.mp h.2
  refine (dumpRow_prints h.1).then (touch_then _ (Prints.touch ?_))
  rw [hval]
  exact Shows.bind (checked_works (some val)) fun _ => kprint_prints _

theorem dumpByte_stops (h : ¬Shown profile hw addr i) :
    Does (dumpByte profile hw addr i) fun _ => none := by
  by_cases hrow : i % 16 = 0 → (add profile addr i).isSome
  · have hbyte : hw.memory (BitVec.ofNat 64 (addr + i)) = none :=
      Option.not_isSome_iff_eq_none.mp fun hsome => h ⟨hrow, hsome⟩
    refine (dumpRow_prints hrow).then ((access_does _).stops ?_)
    rw [hbyte]
    exact Shows.bind_fails (checked_works none)
  · obtain ⟨hfirst, hshown⟩ := Classical.not_imp.mp hrow
    rw [Option.not_isSome_iff_eq_none] at hshown
    refine Shows.bind_fails ?_
    rw [dumpRow, if_pos hfirst, hshown]
    exact Shows.bind_fails (checked_works none)

theorem dump_does (h : ∀ i ∈ is, Shown profile hw addr i) : Does (dump profile hw addr is) fun _ =>
    some (.touch (is.map fun i => .readByte (BitVec.ofNat 64 (addr + i)))) := by
  induction is with
  | nil => exact Prints.touch (Shows.pure ())
  | cons i is ih =>
    obtain ⟨hfirst, hrest⟩ := List.forall_mem_cons.mp h
    refine Works.congr (Shows.bind (dumpByte_does hfirst) fun _ => ih hrest) fun s => ?_
    exact congrArg (fun l => some ((), { s with accesses := l })) (List.append_assoc s.accesses [_] _)

theorem dump_stops (h : ¬∀ i ∈ is, Shown profile hw addr i) :
    Does (dump profile hw addr is) fun _ => none := by
  induction is with
  | nil => exact absurd (List.forall_mem_nil _) h
  | cons i is ih =>
    by_cases hfirst : Shown profile hw addr i
    · exact (dumpByte_does hfirst).stops (ih fun hrest => h (List.forall_mem_cons.mpr ⟨hfirst, hrest⟩))
    · exact Shows.bind_fails (dumpByte_stops hfirst)

theorem add_isSome_of_le (h : (add profile addr 48).isSome) (hi : i ≤ 48) :
    (add profile addr i).isSome := by
  cases profile with
  | release => rfl
  | debug =>
    rw [add, Option.isSome_ite] at h ⊢
    exact (Nat.add_le_add_left hi addr).trans_lt h

theorem shown_range : (∀ i ∈ List.range 64, Shown profile hw addr i) ↔
    (add profile addr 48).isSome ∧ ∀ i < 64, (hw.memory (BitVec.ofNat 64 (addr + i))).isSome := by
  constructor
  · intro h
    exact ⟨(h 48 (by decide)).1 rfl, fun i hi => (h i (List.mem_range.mpr hi)).2⟩
  · rintro ⟨hlast, hbytes⟩ i hi
    rw [List.mem_range] at hi
    exact ⟨fun hrow => add_isSome_of_le hlast (by omega), hbytes i hi⟩

end dumps

theorem cmdDevMem_does (args : List Text) :
    Does (cmdDevMem profile hw args) fun _ => reading profile hw args := by
  match args with
  | _ :: word :: _ =>
    refine does_checked fun addr => ?_
    rw [dumping]
    split
    · exact (kprintln_prints _).does
    · refine (kprintln_prints _).then ?_
      split
      · rename_i hshown
        exact (dump_does (shown_range.mpr hshown)).then (kprintln_prints _)
      · rename_i hstops
        exact Shows.bind_fails (dump_stops fun h => hstops (shown_range.mp h))
  | [_] => exact (kprintln_prints _).does
  | [] => exact (kprintln_prints _).does

theorem cmdDevRegs_does : Does (cmdDevRegs hw) fun _ => some (.touch [.readCr]) :=
  touch_then _ (kprintLines_prints _).touch

theorem ioOut_does (port : Nat) (args : List Text) :
    Does (ioOut profile port args) fun _ => writing profile port args := by
  cases args with
  | cons word rest =>
    refine Works.congr (does_checked fun val => touch_then _ (kprintln_prints _).touch) fun s => ?_
    rw [writing]
    cases parseHex profile (str word) <;> rfl
  | nil => exact (kprintln_prints _).does

theorem cmdDevIo_does (args : List Text) :
    Does (cmdDevIo profile hw args) fun _ => portAccess profile args := by
  match args with
  | _ :: direction :: word :: rest =>
    refine does_checked fun port => ?_
    split
    · exact (kprintln_prints _).does
    · split
      · exact touch_then _ (kprintln_prints _).touch
      · split
        · exact ioOut_does port rest
        · exact Prints.does (Shows.pure ())
  | [_, _] => exact (kprintln_prints _).does
  | [_] => exact (kprintln_prints _).does
  | [] => exact (kprintln_prints _).does

theorem cmdDevApic_does : Does (cmdDevApic hw) fun _ => some (lapicReads hw) := by
  rw [cmdDevApic, lapicReads]
  split
  · exact (kprintln_prints _).then (lapicId_does fun _ => (kprintln_prints _).seq (kprintln_prints _))
  · exact (kprintLines_prints _).does

theorem setScheduler_works (s : Scheduler) : Works (setScheduler s) fun status =>
    some ((), { status with devices := { status.devices with scheduler := some s } }) :=
  Shows.bind getStatus_works fun _ => setStatus_works _

theorem withScheduler_does {body : Status → Scheduler → Cmd Unit} {absent : Cmd Unit} {o : Status → Op}
    (h : ∀ status s, Works (body status s) fun t =>
      some ((), { t with devices := { t.devices with scheduler := some (step s (o status)) } }))
    (habsent : Prints absent) : Does (withScheduler body absent) fun status =>
      some (.process (o status)) := by
  have hbody (status : Status) (scheduler : Option Scheduler) :
      Works (scheduler.elim absent (body status)) fun t =>
      some ((), scheduler.elim t fun s =>
        { t with devices := { t.devices with scheduler := some (step s (o status)) } }) := by
    cases scheduler with
    | none => exact habsent
    | some s => exact h status s
  refine Works.congr (Shows.bind getStatus_works fun status => hbody status status.devices.scheduler)
    fun s => ?_
  obtain ⟨devMode, ⟨timer, keyboard, _ | scheduler⟩, accesses⟩ := s
  · rfl
  · rfl

theorem onProcess_does {op : Scheduler → Scheduler × KernelResult Unit} {o : Op}
    (h : ∀ s, (op s).1 = step s o)
    (text : KernelResult Unit → Text) : Does (onProcess op text) fun _ => some (.process o) := by
  refine withScheduler_does (o := fun _ => o) (fun status s => ?_) (Shows.pure ())
  rw [← h s]
  exact Shows.bind (setScheduler_works _) fun _ => kprintln_prints _

theorem startTask_does (entry : Word) (name : String) : Does (startTask entry name) fun status =>
    some (.process (.createKernelTask entry name status.devices.timer.tickCount.toNat)) :=
  withScheduler_does (fun _ _ => Shows.bind (setScheduler_works _) fun _ => kprintln_prints _)
    (kprintln_prints _)

theorem named_does {f : Nat → Cmd Unit} {act : Nat → Action}
    (h : ∀ pid, Does (f pid) fun _ => some (act pid)) (word : Text) (rest : List Text) :
    Does (checked (parseInt profile (str word)) >>= f) fun _ => named profile act (word :: rest) := by
  refine Works.congr (does_checked h) fun s => ?_
  rw [named]
  cases parseInt profile (str word) <;> rfl

theorem cmdKill_does (args : List Text) :
    Does (cmdKill profile args) fun _ => named profile killing args := by
  cases args with
  | nil => exact (kprintln_prints _).does
  | cons word rest =>
    refine named_does (fun pid => ?_) word rest
    rw [killing]
    split
    · exact (kprintln_prints _).does
    · exact onProcess_does (fun _ => rfl) _

theorem cmdBg_does (args : List Text) :
    Does (cmdBg profile args) fun _ =>
      named profile (fun pid => .process (.backgroundTask pid)) args := by
  cases args with
  | nil => exact (kprintln_prints _).does
  | cons word rest => exact named_does (fun pid => onProcess_does (fun _ => rfl) _) word rest

theorem cmdFg_does (args : List Text) :
    Does (cmdFg profile args) fun _ =>
      named profile (fun pid => .process (.foregroundTask pid)) args := by
  cases args with
  | nil => exact (kprintln_prints _).does
  | cons word rest => exact named_does (fun pid => onProcess_does (fun _ => rfl) _) word rest

theorem cmdRun_does (args : List Text) : Does (cmdRun entries args) fun status =>
    some (starting entries status.devices.timer.tickCount.toNat args) := by
  cases args with
  | nil => exact (kprintLines_prints _).does
  | cons name rest =>
    rw [cmdRun]
    simp only [starting]
    cases taskEntry entries name with
    | none => exact (kprintLines_prints _).does
    | some task => exact startTask_does task.1 task.2

theorem devOnly_does (cmd : Text) {body : Cmd Unit} (h : Does body action) :
    Does (devOnly cmd body) fun status => inDevMode status (action status) := by
  have hbranch (status : Status) : Does (if status.devMode then body else unknownCommand cmd) fun s =>
      if status.devMode then action s else some .report := by
    split
    · exact h
    · exact (kprintln_prints _).does
  exact does_getStatus hbranch

theorem commands_do : List.Forall₂ (fun c a => c.1 = a.1 ∧
    ∀ args, Does (c.2 args) fun status => a.2 status args)
    (commands profile entries hw) (actions profile entries hw) := by
  refine .cons ⟨rfl, fun _ => cmdInfo_does⟩
    (.cons ⟨rfl, fun _ => cmdTime_does⟩ (.cons ⟨rfl, fun _ => cmdDev_does⟩ ?_))
  refine .cons ⟨rfl, fun _ => cmdHelp_prints.does⟩ (.cons ⟨rfl, fun _ => clearScreen_prints.does⟩ ?_)
  refine .cons ⟨rfl, fun _ => access_does _⟩ (.cons ⟨rfl, fun _ => ?_⟩ (.cons ⟨rfl, cmdKill_does⟩ ?_))
  · exact (Prints.getStatus fun _ => kprintLines_prints _).does
  refine .cons ⟨rfl, cmdRun_does⟩
    (.cons ⟨rfl, cmdBg_does⟩ (.cons ⟨rfl, cmdFg_does⟩ (.cons ⟨rfl, fun _ => ?_⟩ ?_)))
  · exact (Prints.getStatus fun _ => kprintLines_prints _).does
  refine .cons ⟨rfl, fun args => devOnly_does _ (cmdDevMem_does args)⟩ ?_
  refine .cons ⟨rfl, fun _ => devOnly_does _ cmdDevRegs_does⟩
    (.cons ⟨rfl, fun args => devOnly_does _ (cmdDevIo_does args)⟩ ?_)
  refine .cons ⟨rfl, fun _ => devOnly_does _ (kprintLines_prints _).does⟩ ?_
  exact .cons ⟨rfl, fun _ => devOnly_does _ cmdDevApic_does⟩ .nil

theorem select_does {cs : List (String × (List Text → Cmd Unit))}
    {as : List (String × (Status → List Text → Option Action))}
    (h : List.Forall₂ (fun c a => c.1 = a.1 ∧ ∀ args, Does (c.2 args) fun status => a.2 status args) cs
      as) (cmd : Text)
    (args : List Text) : Does (select cmd args cs) fun status => choose status cmd args as := by
  induction h with
  | nil => exact (kprintln_prints _).does
  | @cons c a cs as hc _ ih =>
    obtain ⟨hname, hdoes⟩ := hc
    simp only [select, choose, ← hname]
    split
    · exact hdoes args
    · exact ih

theorem executeCommand_does (line : Text) :
    Does (executeCommand profile entries hw line) fun status => meaning profile entries hw status
      (parts line) := by
  rw [← parts_trim line]
  simp only [executeCommand]
  split
  · rename_i hempty
    rw [List.isEmpty_iff.mp hempty]
    exact Prints.does (Shows.pure ())
  · cases parts (trim line) with
    | nil => exact Prints.does (Shows.pure ())
    | cons cmd args => exact select_does commands_do cmd args

end commands

section terminal

variable {line : Text} {ch : Byte} {t : Terminal} {profile : Profile} {entries : Entries}

def session (t : Terminal) : Session := ⟨t.inputBuf.toList.take t.inputPos, t.kernel.status⟩

def Ready (t : Terminal) : Prop := Holds (session t).line t.shell

theorem keystroke_holds {s : Shell} (h : Holds line s) (ch : Byte) :
    ∃ s', keystroke s ch = some s' ∧ Holds (typeKey line ch) s' := by
  rw [typeKey]
  by_cases hback : ch = backspace
  · rw [if_pos hback, hback]
    obtain rfl | hline := eq_or_ne line []
    · exact ⟨s, h.erase_nil, h⟩
    · obtain ⟨s', hs', hholds, -⟩ := h.erase hline
      exact ⟨s', hs', hholds⟩
  · rw [if_neg hback]
    by_cases hchar : ch.toNat ≥ 32 ∧ line.length < 255
    · rw [if_pos hchar]
      exact h.insert hchar.1 hchar.2
    · have hpos : ¬(ch.toNat ≥ 32 ∧ s.inputPos < 255) := by rwa [h.pos]
      rw [if_neg hchar]
      exact ⟨s, by rw [keystroke, if_neg hback, if_neg hpos], h⟩

theorem beginLine_holds {c : Console} (h : Tidy c) (devMode : Bool) (buf : Vector Byte 256) :
    ∃ s, beginLine devMode buf c = some s ∧ Holds [] s := by
  have hset : Tidy (if devMode then vgaSetColor c 0x0A 0x00 else c) := by
    split
    · exact h.setColor _ _
    · exact h
  obtain ⟨c', hc', htidy⟩ := hset.print prompt
  refine ⟨⟨buf.set 0 0, 0, vgaSetColor c' 0x0F 0x00⟩, ?_, rfl, Nat.zero_le 255, rfl, htidy.setColor _ _⟩
  rw [beginLine, hc']
  rfl

theorem ready_of_holds {s : Shell} (h : Holds line s) (serial : Text) (status : Status) :
    session ⟨⟨s.console, serial, status⟩, s.inputBuf, s.inputPos⟩ = ⟨line, status⟩ ∧
      Ready ⟨⟨s.console, serial, status⟩, s.inputBuf, s.inputPos⟩ := by
  have hsession : session ⟨⟨s.console, serial, status⟩, s.inputBuf, s.inputPos⟩ = ⟨line, status⟩ :=
    congrArg (Session.mk · status) h.text
  refine ⟨hsession, ?_⟩
  rw [Ready, hsession]
  exact h

theorem nextLine_ready {k : KernelShell.Kernel} (h : Tidy k.console) (buf : Vector Byte 256) :
    ∃ t, nextLine k buf = some t ∧ session t = ⟨[], k.status⟩ ∧ Ready t := by
  obtain ⟨s, hs, hholds⟩ := beginLine_holds h k.status.devMode buf
  exact ⟨_, by rw [nextLine, hs]; rfl, ready_of_holds hholds _ _⟩

theorem input_char (profile : Profile) (entries : Entries) (h : Ready t) (hch : ch ≠ newline)
    (hw : Hardware) : ∃ t', input profile entries hw t ch = some t' ∧
    session t' = ⟨typeKey (session t).line ch, t.kernel.status⟩ ∧ Ready t' := by
  obtain ⟨s, hs, hholds⟩ := keystroke_holds h ch
  exact ⟨_, by rw [input, if_neg hch, hs]; rfl, ready_of_holds hholds _ _⟩

theorem input_newline (h : Ready t) (hw : Hardware) : ∃ console serial buf, Tidy console ∧
    input profile entries hw t newline =
      (executeCommand profile entries hw (session t).line ⟨console, serial, t.kernel.status⟩).bind
        fun r => nextLine r.2 buf := by
  have hlt : t.inputPos < 256 := h.pos.trans_lt (Nat.lt_succ_of_le h.le)
  obtain ⟨c, hc, htidy⟩ := h.tidy.print [newline]
  obtain ⟨console, henter⟩ := h.enter
  have hprinted : ∃ text, enter t.shell = some (text, c) := by
    have hstore : store t.shell.inputBuf t.shell.inputPos 0 = some _ := store_of_lt hlt 0
    rw [enter, hc, hstore]
    exact ⟨_, rfl⟩
  obtain ⟨text, hprinted⟩ := hprinted
  have hconsole : console = c := congrArg Prod.snd (Option.some.inj (henter.symm.trans hprinted))
  refine ⟨console, t.kernel.serial ++ [newline], t.inputBuf.set t.inputPos 0 hlt, hconsole ▸ htidy, ?_⟩
  rw [input, if_pos rfl, henter, store_of_lt hlt]
  rfl

theorem input_shows (h : Ready t) (key : Hardware × Byte) :
    (input profile entries key.1 t key.2).map session = press profile entries (session t) key ∧
      ∀ t', input profile entries key.1 t key.2 = some t' → Ready t' := by
  obtain ⟨hw, ch⟩ := key
  dsimp only
  obtain rfl | hch := eq_or_ne ch newline
  · obtain ⟨console, serial, buf, htidy, hinput⟩ := input_newline h hw
    have hdoes : Does (executeCommand profile entries hw (session t).line) _ := executeCommand_does _
    have hresult : (executeCommand profile entries hw (session t).line ⟨console, serial,
        t.kernel.status⟩).map _ =
        (meaning profile entries hw t.kernel.status (parts (session t).line)).map fun a =>
          ((), perform t.kernel.status a) := hdoes.result ⟨console, serial, t.kernel.status⟩ htidy
    have hkeeps := hdoes.keeps ⟨console, serial, t.kernel.status⟩ htidy
    rw [hinput, press, if_pos rfl, obey, show (session t).status = t.kernel.status from rfl]
    cases hrun : executeCommand profile entries hw (session t).line ⟨console, serial,
      t.kernel.status⟩ with
    | none =>
      rw [hrun] at hresult
      rw [Option.map_eq_none_iff.mp hresult.symm]
      exact ⟨rfl, fun t' ht' => by cases ht'⟩
    | some r =>
      rw [hrun] at hresult
      obtain ⟨action, hmeaning, haction⟩ := Option.map_eq_some_iff.mp hresult.symm
      obtain ⟨t', ht', hsession, hready⟩ := nextLine_ready (hkeeps r hrun) buf
      have hstatus : r.2.status = perform t.kernel.status action := (congrArg Prod.snd haction).symm
      rw [Option.bind_some, ht', Option.map_some, hsession, hstatus, hmeaning]
      refine ⟨rfl, fun t'' ht'' => ?_⟩
      obtain rfl := Option.some.inj ht''
      exact hready
  · obtain ⟨t', ht', hsession, hready⟩ := input_char profile entries h hch hw
    rw [ht', press, if_neg hch]
    refine ⟨by rw [Option.map_some, hsession]; rfl, fun t'' ht'' => ?_⟩
    obtain rfl := Option.some.inj ht''
    exact hready

end terminal

/-- A session with the shell, from its start on: the characters that it reads, each with what the
hardware answers then. -/
def shell (profile : Profile) (entries : Entries) (k : KernelShell.Kernel)
    (keys : List (Hardware × Byte)) : Option Terminal := do
  let t ← shellStart k
  keys.foldlM (fun t key => input profile entries key.1 t key.2) t

theorem shellStart_ready {k : KernelShell.Kernel} (h : Tidy k.console) :
    ∃ t, shellStart k = some t ∧ session t = ⟨[], k.status⟩ ∧ Ready t := by
  have hprints := kprintLines_prints banner
  have hresult := hprints.result k h
  obtain ⟨r, hr, hstatus⟩ := Option.map_eq_some_iff.mp hresult
  obtain ⟨t, ht, hsession, hready⟩ := nextLine_ready (hprints.keeps k h r hr) (Vector.replicate 256 0)
  refine ⟨t, ?_, ?_, hready⟩
  · rw [shellStart, hr]
    exact ht
  · rw [hsession, show r.2.status = k.status from congrArg Prod.snd hstatus]

section release

variable {entries : Entries} {hw : Hardware}

end release

theorem smallMemory : 768 ≤ 1024 ∧ 1024 * pageSize < usizeRange := by decide

/-- A machine with four megabytes, of which the first one is in use; there is nothing at its end. -/
def smallHardware : Hardware where
  cmos _ := 0
  memory a := if a < 0x400000 then some 0 else none
  port _ := 0
  cr0 := 0x80000011
  cr2 := 0
  cr3 := 0x1000
  cr4 := 0x20
  lapicId := 0
  apicInitialized := false
  usingApic := false
  pmm := some ⟨1024, 768, smallMemory.1, smallMemory.2⟩
  vmm := true

def someEntries : Entries := ⟨0x110000, 0x110100, 0x110200, 0x200000⟩

/-- The scheduler that `kernel_main` leaves to the shell. -/
def bootScheduler : Scheduler :=
  Runs.run step (Scheduler.new { mem := fun _ => 0 }) SavedContexts.bootSequence

def bootedKernel : KernelShell.Kernel :=
  ⟨cleared, [], false, ⟨⟨0, 0, 100⟩, .initial, some bootScheduler⟩, []⟩

end DeltaOS.ShellSession
