import DeltaOS.Placement
import DeltaOS.ShellInterrupts

namespace DeltaOS.ProcessTable

open Kernel Overflow Numerals NumberParsing Tasks Sched Vga ShellLine Keyboard Interrupts
  InterruptDispatch KernelShell ShellSession ShellInterrupts

/-- A process as the user of the shell knows it. Its number is its place in the table, counted from
one. -/
structure Proc where
  name : String
  killed : Bool
deriving DecidableEq

def kill (table : List Proc) (pid : Nat) : List Proc :=
  if pid ≤ 2 then table else table.modify (pid - 1) fun p => { p with killed := true }

/-- The number in a word, modulo 2^64; zero where there is something else. -/
def number (word : Text) : Nat := (scanned (str word)).elim 0 (· % usizeRange)

/-- The same for a hexadecimal number, with or without `0x` or `0X`. -/
def hexNumber (word : Text) : Nat :=
  (value 16 hexDigit (stripPrefix upper (stripPrefix lower (str word)))).elim 0 (· % usizeRange)

def account (entries : Entries) (table : List Proc) : List Text → List Proc
  | cmd :: arg :: _ =>
    if cmd = ascii "run" then table ++ ((taskEntry entries arg).map fun task => ⟨task.2, false⟩).toList
    else if cmd = ascii "kill" then kill table (number arg)
    else table
  | _ => table

def lines (ty : Typing) : List Event → List (Hardware × Text)
  | [] => []
  | e :: events => (ty.entered e).toList ++ lines (ty.step e) events

variable {profile : Profile} {entries : Entries} {hw : Hardware} {s s' : Status} {a : Action}

theorem run_lines {I : List (Hardware × Text) → Status → Prop}
    (hline : ∀ done l s s', I done s → obey profile entries s l = some s' → I (done ++ [l]) s')
    (hserve : ∀ done i s d, I done s → serve s.devices i = some d → I done { s with devices := d })
    (done : List (Hardware × Text)) (events : List Event) {d d' : Desk} (h : I done d.status)
    (hrun : events.foldlM (Desk.step profile entries) d = some d') :
    I (done ++ lines d.typing events) d'.status := by
  induction events generalizing d done with
  | nil =>
    cases hrun
    rw [lines, List.append_nil]
    exact h
  | cons e events ih =>
    rw [List.foldlM_cons] at hrun
    obtain ⟨d₁, hfirst, hrest⟩ := Option.bind_eq_some_iff.mp hrun
    obtain ⟨s₁, hs₁, rfl⟩ := Option.map_eq_some_iff.mp hfirst
    have hstep : I (done ++ (d.typing.entered e).toList) s₁ := by
      cases e with
      | interrupt i =>
        obtain ⟨devices, hdevices, rfl⟩ := Option.map_eq_some_iff.mp hs₁
        rw [Typing.entered, Option.toList_none, List.append_nil]
        exact hserve done i d.status devices h hdevices
      | poll hw =>
        rw [work] at hs₁
        cases hentered : d.typing.entered (.poll hw) with
        | none =>
          rw [hentered] at hs₁
          obtain rfl := Option.some.inj hs₁
          rw [Option.toList_none, List.append_nil]
          exact h
        | some l =>
          rw [hentered] at hs₁
          exact hline done l d.status s₁ h hs₁
    rw [lines, ← List.append_assoc]
    exact ih _ hstep hrest

section tasks

structure IsTask (r : TaskRef) (p : Proc) (t : Task) : Prop where
  id : t.id = r + 1
  name : t.name = p.name
  state : t.state = if p.killed then .terminated else .ready
  foreground : t.foreground = .foreground

def alive (table : List Proc) (r : TaskRef) : Bool := table[r]?.any fun p => !p.killed

/-- The scheduler has the tasks of the table, and the living ones are waiting in its order. -/
structure Represents (table : List Proc) (s : Scheduler) : Prop where
  allTasks : s.allTasks = List.range table.length
  nextRef : s.nextRef = table.length
  nextTaskId : s.statics.nextTaskId = table.length + 1
  current : s.current = none
  tasks : ∀ r p, table[r]? = some p → IsTask r p (s.cells r)
  readyQueue : s.readyQueue = (List.range table.length).filter (alive table)

variable {table : List Proc} {sched : Scheduler} {pid r : Nat}

theorem Represents.isTask (h : Represents table sched) (hr : r < table.length) :
    IsTask r table[r] (sched.cells r) :=
  h.tasks r table[r] (List.getElem?_eq_getElem hr)

theorem Represents.id (h : Represents table sched) (hr : r < table.length) :
    (sched.cells r).id = r + 1 := (h.isTask hr).id

theorem Represents.findTask_eq (h : Represents table sched) (hr : r < table.length) :
    sched.findTask (r + 1) = some r := by
  rw [Scheduler.findTask, h.allTasks, List.find?_range_eq_some]
  refine ⟨decide_eq_true (h.id hr), List.mem_range.mpr hr, fun j hj => ?_⟩
  rw [h.id (hj.trans hr), Bool.not_eq_true', decide_eq_false_iff_not]
  omega

theorem Represents.of_findTask (h : Represents table sched) (hfind : sched.findTask pid = some r) :
    r < table.length ∧ pid = r + 1 := by
  obtain ⟨hmem, hid⟩ := Scheduler.findTask_mem hfind
  rw [h.allTasks, List.mem_range] at hmem
  exact ⟨hmem, hid.symm.trans (h.id hmem)⟩

theorem Represents.foreground_of_findTask (h : Represents table sched)
    (hfind : sched.findTask pid = some r) :
    (sched.cells r).foreground = .foreground := (h.isTask (h.of_findTask hfind).1).foreground

theorem Represents.backgroundTask (h : Represents table sched) (pid : Nat) :
    sched.backgroundTask pid = (sched, .error .invalidArgument) := by
  rw [Scheduler.backgroundTask]
  cases hfind : sched.findTask pid with
  | none => rfl
  | some r => exact if_pos (by rw [h.foreground_of_findTask hfind]; decide)

theorem Represents.foregroundTask (h : Represents table sched) (pid : Nat) :
    sched.foregroundTask pid = (sched, .error .invalidArgument) := by
  rw [Scheduler.foregroundTask]
  cases hfind : sched.findTask pid with
  | none => rfl
  | some r => exact if_pos (h.foreground_of_findTask hfind)

theorem alive_concat (table : List Proc) (p : Proc) :
    (List.range (table ++ [p]).length).filter (alive (table ++ [p])) =
      (List.range table.length).filter (alive table) ++ if p.killed then [] else [table.length] := by
  rw [List.length_append, List.length_singleton, List.range_succ, List.filter_append]
  congr 1
  · refine List.filter_congr fun r hr => ?_
    rw [alive, alive, List.getElem?_append_left (List.mem_range.mp hr)]
  · obtain ⟨name, killed⟩ := p
    rw [List.filter_singleton, alive, List.getElem?_concat_length]
    cases killed <;> rfl

theorem addTask_cells_kept (s : Scheduler) (t : Task × Statics) (now : Nat) :
    ((s.addTask t now).1.cells s.nextRef).name = t.1.name ∧
      ((s.addTask t now).1.cells s.nextRef).foreground = t.1.foreground := by
  rw [Scheduler.addTask_cells_self, Task.setupInitialStack]
  exact ⟨rfl, rfl⟩

theorem addTask_fields (s : Scheduler) (t : Task × Statics) (now : Nat) :
    (s.addTask t now).1.allTasks = s.allTasks ++ [s.nextRef] ∧
      (s.addTask t now).1.nextRef = s.nextRef + 1 ∧
      (s.addTask t now).1.statics.nextTaskId = t.2.nextTaskId ∧ (s.addTask t now).1.current = s.current ∧
      (s.addTask t now).1.readyQueue = s.readyQueue ++ [s.nextRef] := by
  simp only [Scheduler.addTask, and_self]

theorem Represents.addTask (h : Represents table sched) {t : Task × Statics} {p : Proc}
    (ht : Created sched.statics t) (hname : t.1.name = p.name)
    (hforeground : t.1.foreground = .foreground) (hp : p.killed = false) (now : Nat) :
    Represents (table ++ [p]) (sched.addTask t now).1 := by
  obtain ⟨hall, hnext, hid, hcurrent, hqueue⟩ := addTask_fields sched t now
  obtain ⟨hstate, hlabel⟩ := Placement.addTask_cells_new sched t now
  obtain ⟨hnewName, hmode⟩ := addTask_cells_kept sched t now
  have hold : ∀ r, r ≠ sched.nextRef → (sched.addTask t now).1.cells r = sched.cells r :=
    fun r hr => Scheduler.addTask_cells_of_ne t now hr
  have hlen : (table ++ [p]).length = table.length + 1 := List.length_append
  generalize (sched.addTask t now).1 = s
    at hall hnext hid hcurrent hqueue hstate hlabel hnewName hmode hold ⊢
  rw [h.nextRef] at hall hnext hqueue hstate hlabel hnewName hmode hold
  refine ⟨?_, ?_, ?_, hcurrent.trans h.current, fun r q hq => ?_, ?_⟩
  · rw [hall, hlen, List.range_succ, h.allTasks]
  · rw [hnext, hlen]
  · rw [hid, ht.nextTaskId, hlen, h.nextTaskId]
  · obtain hlt | rfl | hgt := lt_trichotomy r table.length
    · rw [List.getElem?_append_left hlt] at hq
      rw [hold r hlt.ne]
      exact h.tasks r q hq
    · rw [List.getElem?_concat_length] at hq
      obtain rfl := Option.some.inj hq
      refine ⟨?_, hnewName.trans hname, ?_, hmode.trans hforeground⟩
      · rw [hlabel, ht.id, h.nextTaskId]
      · rw [hstate, ht.state, hp]
        rfl
    · rw [List.getElem?_eq_none (by rw [hlen]; exact hgt)] at hq
      cases hq
  · rw [hqueue, alive_concat, hp, h.readyQueue]
    rfl

theorem Represents.create (h : Represents table sched) (entry : Word) (name : String) (now : Nat) :
    Represents (table ++ [⟨name, false⟩]) (step sched (.createKernelTask entry name now)) :=
  h.addTask (created_newKernel sched.statics entry name) rfl rfl rfl now

theorem Represents.counted (h : Represents table sched) {sched' : Scheduler}
    (hcounted : Counted sched sched') : Represents table sched' := by
  obtain ⟨ticks, schedulerTicks, need, rfl⟩ := hcounted
  exact ⟨h.allTasks, h.nextRef, h.nextTaskId, h.current, h.tasks, h.readyQueue⟩

theorem getElem?_kill (h : ¬pid ≤ 2) : (kill table pid)[r]? =
    table[r]?.map fun p => if pid - 1 = r then { p with killed := true } else p := by
  rw [kill, if_neg h, List.getElem?_modify]
  rfl

theorem length_kill (table : List Proc) (pid : Nat) : (kill table pid).length = table.length := by
  rw [kill]
  split
  · rfl
  · exact List.length_modify ..

theorem alive_kill (h : ¬pid ≤ 2) (r : Nat) :
    alive (kill table pid) r = (alive table r && decide (r + 1 ≠ pid)) := by
  rw [alive, alive, getElem?_kill h]
  have hiff : pid - 1 = r ↔ r + 1 = pid := by omega
  cases table[r]? with
  | none => rfl
  | some p =>
    by_cases hr : r + 1 = pid
    · simp [hiff, hr]
    · simp [hiff, hr]

theorem Represents.isTask_killed (h : Represents table sched) (hpid : ¬r + 1 ≤ 2) {q : Nat} {p : Proc}
    (hp : (kill table (r + 1))[q]? = some p) :
    IsTask q p ((sched.modify r fun t => { t with state := .terminated, exitCode := -9 }).cells q) := by
  rw [getElem?_kill hpid, Nat.add_sub_cancel] at hp
  obtain ⟨p, hp', rfl⟩ := Option.map_eq_some_iff.mp hp
  have htask := h.tasks q p hp'
  obtain rfl | hne := eq_or_ne q r
  · simp only [if_true, Scheduler.modify_cells, Function.update_self]
    exact ⟨htask.id, htask.name, rfl, htask.foreground⟩
  · simp only [if_neg hne.symm, Scheduler.modify_cells, Function.update_of_ne hne]
    exact htask

theorem Represents.terminate (h : Represents table sched) (pid : Nat) :
    Represents (kill table pid) (step sched (.terminateTask pid (-9))) := by
  change Represents _ (sched.terminateTask pid (-9)).1
  rw [Scheduler.terminateTask]
  split
  · rename_i hsystem
    rw [kill, if_pos hsystem]
    exact h
  · rename_i hpid
    cases hfind : sched.findTask pid with
    | none =>
      have hout : table.length ≤ pid - 1 := by
        by_contra hin
        have hfound := h.findTask_eq (r := pid - 1) (by omega)
        rw [show pid - 1 + 1 = pid by omega, hfind] at hfound
        cases hfound
      rw [kill, if_neg hpid, List.modify_eq_self hout]
      exact h
    | some r =>
      obtain ⟨-, rfl⟩ := h.of_findTask hfind
      have hlen := length_kill table (r + 1)
      refine ⟨?_, ?_, ?_, h.current, fun q p hp => h.isTask_killed hpid hp, ?_⟩
      · rw [hlen]
        exact h.allTasks
      · rw [hlen]
        exact h.nextRef
      · rw [hlen]
        exact h.nextTaskId
      · simp only [hlen, Scheduler.modify_readyQueue, h.readyQueue, List.filter_filter]
        refine List.filter_congr fun q hq => ?_
        have hlt : q < (kill table (r + 1)).length := hlen ▸ List.mem_range.mp hq
        rw [(h.isTask_killed hpid (List.getElem?_eq_getElem hlt)).id, alive_kill hpid, Bool.and_comm]

end tasks

section lines

/-- What any line may do: read the clock, reset the machine, ask the local APIC for its number. -/
def Harmless (x : Access) : Prop := x ∈ clockReads ∨ x = .outb 0x64 0xFE ∨ x = .readLapic

/-- What a line of the developer mode does. The word behind the command is not looked at. -/
inductive DevAccess : List Text → Access → Prop
  | mem {skipped word : Text} {rest : List Text} {i : Nat} (hzero : hexNumber word ≠ 0) (hi : i < 64) :
      DevAccess (ascii "mem" :: skipped :: word :: rest)
        (.readByte (BitVec.ofNat 64 (hexNumber word + i)))
  | regs {rest : List Text} : DevAccess (ascii "regs" :: rest) .readCr
  | ioIn {skipped word : Text} {rest : List Text} :
      DevAccess (ascii "io" :: skipped :: ascii "in" :: word :: rest)
        (.inb (BitVec.ofNat 16 (hexNumber word)))
  | ioOut {skipped word val : Text} {rest : List Text} :
      DevAccess (ascii "io" :: skipped :: ascii "out" :: word :: val :: rest)
        (.outb (BitVec.ofNat 16 (hexNumber word)) (BitVec.ofNat 8 (hexNumber val)))

/-- What the other commands do, which leave the tasks and the developer mode alone. -/
inductive Other (s : Status) (words : List Text) : Action → Prop
  | report : Other s words .report
  | harmless {as : List Access} (h : ∀ x ∈ as, Harmless x) : Other s words (.touch as)
  | developer {as : List Access} (hmode : s.devMode = true) (h : ∀ x ∈ as, DevAccess words x) :
      Other s words (.touch as)
  | background (pid : Nat) : Other s words (.process (.backgroundTask pid))
  | foreground (pid : Nat) : Other s words (.process (.foregroundTask pid))

variable {cmd : Text} {args words : List Text}

theorem choose_cases {as : List (String × (Status → List Text → Option Action))}
    (h : choose s cmd args as = some a) :
    ((∀ e ∈ as, cmd ≠ ascii e.1) ∧ a = .report) ∨ ∃ e ∈ as, cmd = ascii e.1 ∧ e.2 s args = some a := by
  induction as with
  | nil =>
    cases h
    exact .inl ⟨List.forall_mem_nil _, rfl⟩
  | cons e as ih =>
    rw [choose] at h
    split at h
    · rename_i hcmd
      exact .inr ⟨e, List.mem_cons_self, hcmd, h⟩
    · rename_i hcmd
      obtain ⟨hnone, ha⟩ | ⟨e', he', hfound⟩ := ih h
      · exact .inl ⟨List.forall_mem_cons.mpr ⟨hcmd, hnone⟩, ha⟩
      · exact .inr ⟨e', List.mem_cons_of_mem _ he', hfound⟩

theorem eq_of_parseHex {word : Text} {n : Nat} (h : parseHex profile (str word) = some n) :
    n = hexNumber word :=
  eq_of_parseDigits h

theorem reading_other (h : reading profile hw args = some a) (hmode : s.devMode = true) :
    Other s (ascii "mem" :: args) a := by
  match args with
  | skipped :: word :: rest =>
    rw [reading] at h
    obtain ⟨addr, haddr, hdump⟩ := Option.bind_eq_some_iff.mp h
    obtain rfl := eq_of_parseHex haddr
    rw [dumping] at hdump
    split at hdump
    · cases hdump
      exact .report
    · rename_i hzero
      obtain ⟨-, hdump⟩ := Option.ite_none_right_eq_some.mp hdump
      cases hdump
      refine .developer hmode fun x hx => ?_
      obtain ⟨i, hi, rfl⟩ := List.mem_map.mp hx
      exact .mem hzero (List.mem_range.mp hi)
  | [_] =>
    cases h
    exact .report
  | [] =>
    cases h
    exact .report

theorem writing_other {skipped word : Text} (h : writing profile (hexNumber word) args = some a)
    (hmode : s.devMode = true) : Other s (ascii "io" :: skipped :: ascii "out" :: word :: args) a := by
  cases args with
  | nil =>
    cases h
    exact .report
  | cons value rest =>
    obtain ⟨val, hval, rfl⟩ := Option.map_eq_some_iff.mp h
    obtain rfl := eq_of_parseHex hval
    exact .developer hmode fun x hx => List.mem_singleton.mp hx ▸ .ioOut

theorem portAccess_other (h : portAccess profile args = some a) (hmode : s.devMode = true) :
    Other s (ascii "io" :: args) a := by
  match args with
  | skipped :: direction :: word :: rest =>
    rw [portAccess] at h
    obtain ⟨port, hport, hact⟩ := Option.bind_eq_some_iff.mp h
    obtain rfl := eq_of_parseHex hport
    split_ifs at hact with hinvalid hin hout
    · cases hact
      exact .report
    · cases hact
      rw [hin]
      exact .developer hmode fun x hx => List.mem_singleton.mp hx ▸ .ioIn
    · rw [hout]
      exact writing_other hact hmode
    · cases hact
      exact .report
  | [_, _] =>
    cases h
    exact .report
  | [_] =>
    cases h
    exact .report
  | [] =>
    cases h
    exact .report

theorem inDevMode_other {action : Option Action} (h : inDevMode s action = some a)
    (hother : action = some a → s.devMode = true → Other s words a) : Other s words a := by
  rw [inDevMode] at h
  split at h
  · rename_i hmode
    exact hother h hmode
  · cases h
    exact .report

theorem lapicReads_other (hw : Hardware) : Other s words (lapicReads hw) := by
  rw [lapicReads]
  split
  · exact .harmless fun x hx => .inr (.inr (List.mem_singleton.mp hx))
  · exact .report

theorem named_other {act : Nat → Action} (hact : ∀ pid, Other s words (act pid))
    (h : named profile act args = some a) : Other s words a := by
  cases args with
  | nil =>
    cases h
    exact .report
  | cons word rest =>
    obtain ⟨pid, -, rfl⟩ := Option.map_eq_some_iff.mp h
    exact hact pid

/-- A command starts a task, kills one, changes the mode or does none of these. -/
def Classified (profile : Profile) (entries : Entries) (s : Status) (cmd : Text) (args : List Text)
    (a : Action) : Prop :=
  (cmd = ascii "run" ∧ a = starting entries s.devices.timer.tickCount.toNat args) ∨
    (cmd = ascii "kill" ∧ named profile killing args = some a) ∨
    (cmd = ascii "dev" ∧ a = .toggleDev) ∨
    (cmd ∉ [ascii "run", ascii "kill", ascii "dev"] ∧ Other s (cmd :: args) a)

def otherNames : List String :=
  ["info", "time", "help", "clear", "reboot", "ps", "bg", "fg", "sched", "mem", "regs", "io",
    "pmm", "apic"]

theorem otherNames_ne : ∀ name ∈ otherNames, ascii name ∉ [ascii "run", ascii "kill", ascii "dev"] :=
  by decide +kernel

theorem classified_other {name : String} (hname : name ∈ otherNames)
    (h : Other s (ascii name :: args) a) :
    Classified profile entries s (ascii name) args a := .inr (.inr (.inr ⟨otherNames_ne name hname, h⟩))

theorem actions_classified : ∀ e ∈ actions profile entries hw, ∀ s args a, e.2 s args = some a →
    Classified profile entries s (ascii e.1) args a := by
  have hreport {name : String} (hname : name ∈ otherNames) :
      ∀ (s : Status) (args : List Text) (a : Action),
      some .report = some a → Classified profile entries s (ascii name) args a := by
    rintro s args a ⟨⟩
    exact classified_other hname .report
  simp only [actions, List.forall_mem_cons]
  refine ⟨?info, ?time, ?dev, hreport (by decide), hreport (by decide), ?reboot, hreport (by decide),
    ?kill, ?run, ?bg, ?fg, hreport (by decide), ?mem, ?regs, ?io, ?pmm, ?apic, List.forall_mem_nil _⟩
  case info =>
    rintro s args a ⟨⟩
    exact classified_other (by decide) (lapicReads_other hw)
  case time =>
    rintro s args a ⟨⟩
    exact classified_other (by decide) (.harmless fun x hx => .inl hx)
  case dev =>
    rintro s args a ⟨⟩
    exact .inr (.inr (.inl ⟨rfl, rfl⟩))
  case reboot =>
    rintro s args a ⟨⟩
    exact classified_other (by decide) (.harmless fun x hx => .inr (.inl (List.mem_singleton.mp hx)))
  case kill =>
    intro s args a h
    exact .inr (.inl ⟨rfl, h⟩)
  case run =>
    rintro s args a ⟨⟩
    exact .inl ⟨rfl, rfl⟩
  case bg =>
    intro s args a h
    exact classified_other (by decide) (named_other (fun pid => .background pid) h)
  case fg =>
    intro s args a h
    exact classified_other (by decide) (named_other (fun pid => .foreground pid) h)
  case mem =>
    intro s args a h
    exact classified_other (by decide) (inDevMode_other h reading_other)
  case regs =>
    intro s args a h
    refine classified_other (by decide) (inDevMode_other h fun ha hmode => ?_)
    cases ha
    exact .developer hmode fun x hx => List.mem_singleton.mp hx ▸ .regs
  case io =>
    intro s args a h
    exact classified_other (by decide) (inDevMode_other h portAccess_other)
  case pmm =>
    intro s args a h
    refine classified_other (by decide) (inDevMode_other h fun ha _ => ?_)
    cases ha
    exact .report
  case apic =>
    intro s args a h
    refine classified_other (by decide) (inDevMode_other h fun ha _ => ?_)
    cases ha
    exact lapicReads_other hw

theorem meaning_cases (h : meaning profile entries hw s (cmd :: args) = some a) :
    Classified profile entries s cmd args a := by
  obtain ⟨hnone, rfl⟩ | ⟨e, he, rfl, hact⟩ := choose_cases h
  · -- the command is unknown
    have hrun := hnone _ (List.mem_of_getElem? (show (actions profile entries hw)[8]? = some _ from rfl))
    have hkill :=
      hnone _ (List.mem_of_getElem? (show (actions profile entries hw)[7]? = some _ from rfl))
    have hdev := hnone _ (List.mem_of_getElem? (show (actions profile entries hw)[2]? = some _ from rfl))
    refine .inr (.inr (.inr ⟨?_, .report⟩))
    simp only [List.mem_cons, List.not_mem_nil, or_false, not_or]
    exact ⟨hrun, hkill, hdev⟩
  · exact actions_classified e he s args a hact

end lines

section processes

variable {table : List Proc} {sched : Scheduler} {l : Hardware × Text} {cmd : Text} {args : List Text}

theorem account_other (hrun : cmd ≠ ascii "run") (hkill : cmd ≠ ascii "kill") :
    account entries table (cmd :: args) = table := by
  cases args with
  | nil => rfl
  | cons arg rest => rw [account, if_neg hrun, if_neg hkill]

theorem perform_other (ha : Other s (cmd :: args) a) (hs : s.devices.scheduler = some sched)
    (h : Represents table sched) : (perform s a).devices.scheduler = some sched := by
  cases ha with
  | report => exact hs
  | harmless => exact hs
  | developer => exact hs
  | background pid =>
    have hsame : step sched (.backgroundTask pid) = sched := congrArg Prod.fst (h.backgroundTask pid)
    rw [perform, hs, Option.map_some, hsame]
  | foreground pid =>
    have hsame : step sched (.foregroundTask pid) = sched := congrArg Prod.fst (h.foregroundTask pid)
    rw [perform, hs, Option.map_some, hsame]

theorem perform_starting (hs : s.devices.scheduler = some sched) (h : Represents table sched) (now : Nat)
    (args : List Text) : ∃ sched',
      (perform s (starting entries now args)).devices.scheduler = some sched' ∧
      Represents (account entries table (ascii "run" :: args)) sched' := by
  cases args with
  | nil => exact ⟨sched, hs, h⟩
  | cons arg rest =>
    rw [account, if_pos rfl, starting]
    cases taskEntry entries arg with
    | none =>
      refine ⟨sched, hs, ?_⟩
      rw [Option.map_none, Option.toList_none, List.append_nil]
      exact h
    | some task =>
      refine ⟨step sched (.createKernelTask task.1 task.2 now), ?_, h.create task.1 task.2 now⟩
      rw [Option.map_some, Option.getD_some, perform, hs, Option.map_some]

theorem perform_killing (hs : s.devices.scheduler = some sched) (h : Represents table sched)
    (ha : named profile killing args = some a) :
    ∃ sched', (perform s a).devices.scheduler = some sched' ∧
      Represents (account entries table (ascii "kill" :: args)) sched' := by
  cases args with
  | nil =>
    cases ha
    exact ⟨sched, hs, h⟩
  | cons arg rest =>
    obtain ⟨pid, hpid, rfl⟩ := Option.map_eq_some_iff.mp ha
    obtain rfl : pid = number arg := eq_of_parseInt hpid
    have hne : ascii "kill" ≠ ascii "run" := by decide +kernel
    rw [account, if_neg hne, if_pos rfl, killing]
    split
    · rename_i hzero
      rw [hzero, kill, if_pos (Nat.zero_le 2)]
      exact ⟨sched, hs, h⟩
    · refine ⟨Sched.step sched (.terminateTask (number arg) (-9)), ?_, h.terminate _⟩
      rw [perform, hs, Option.map_some]

theorem obey_represents (hl : obey profile entries s l = some s') (hs : s.devices.scheduler = some sched)
    (h : Represents table sched) : ∃ sched', s'.devices.scheduler = some sched' ∧
      Represents (account entries table (parts l.2)) sched' := by
  obtain ⟨a, ha, rfl⟩ := Option.map_eq_some_iff.mp hl
  cases hwords : parts l.2 with
  | nil =>
    rw [hwords] at ha
    cases ha
    exact ⟨sched, hs, h⟩
  | cons cmd args =>
    rw [hwords] at ha
    obtain ⟨rfl, rfl⟩ | ⟨rfl, hkill⟩ | ⟨rfl, rfl⟩ | ⟨hcmd, hother⟩ := meaning_cases ha
    · exact perform_starting hs h _ args
    · exact perform_killing hs h hkill
    · rw [account_other (by decide +kernel) (by decide +kernel)]
      exact ⟨sched, hs, h⟩
    · rw [account_other (List.ne_of_not_mem_cons hcmd)
        (List.ne_of_not_mem_cons (List.not_mem_of_not_mem_cons hcmd))]
      exact ⟨sched, perform_other hother hs h, h⟩

def processes (entries : Entries) (table : List Proc) (ls : List (Hardware × Text)) : List Proc :=
  ls.foldl (fun table l => account entries table (parts l.2)) table

theorem processes_concat (table : List Proc) (ls : List (Hardware × Text)) (l : Hardware × Text) :
    processes entries table (ls ++ [l]) = account entries (processes entries table ls) (parts l.2) :=
  List.foldl_concat ..

def Tabled (entries : Entries) (done : List (Hardware × Text)) (s : Status) : Prop :=
  ∃ sched, s.devices.scheduler = some sched ∧ Represents (processes entries [⟨"idle", false⟩] done) sched

theorem Tabled.line {done : List (Hardware × Text)} (h : Tabled entries done s)
    (hl : obey profile entries s l = some s') : Tabled entries (done ++ [l]) s' := by
  obtain ⟨sched, hs, hsched⟩ := h
  rw [Tabled, processes_concat]
  exact obey_represents hl hs hsched

theorem Tabled.serve {done : List (Hardware × Text)} {i : Interrupt} {d : Devices}
    (h : Tabled entries done s) (hd : serve s.devices i = some d) :
    Tabled entries done { s with devices := d } := by
  obtain ⟨sched, hs, hsched⟩ := h
  obtain ⟨sched', hs', hcounted⟩ := serve_counted hs hsched.current hd
  exact ⟨sched', hs', hsched.counted hcounted⟩

/-- The first two processes are alive. -/
def Spared (table : List Proc) : Prop := ∀ r < 2, ∀ p, table[r]? = some p → p.killed = false

theorem spared_kill (h : Spared table) (pid : Nat) : Spared (kill table pid) := by
  intro r hr p hp
  by_cases hpid : pid ≤ 2
  · rw [kill, if_pos hpid] at hp
    exact h r hr p hp
  · rw [getElem?_kill hpid] at hp
    obtain ⟨q, hq, rfl⟩ := Option.map_eq_some_iff.mp hp
    rw [if_neg (show pid - 1 ≠ r by omega)]
    exact h r hr q hq

theorem spared_append (h : Spared table) {new : List Proc} (hnew : ∀ p ∈ new, p.killed = false) :
    Spared (table ++ new) := by
  intro r hr p hp
  obtain hlt | hge := Nat.lt_or_ge r table.length
  · rw [List.getElem?_append_left hlt] at hp
    exact h r hr p hp
  · rw [List.getElem?_append_right hge] at hp
    exact hnew p (List.mem_of_getElem? hp)

theorem spared_account (h : Spared table) (words : List Text) :
    Spared (account entries table words) := by
  match words with
  | cmd :: arg :: _ =>
    rw [account]
    split_ifs
    · refine spared_append h fun p hp => ?_
      obtain ⟨task, -, rfl⟩ := Option.map_eq_some_iff.mp (Option.mem_toList.mp hp)
      rfl
    · exact spared_kill h _
    · exact h
  | [_] => exact h
  | [] => exact h

theorem spared_processes (h : Spared table) (ls : List (Hardware × Text)) :
    Spared (processes entries table ls) := by
  induction ls generalizing table with
  | nil => exact h
  | cons l ls ih => exact ih (spared_account h _)

end processes

/-- Whatever is typed after the boot, for as long as the shell has the processor, the tasks of the
scheduler are the idle task and those that were started, with numbers in the order of their start.
Those are terminated that were killed, which the first two cannot be; the others wait in order. No
process can be sent to the background or to the foreground. -/
theorem shell_processes (image : Image) (syscall : Devices → Devices) (profile : Profile)
    (entries : Entries) (k : KernelShell.Kernel) (hk : Tidy k.console)
    (hkeyboard : KeyboardFifo.Bounded k.status.devices.keyboard)
    (sched : Scheduler) (hs : k.status.devices.scheduler = some sched)
    (hboot : Represents [⟨"idle", false⟩] sched)
    (events : List Event) (t : Terminal) (ht : live image syscall profile entries k events = some t) :
    let ls := lines (desk ⟨[], k.status⟩).typing events
    ∃ sched', t.kernel.status.devices.scheduler = some sched' ∧
      Represents (processes entries [⟨"idle", false⟩] ls) sched' ∧
        Spared (processes entries [⟨"idle", false⟩] ls) ∧
      ∀ pid, sched'.backgroundTask pid = (sched', .error .invalidArgument) ∧
        sched'.foregroundTask pid = (sched', .error .invalidArgument) := by
  intro ls
  have hrun := @live_shows profile entries image syscall k hk hkeyboard events
  rw [ht, Option.map_some, eq_comm] at hrun
  have htabled : Tabled entries ls (desk (session t)).status :=
    run_lines (fun done l s s' h hl => h.line hl) (fun done i s d h hd => h.serve hd) [] events
      ⟨sched, hs, hboot⟩ hrun
  obtain ⟨sched', hs', h⟩ := htabled
  have hspared : Spared [⟨"idle", false⟩] := by
    intro r _ p hp
    obtain rfl := List.mem_singleton.mp (List.mem_of_getElem? hp)
    rfl
  exact ⟨sched', hs', h, spared_processes hspared _,
    fun pid => ⟨h.backgroundTask pid, h.foregroundTask pid⟩⟩

section developer

variable {l : Hardware × Text}

def isDev (l : Hardware × Text) : Bool := (parts l.2).head? = some (ascii "dev")

def OfScheduler (a : Action) : Prop := a = .report ∨ ∃ op, a = .process op

theorem starting_ofScheduler (now : Nat) (args : List Text) :
    OfScheduler (starting entries now args) := by
  cases args with
  | nil => exact .inl rfl
  | cons arg rest =>
    rw [starting]
    cases taskEntry entries arg with
    | none => exact .inl rfl
    | some task => exact .inr ⟨_, rfl⟩

theorem killing_ofScheduler {args : List Text} (h : named profile killing args = some a) :
    OfScheduler a := by
  cases args with
  | nil =>
    cases h
    exact .inl rfl
  | cons arg rest =>
    obtain ⟨pid, -, rfl⟩ := Option.map_eq_some_iff.mp h
    rw [killing]
    split
    · exact .inl rfl
    · exact .inr ⟨_, rfl⟩

structure Effects (words : List Text) (s s' : Status) : Prop where
  devMode : s'.devMode = if words.head? = some (ascii "dev") then !s.devMode else s.devMode
  accesses : ∀ x ∈ s'.accesses, x ∈ s.accesses ∨ Harmless x ∨ s.devMode = true ∧ DevAccess words x

theorem effects_of_append {cmd : Text} (hcmd : cmd ≠ ascii "dev") (args : List Text)
    (hmode : s'.devMode = s.devMode) {as : List Access} (haccesses : s'.accesses = s.accesses ++ as)
    (h : ∀ x ∈ as, Harmless x ∨ s.devMode = true ∧ DevAccess (cmd :: args) x) :
    Effects (cmd :: args) s s' := by
  have hhead : (cmd :: args).head? ≠ some (ascii "dev") := fun h => hcmd (Option.some.inj h)
  refine ⟨?_, fun x hx => ?_⟩
  · rw [if_neg hhead, hmode]
  · rw [haccesses] at hx
    exact (List.mem_append.mp hx).imp_right (h x)

theorem OfScheduler.effects (h : OfScheduler a) {cmd : Text} (hcmd : cmd ≠ ascii "dev")
    (args : List Text) : Effects (cmd :: args) s (perform s a) := by
  obtain rfl | ⟨op, rfl⟩ := h
  · exact effects_of_append hcmd args rfl (List.append_nil _).symm (List.forall_mem_nil _)
  · exact effects_of_append hcmd args rfl (List.append_nil _).symm (List.forall_mem_nil _)

theorem Other.effects {cmd : Text} {args : List Text} (h : Other s (cmd :: args) a)
    (hcmd : cmd ≠ ascii "dev") : Effects (cmd :: args) s (perform s a) := by
  cases h with
  | report => exact OfScheduler.effects (.inl rfl) hcmd args
  | background => exact OfScheduler.effects (.inr ⟨_, rfl⟩) hcmd args
  | foreground => exact OfScheduler.effects (.inr ⟨_, rfl⟩) hcmd args
  | harmless hall => exact effects_of_append hcmd args rfl rfl fun x hx => .inl (hall x hx)
  | developer hmode hall => exact effects_of_append hcmd args rfl rfl fun x hx => .inr ⟨hmode, hall x hx⟩

theorem obey_effects (hl : obey profile entries s l = some s') : Effects (parts l.2) s s' := by
  obtain ⟨a, ha, rfl⟩ := Option.map_eq_some_iff.mp hl
  cases hwords : parts l.2 with
  | nil =>
    rw [hwords] at ha
    cases ha
    exact ⟨(if_neg (fun h => by cases h)).symm, fun x hx => .inl hx⟩
  | cons cmd args =>
    rw [hwords] at ha
    obtain ⟨rfl, rfl⟩ | ⟨rfl, hkill⟩ | ⟨rfl, rfl⟩ | ⟨hcmd, hother⟩ := meaning_cases ha
    · exact (starting_ofScheduler _ args).effects (by decide +kernel) args
    · exact (killing_ofScheduler hkill).effects (by decide +kernel) args
    · exact ⟨(if_pos rfl).symm, fun x hx => .inl hx⟩
    · refine hother.effects fun hdev => hcmd ?_
      rw [hdev]
      exact List.mem_cons_of_mem _ (List.mem_cons_of_mem _ List.mem_cons_self)

/-- What has been done after some lines, and the mode. -/
structure Accounted (done : List (Hardware × Text)) (s : Status) : Prop where
  devMode : s.devMode = true ↔ Odd (done.countP isDev)
  accesses : ∀ x ∈ s.accesses, Harmless x ∨
    ∃ before l after, done = before ++ l :: after ∧ Odd (before.countP isDev) ∧ DevAccess (parts l.2) x

theorem Accounted.line {done : List (Hardware × Text)} (h : Accounted done s)
    (hl : obey profile entries s l = some s') : Accounted (done ++ [l]) s' := by
  have heffects := obey_effects hl
  constructor
  · rw [heffects.devMode, List.countP_append, List.countP_singleton]
    by_cases hdev : (parts l.2).head? = some (ascii "dev")
    · simp [isDev, hdev, Nat.odd_add_one, ← h.devMode]
    · simp [isDev, hdev, h.devMode]
  · intro x hx
    obtain hx | hx | ⟨hmode, hx⟩ := heffects.accesses x hx
    · refine (h.accesses x hx).imp_right ?_
      rintro ⟨before, l', after, rfl, hodd, hx⟩
      exact ⟨before, l', after ++ [l], by rw [List.append_assoc]; rfl, hodd, hx⟩
    · exact .inl hx
    · exact .inr ⟨done, l, [], rfl, h.devMode.mp hmode, hx⟩

end developer

/-- Apart from the clock, the local APIC and the reset, and from the serial port, to which goes all
that is printed, the shell touches memory, ports and control registers only for a line that was typed
after an odd number of `dev` lines, and as that line says. -/
theorem shell_accesses (image : Image) (syscall : Devices → Devices) (profile : Profile)
    (entries : Entries) (k : KernelShell.Kernel) (hk : Tidy k.console)
    (hkeyboard : KeyboardFifo.Bounded k.status.devices.keyboard)
    (hmode : k.status.devMode = false) (hnone : k.status.accesses = []) (events : List Event)
    (t : Terminal) (ht : live image syscall profile entries k events = some t) :
    ∀ x ∈ t.kernel.status.accesses, Harmless x ∨
      ∃ before l after, lines (desk ⟨[], k.status⟩).typing events = before ++ l :: after ∧
        Odd (before.countP isDev) ∧ DevAccess (parts l.2) x := by
  have hrun := @live_shows profile entries image syscall k hk hkeyboard events
  rw [ht, Option.map_some, eq_comm] at hrun
  have hstart : Accounted [] (desk ⟨[], k.status⟩).status := by
    refine ⟨?_, fun x hx => ?_⟩
    · change k.status.devMode = true ↔ _
      simp [hmode]
    · change x ∈ k.status.accesses at hx
      rw [hnone] at hx
      cases hx
  have hend : Accounted (lines _ events) _ := run_lines (fun done l s s' h hl => h.line hl)
    (fun done i s d h _ => ⟨h.devMode, h.accesses⟩) [] events hstart hrun
  exact hend.accesses

section boot

theorem represents_new {g : Statics} (h : g.nextTaskId = 1) : Represents [] (Scheduler.new g) :=
  ⟨rfl, rfl, h, rfl, fun r p hp => (by cases hp), rfl⟩

theorem Represents.enablePreemption {table : List Proc} {sched : Scheduler}
    (h : Represents table sched) :
    Represents table sched.enablePreemption :=
  ⟨h.allTasks, h.nextRef, h.nextTaskId, h.current, h.tasks, h.readyQueue⟩

theorem bootScheduler_represents : Represents [⟨"idle", false⟩] bootScheduler :=
  ((represents_new (g := { mem := fun _ => 0 }) rfl).addTask (p := ⟨"idle", false⟩)
    ((created_newKernel _ 0x100000 "idle").withPriority .low) rfl rfl rfl 0).enablePreemption

def keysFor (text : String) : List Event :=
  (ascii text).flatMap fun ch =>
    [.interrupt (nextLineInterrupt (BitVec.ofNat 8 (scancodeToAscii.idxOf ch))), .poll smallHardware]

theorem live_of_desk {k : KernelShell.Kernel} (hk : Tidy k.console)
    (hkeyboard : KeyboardFifo.Bounded k.status.devices.keyboard) (events : List Event)
    (h : (events.foldlM (Desk.step .debug someEntries) (desk ⟨[], k.status⟩)).isSome) :
    ∃ t, live sampleImage id .debug someEntries k events = some t := by
  rw [← @live_shows .debug someEntries sampleImage id k hk hkeyboard, Option.isSome_map] at h
  exact Option.isSome_iff_exists.mp h

theorem bootedKernel_bounded : KeyboardFifo.Bounded bootedKernel.status.devices.keyboard :=
  ⟨by decide, by decide⟩

def typedRuns : List Event := keysFor "run demo\nkill 2\nrun counter\nkill 3\n"

theorem typedRuns_processes :
    processes someEntries [⟨"idle", false⟩] (lines (desk ⟨[], bootedKernel.status⟩).typing typedRuns) =
      [⟨"idle", false⟩, ⟨"demo", false⟩, ⟨"counter", true⟩] ∧
    ∃ t sched', live sampleImage id .debug someEntries bootedKernel typedRuns = some t ∧
      t.kernel.status.devices.scheduler = some sched' ∧
      Represents (processes someEntries [⟨"idle", false⟩]
        (lines (desk ⟨[], bootedKernel.status⟩).typing typedRuns)) sched' := by
  obtain ⟨t, ht⟩ := live_of_desk cleared_tidy bootedKernel_bounded typedRuns (by decide +kernel)
  obtain ⟨sched', hs', h, -⟩ := shell_processes sampleImage id .debug someEntries bootedKernel
    cleared_tidy bootedKernel_bounded bootScheduler rfl bootScheduler_represents typedRuns t ht
  exact ⟨by decide +kernel, t, sched', ht, hs', h⟩

/-- The form that `help` shows, and one that works. -/
def typedDumps : List Event := keysFor "dev\nmem 0x1000\nmem at 0x1000\n"

theorem typedDumps_accesses : ∃ t,
    live sampleImage id .debug someEntries bootedKernel typedDumps = some t ∧
    ∀ x ∈ t.kernel.status.accesses, Harmless x ∨
      ∃ before l after, lines (desk ⟨[], bootedKernel.status⟩).typing typedDumps = before ++ l :: after ∧
        Odd (before.countP isDev) ∧ DevAccess (parts l.2) x := by
  obtain ⟨t, ht⟩ := live_of_desk cleared_tidy bootedKernel_bounded typedDumps (by decide +kernel)
  exact ⟨t, ht, shell_accesses sampleImage id .debug someEntries bootedKernel cleared_tidy
    bootedKernel_bounded rfl rfl typedDumps t ht⟩

end boot

end DeltaOS.ProcessTable
