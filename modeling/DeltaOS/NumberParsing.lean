import DeltaOS.Numerals
import DeltaOS.Overflow
import DeltaOS.SchedSteps

namespace DeltaOS.NumberParsing

open Kernel Overflow Numerals Tasks Sched

abbrev Str := List Char

def decDigit (ch : Char) : Option Nat :=
  if '0' ≤ ch ∧ ch ≤ '9' then some (ch.toNat - '0'.toNat) else none

def hexDigit (ch : Char) : Option Nat :=
  if '0' ≤ ch ∧ ch ≤ '9' then some (ch.toNat - '0'.toNat)
  else if 'a' ≤ ch ∧ ch ≤ 'f' then some (ch.toNat - 'a'.toNat + 10)
  else if 'A' ≤ ch ∧ ch ≤ 'F' then some (ch.toNat - 'A'.toNat + 10)
  else none

/-- The loop of `parse_hex` and `parse_int`: no result where the arithmetic panics, zero at a
character that is no digit. -/
def parseDigits (profile : Profile) (base : Nat) (digit : Char → Option Nat) : Nat → Str → Option Nat
  | result, [] => some result
  | result, ch :: s => do
    let result ← mul profile result base
    match digit ch with
    | some d => do
      let result ← add profile result d
      parseDigits profile base digit result s
    | none => some 0

def lower : Str := ['0', 'x']

def upper : Str := ['0', 'X']

/-- `s.strip_prefix(p).unwrap_or(s)`. -/
def stripPrefix (p s : Str) : Str := if p.isPrefixOf s then s.drop p.length else s

def parseHex (profile : Profile) (s : Str) : Option Nat :=
  parseDigits profile 16 hexDigit 0 (stripPrefix upper (stripPrefix lower s))

def startsHex (s : Str) : Bool := lower.isPrefixOf s || upper.isPrefixOf s

def parseInt (profile : Profile) (s : Str) : Option Nat :=
  if startsHex s then parseHex profile s else parseDigits profile 10 decDigit 0 s

/-- The number that a string denotes, in decimal digits or in hexadecimal ones behind `0x` or `0X`. -/
def denoted (s : Str) : Option Nat :=
  if startsHex s then value 16 hexDigit (s.drop 2) else value 10 decDigit s

/-- The number that a string stands for, which is zero when it denotes none that fits in a word. -/
def meant (s : Str) : Nat :=
  match denoted s with
  | some n => if n < usizeRange then n else 0
  | none => 0

def scanned (s : Str) : Option Nat :=
  if startsHex s then value 16 hexDigit (stripPrefix upper (stripPrefix lower s))
    else value 10 decDigit s

def Stacked (s : Str) : Prop := (lower ++ upper).isPrefixOf s

/-- The number that is read fits in a word and has one prefix at most, or wraps to zero. -/
def Harmless (s : Str) : Prop := ∀ n, scanned s = some n → n % usizeRange = 0 ∨
    n < usizeRange ∧ ¬Stacked s

/-- Nothing leaves a word while the loop goes through the characters, up to one that is no digit. -/
def Steady (base : Nat) (digit : Char → Option Nat) : Nat → Str → Prop
  | _, [] => True
  | n, ch :: s =>
    n * base < usizeRange ∧ ∀ d, digit ch = some d → n * base + d < usizeRange ∧
      Steady base digit (n * base + d) s

/-- A build with overflow checks reads the string. -/
def Readable (s : Str) : Prop :=
  if startsHex s then Steady 16 hexDigit 0 (stripPrefix upper (stripPrefix lower s))
    else Steady 10 decDigit 0 s

variable {profile : Profile} {base result n : Nat} {digit : Char → Option Nat} {s : Str}

theorem parseDigits_release (n : Nat) (s : Str) :
    parseDigits .release base digit (n % usizeRange) s =
      some ((valueFrom base digit n s).elim 0 (· % usizeRange)) := by
  induction s generalizing n with
  | nil => rfl
  | cons ch s ih =>
    rw [parseDigits, valueFrom]
    cases digit ch with
    | none => rfl
    | some d =>
      have hsum : (n % usizeRange * base % usizeRange + d) % usizeRange =
          (n * base + d) % usizeRange := by
        rw [Nat.mod_add_mod, Nat.add_mod, Nat.mod_mul_mod, ← Nat.add_mod]
      have hstep : parseDigits .release base digit
          ((n % usizeRange * base % usizeRange + d) % usizeRange) s = _ :=
        hsum ▸ ih (n * base + d)
      exact hstep

theorem parseDigits_of_steady (hn : n < usizeRange) (h : Steady base digit n s) :
    parseDigits profile base digit n s = some ((valueFrom base digit n s).elim 0 (· % usizeRange)) := by
  induction s generalizing n with
  | nil => exact congrArg some (Nat.mod_eq_of_lt hn).symm
  | cons ch s ih =>
    obtain ⟨hmul, hrest⟩ := h
    rw [parseDigits, valueFrom, mul_ok hmul]
    cases hd : digit ch with
    | none => rfl
    | some d =>
      obtain ⟨hadd, hrest⟩ := hrest d hd
      dsimp only [Option.bind_eq_bind, Option.bind_some]
      rw [add_ok hadd]
      exact ih hadd hrest

theorem steady_of_debug {k : Nat} (h : parseDigits .debug base digit n s = some k) :
    Steady base digit n s := by
  induction s generalizing n with
  | nil => trivial
  | cons ch s ih =>
    rw [parseDigits, Option.bind_eq_bind, Option.bind_eq_some_iff] at h
    obtain ⟨product, hproduct, h⟩ := h
    rw [mul, Option.ite_none_right_eq_some] at hproduct
    obtain ⟨hmul, rfl⟩ := hproduct.imp_right Option.some.inj
    refine ⟨hmul, fun d hd => ?_⟩
    rw [hd] at h
    obtain ⟨sum, hsum, h⟩ := Option.bind_eq_some_iff.mp h
    rw [add, Option.ite_none_right_eq_some] at hsum
    obtain ⟨hadd, rfl⟩ := hsum.imp_right Option.some.inj
    exact ⟨hadd, ih h⟩

theorem eq_of_parseDigits {k : Nat} (h : parseDigits profile base digit 0 s = some k) :
    k = (value base digit s).elim 0 (· % usizeRange) := by
  cases profile with
  | release => exact Option.some.inj (h.symm.trans (parseDigits_release 0 s))
  | debug => exact Option.some.inj (h.symm.trans (parseDigits_of_steady (by decide) (steady_of_debug h)))

theorem steady_of_value (hbase : 0 < base) {k : Nat} (h : valueFrom base digit n s = some k)
    (hk : k < usizeRange) : Steady base digit n s := by
  induction s generalizing n with
  | nil => trivial
  | cons ch s ih =>
    rw [valueFrom, Option.bind_eq_some_iff] at h
    obtain ⟨d, hd, h⟩ := h
    have hle := le_of_valueFrom hbase h
    refine ⟨by omega, fun d' hd' => ?_⟩
    obtain rfl : d = d' := Option.some.inj (hd.symm.trans hd')
    exact ⟨by omega, ih h⟩

theorem read_in_base (s : Str) : ∃ base digit t, 0 < base ∧
    (∀ profile, parseInt profile s = parseDigits profile base digit 0 t) ∧
      scanned s = value base digit t ∧
    (Readable s ↔ Steady base digit 0 t) := by
  by_cases hhex : startsHex s
  · refine ⟨16, hexDigit, stripPrefix upper (stripPrefix lower s), by decide, fun profile => ?_, ?_, ?_⟩
    · rw [parseInt, if_pos hhex, parseHex]
    · rw [scanned, if_pos hhex]
    · rw [Readable, if_pos hhex]
  · refine ⟨10, decDigit, s, by decide, fun profile => ?_, ?_, ?_⟩
    · rw [parseInt, if_neg hhex]
    · rw [scanned, if_neg hhex]
    · rw [Readable, if_neg hhex]

theorem parseInt_release (s : Str) :
    parseInt .release s = some ((scanned s).elim 0 (· % usizeRange)) := by
  obtain ⟨base, digit, t, -, hparse, hscanned, -⟩ := read_in_base s
  rw [hparse, hscanned]
  exact parseDigits_release 0 t

theorem parseInt_of_readable (h : Readable s) :
    parseInt profile s = some ((scanned s).elim 0 (· % usizeRange)) := by
  obtain ⟨base, digit, t, -, hparse, hscanned, hreadable⟩ := read_in_base s
  rw [hparse, hscanned]
  exact parseDigits_of_steady (by decide) (hreadable.mp h)

theorem readable_of_debug (h : parseInt .debug s = some n) : Readable s := by
  obtain ⟨base, digit, t, -, hparse, -, hreadable⟩ := read_in_base s
  rw [hparse] at h
  exact hreadable.mpr (steady_of_debug h)

theorem eq_of_parseInt (h : parseInt profile s = some n) : n = (scanned s).elim 0 (· % usizeRange) := by
  obtain ⟨base, digit, t, -, hparse, hscanned, -⟩ := read_in_base s
  rw [hparse] at h
  rw [hscanned]
  exact eq_of_parseDigits h

theorem startsHex_cases (h : startsHex s) : (∃ t, s = lower ++ t) ∨ ∃ t, s = upper ++ t := by
  rw [startsHex, Bool.or_eq_true, List.isPrefixOf_iff_prefix, List.isPrefixOf_iff_prefix] at h
  obtain ⟨t, ht⟩ | ⟨t, ht⟩ := h
  · exact .inl ⟨t, ht.symm⟩
  · exact .inr ⟨t, ht.symm⟩

theorem stripPrefix_append (p t : Str) : stripPrefix p (p ++ t) = t := by
  rw [stripPrefix, if_pos (List.isPrefixOf_iff_prefix.mpr (List.prefix_append p t)), List.drop_left]

theorem scanned_of_not_stacked (h : ¬Stacked s) : scanned s = denoted s := by
  rw [scanned, denoted]
  split
  next hhex =>
    obtain ⟨t, rfl⟩ | ⟨t, rfl⟩ := startsHex_cases hhex
    · have hupper : ¬upper.isPrefixOf t := fun hpre => h hpre
      rw [stripPrefix_append, stripPrefix, if_neg hupper]
      rfl
    · have hlower : stripPrefix lower (upper ++ t) = upper ++ t := rfl
      rw [hlower, stripPrefix_append]
      rfl
  next => rfl

theorem denoted_of_stacked (h : Stacked s) : denoted s = none := by
  obtain ⟨t, rfl⟩ := List.isPrefixOf_iff_prefix.mp h
  rfl

theorem scanned_meant_iff (s : Str) : (scanned s).elim 0 (· % usizeRange) = meant s ↔ Harmless s := by
  rw [Harmless, meant]
  by_cases hstacked : Stacked s
  · rw [denoted_of_stacked hstacked]
    cases scanned s with
    | none => simp
    | some n => simp [hstacked]
  · rw [← scanned_of_not_stacked hstacked]
    cases scanned s with
    | none => simp
    | some n =>
      by_cases hn : n < usizeRange
      · simp [hn, hstacked, Nat.mod_eq_of_lt hn]
      · simp [hn]

theorem parseInt_meant_iff (profile : Profile) (s : Str) :
    parseInt profile s = some (meant s) ↔ (profile = .debug → Readable s) ∧ Harmless s := by
  rw [← scanned_meant_iff]
  cases profile with
  | release =>
    rw [parseInt_release, Option.some.injEq]
    exact ⟨fun h => ⟨(fun hdebug => by cases hdebug), h⟩, fun h => h.2⟩
  | debug =>
    constructor
    · intro h
      have hreadable := readable_of_debug h
      rw [parseInt_of_readable hreadable] at h
      exact ⟨fun _ => hreadable, Option.some.inj h⟩
    · rintro ⟨hreadable, h⟩
      rw [parseInt_of_readable (hreadable rfl), h]

theorem parseInt_of_scanned (h : scanned s = some n) (hn : n < usizeRange) :
    parseInt profile s = some n := by
  obtain ⟨base, digit, t, hbase, -, hscanned, hreadable⟩ := read_in_base s
  have hsteady : Steady base digit 0 t := steady_of_value hbase (hscanned.symm.trans h) hn
  rw [parseInt_of_readable (hreadable.mpr hsteady), h, Option.elim_some, Nat.mod_eq_of_lt hn]

/-- The renderings of a number: in decimal, and in hexadecimal with small or capital letters. -/
def decimal (n : Nat) : Str := Nat.toDigits 10 n

def hexadecimal (n : Nat) : Str := lower ++ Nat.toDigits 16 n

def hexadecimalUpper (n : Nat) : Str := lower ++ (Nat.toDigits 16 n).map Char.toUpper

theorem scanned_decimal (n : Nat) : scanned (decimal n) = some n := by
  have hvalue : value 10 decDigit (decimal n) = some n := value_toDigits (by decide) (by decide) n
  have hdec : ¬startsHex (decimal n) := by
    intro hhex
    obtain ⟨t, ht⟩ | ⟨t, ht⟩ := startsHex_cases hhex
    · rw [ht] at hvalue
      cases hvalue
    · rw [ht] at hvalue
      cases hvalue
  rw [scanned, if_neg hdec, hvalue]

theorem scanned_lower {t : Str} (h : value 16 hexDigit t = some n) : scanned (lower ++ t) = some n := by
  have hstacked : ¬Stacked (lower ++ t) := by
    intro hstacked
    have hnone := denoted_of_stacked hstacked
    exact absurd (hnone.symm.trans h) (by simp)
  rw [scanned_of_not_stacked hstacked]
  exact h

theorem parseInt_renderings (hn : n < usizeRange) : parseInt profile (decimal n) = some n ∧
    parseInt profile (hexadecimal n) = some n ∧ parseInt profile (hexadecimalUpper n) = some n := by
  refine ⟨parseInt_of_scanned (scanned_decimal n) hn, parseInt_of_scanned (scanned_lower ?_) hn,
    parseInt_of_scanned (scanned_lower ?_) hn⟩
  · exact value_toDigits (by decide) (by decide) n
  · rw [value_map]
    exact value_toDigits (by decide) (by decide) n

inductive Reply where
  | usage
  | invalidPid
  | outcome (pid : Nat) (result : KernelResult Unit)

def cmdKill (profile : Profile) (s : Scheduler) : List Str → Option (Scheduler × Reply)
  | [] => some (s, .usage)
  | arg :: _ => do
    let pid ← parseInt profile arg
    if pid = 0 then return (s, .invalidPid)
    let (s, result) := s.terminateTask pid (-9)
    return (s, .outcome pid result)

/-- `cmd_bg` and `cmd_fg`, which do not look at the number. -/
def cmdOn (act : Scheduler → Nat → Scheduler × KernelResult Unit) (profile : Profile) (s : Scheduler) :
    List Str → Option (Scheduler × Reply)
  | [] => some (s, .usage)
  | arg :: _ => do
    let pid ← parseInt profile arg
    let (s, result) := act s pid
    return (s, .outcome pid result)

def cmdBg : Profile → Scheduler → List Str → Option (Scheduler × Reply) := cmdOn Scheduler.backgroundTask

def cmdFg : Profile → Scheduler → List Str → Option (Scheduler × Reply) := cmdOn Scheduler.foregroundTask

def OnlyTask (pid : Nat) (s s' : Scheduler) : Prop :=
  ∀ r, s'.cells r ≠ s.cells r → r ∈ s.allTasks ∧ (s.cells r).id = pid

variable {sched : Scheduler}

theorem onlyTask_self (pid : Nat) (s : Scheduler) : OnlyTask pid s s := fun _ hne => absurd rfl hne

theorem onlyTask_of_found {pid : Nat} {r : TaskRef} (h : sched.findTask pid = some r) {s' : Scheduler}
    (hcells : ∀ a, a ≠ r → s'.cells a = sched.cells a) : OnlyTask pid sched s' := by
  intro a hne
  obtain rfl : a = r := by
    by_contra hother
    exact hne (hcells a hother)
  exact Scheduler.findTask_mem h

theorem terminateTask_only (pid : Nat) (code : Int) :
    OnlyTask pid sched (sched.terminateTask pid code).1 := by
  rw [Scheduler.terminateTask]
  split
  · exact onlyTask_self pid sched
  · split
    next r hr => exact onlyTask_of_found hr fun a ha => Function.update_of_ne ha ..
    next => exact onlyTask_self pid sched

theorem backgroundTask_only (pid : Nat) : OnlyTask pid sched (sched.backgroundTask pid).1 := by
  rw [Scheduler.backgroundTask]
  split
  next r hr =>
    split
    · exact onlyTask_self pid sched
    · exact onlyTask_of_found hr fun a ha => Function.update_of_ne ha ..
  next => exact onlyTask_self pid sched

theorem foregroundTask_only (pid : Nat) : OnlyTask pid sched (sched.foregroundTask pid).1 := by
  rw [Scheduler.foregroundTask]
  split
  next r hr =>
    split
    · exact onlyTask_self pid sched
    · dsimp only
      split
      · exact onlyTask_of_found hr fun a ha =>
          (Function.update_of_ne ha ..).trans (Function.update_of_ne ha ..)
      · exact onlyTask_of_found hr fun a ha => Function.update_of_ne ha ..
  next => exact onlyTask_self pid sched

/-- The command runs, and a task that it changes is the one that the string denotes. -/
def ActsOnNamed (arg : Str) (s : Scheduler) (after : Option (Scheduler × Reply)) : Prop :=
  ∃ s' reply, after = some (s', reply) ∧ ∀ r, s'.cells r ≠ s.cells r → denoted arg = some (s.cells r).id

variable {arg : Str}

theorem denoted_of_meant (h : meant arg = n) (hn : n ≠ 0) : denoted arg = some n := by
  rw [meant] at h
  split at h
  next k hk =>
    split at h
    · rw [hk, h]
    · exact absurd h.symm hn
  next => exact absurd h.symm hn

theorem actsOnNamed (hids : ∀ r ∈ sched.allTasks, (sched.cells r).id ≠ 0) {s' : Scheduler}
    (h : OnlyTask (meant arg) sched s') (reply : Reply) : ActsOnNamed arg sched (some (s', reply)) := by
  refine ⟨s', reply, rfl, fun r hne => ?_⟩
  obtain ⟨hmem, hid⟩ := h r hne
  exact denoted_of_meant hid.symm (hids r hmem)

theorem commands_act_on_named (h : parseInt profile arg = some (meant arg))
    (hids : ∀ r ∈ sched.allTasks, (sched.cells r).id ≠ 0) (args : List Str) :
    ActsOnNamed arg sched (cmdKill profile sched (arg :: args)) ∧
    ActsOnNamed arg sched (cmdBg profile sched (arg :: args)) ∧
    ActsOnNamed arg sched (cmdFg profile sched (arg :: args)) := by
  refine ⟨?_, ?_, ?_⟩
  · rw [cmdKill, h, Option.bind_eq_bind, Option.bind_some]
    split
    · exact actsOnNamed hids (onlyTask_self _ _) _
    · exact actsOnNamed hids (terminateTask_only _ _) _
  · rw [cmdBg, cmdOn, h, Option.bind_eq_bind, Option.bind_some]
    exact actsOnNamed hids (backgroundTask_only _) _
  · rw [cmdFg, cmdOn, h, Option.bind_eq_bind, Option.bind_some]
    exact actsOnNamed hids (foregroundTask_only _) _

/-- A string is read as the number it stands for exactly when the digits do not leave a word and have
one prefix at most; the renderings of a word are among those strings, and the commands act on what
such a string denotes. -/
theorem parseInt_exact_iff (profile : Profile) (arg : Str) :
    (parseInt profile arg = some (meant arg) ↔ (profile = .debug → Readable arg) ∧ Harmless arg) ∧
    (∀ n < usizeRange, parseInt profile (decimal n) = some n ∧
      parseInt profile (hexadecimal n) = some n ∧ parseInt profile (hexadecimalUpper n) = some n) ∧
    ((profile = .debug → Readable arg) → Harmless arg → ∀ sched : Scheduler,
      (∀ r ∈ sched.allTasks, (sched.cells r).id ≠ 0) → ∀ args,
        ActsOnNamed arg sched (cmdKill profile sched (arg :: args)) ∧
        ActsOnNamed arg sched (cmdBg profile sched (arg :: args)) ∧
        ActsOnNamed arg sched (cmdFg profile sched (arg :: args))) := by
  refine ⟨parseInt_meant_iff profile arg, fun n hn => parseInt_renderings hn,
    fun hreadable hharmless sched hids args => ?_⟩
  exact commands_act_on_named ((parseInt_meant_iff profile arg).mpr ⟨hreadable, hharmless⟩) hids args

theorem harmless_of_scanned (h : scanned arg = some n) (hn : n < usizeRange) (hstacked : ¬Stacked arg) :
    Harmless arg := by
  intro k hk
  obtain rfl : n = k := Option.some.inj (h.symm.trans hk)
  exact .inr ⟨hn, hstacked⟩

theorem readable_of_scanned (h : scanned arg = some n) (hn : n < usizeRange) : Readable arg :=
  readable_of_debug (parseInt_of_scanned h hn)

def twoTasks : Scheduler :=
  [.createKernelTask 0x100000 "first" 0, .createKernelTask 0x200000 "second" 0].foldl step
    (Scheduler.new { mem := fun _ => 0, nextTaskId := 41 })

/-- `0x2a`. -/
theorem fortyTwo_exact : parseInt .debug ['0', 'x', '2', 'a'] = some 42 ∧
    ActsOnNamed ['0', 'x', '2', 'a'] twoTasks (cmdKill .debug twoTasks [['0', 'x', '2', 'a']]) ∧
    (cmdKill .debug twoTasks [['0', 'x', '2', 'a']]).map
      (fun r => r.1.allTasks.map fun a => (r.1.cells a).state) = some [.ready, .terminated] := by
  have hscanned : scanned ['0', 'x', '2', 'a'] = some 42 := by decide
  have hreadable : Readable ['0', 'x', '2', 'a'] := readable_of_scanned hscanned (by decide)
  have hharmless : Harmless ['0', 'x', '2', 'a'] :=
    harmless_of_scanned hscanned (by decide) (by unfold Stacked; decide)
  obtain ⟨hparse, -, hnamed⟩ := parseInt_exact_iff .debug ['0', 'x', '2', 'a']
  exact ⟨hparse.mpr ⟨fun _ => hreadable, hharmless⟩,
    (hnamed (fun _ => hreadable) hharmless twoTasks (by decide +kernel) []).1, by decide +kernel⟩

/-- `18446744073709551619`, which is 3 more than fits. -/
def overlong : Str :=
  ['1', '8', '4', '4', '6', '7', '4', '4', '0', '7', '3', '7', '0', '9', '5', '5', '1', '6', '1', '9']

/-- `0x0X10`. -/
def stacked : Str := ['0', 'x', '0', 'X', '1', '0']

theorem parseInt_errs : (meant overlong = 0 ∧ parseInt .release overlong = some 3 ∧
    parseInt .debug overlong = none) ∧
    (denoted stacked = none ∧ ∀ profile, parseInt profile stacked = some 16) ∧
    ∀ s, cmdKill .release s [overlong] =
      some ((s.terminateTask 3 (-9)).1, .outcome 3 (s.terminateTask 3 (-9)).2) := by
  have hrelease : parseInt .release overlong = some 3 := by decide +kernel
  refine ⟨⟨by decide +kernel, hrelease, by decide +kernel⟩, ⟨by decide, ?_⟩, fun s => ?_⟩
  · rintro (_ | _) <;> decide
  · rw [cmdKill, hrelease]
    rfl

end DeltaOS.NumberParsing
