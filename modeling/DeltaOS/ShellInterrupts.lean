import DeltaOS.InterruptDispatch
import DeltaOS.KeyboardFifo
import DeltaOS.ShellSession

namespace DeltaOS.ShellInterrupts

open Kernel Overflow NumberParsing Tasks Sched Vga ShellLine Keyboard RingBuffer Interrupts
  InterruptDispatch Abstractions KernelShell ShellSession
open KeyboardFifo (released keyOf decode unreadChars Bounded handleKeyboardScancode_eq typed_enqueues)

/-- An interrupt, or a round of the shell's loop that no interrupt breaks into. -/
inductive Event
  | interrupt (i : Interrupt)
  | poll (hw : Hardware)

def Event.line : Event → Option (Fin 16)
  | .interrupt i => some i.irq
  | .poll _ => none

def withDevices (t : Terminal) (devices : Devices) : Terminal :=
  { t with kernel := { t.kernel with status := { t.kernel.status with devices } } }

def currentTask (d : Devices) : Option TaskRef := d.scheduler.bind (·.current)

/-- The interrupt goes back to where it came from: `timer_isr` returns from the stack it was on, the
handler has the registers it had, and no other task has become the current one. -/
abbrev Resumes (d : Devices) (i : Interrupt) (o : Outcome) : Prop :=
  o.savedStatePtr = i.savedStatePtr ∧ o.cpu = i.cpu ∧ currentTask o.devices = currentTask d

def resume (d : Devices) (i : Interrupt) (o : Outcome) : Option Devices :=
  if Resumes d i o then some o.devices else none

section system

variable (image : Image) (syscall : Devices → Devices) (profile : Profile) (entries : Entries)

/-- No result where the code panics, and none where an interrupt takes the processor from the shell. -/
def step (t : Terminal) : Event → Option Terminal
  | .interrupt i =>
    ((deliver image syscall t.kernel.status.devices i).bind (resume t.kernel.status.devices i)).map
      (withDevices t)
  | .poll hw => poll profile entries hw t

/-- The shell from its start on, among the interrupts, for as long as it has the processor. -/
def live (k : KernelShell.Kernel) (events : List Event) : Option Terminal := do
  let t ← shellStart k
  events.foldlM (step image syscall profile entries) t

end system

/-- The line so far, the shift key, and the characters that are typed ahead. -/
structure Typing where
  line : Text
  shift : Bool
  ahead : List Byte

def shiftAfter (shift : Bool) (code : Byte) : Bool :=
  if keyOf code = 0x2A ∨ keyOf code = 0x36 then !released code else shift

def aheadAfter (shift : Bool) (ahead : List Byte) (code : Byte) : List Byte :=
  if ahead.length = 255 then ahead
  else ahead ++ (decode { KeyboardState.initial with shiftPressed := shift } code).toList

/-- The byte in port 0x60 is taken on the line after the keyboard's. -/
def Typing.scan (ty : Typing) (i : Interrupt) : Typing :=
  if i.vector = 34 then
    { ty with shift := shiftAfter ty.shift i.port60, ahead := aheadAfter ty.shift ty.ahead i.port60 }
  else ty

def Typing.read (ty : Typing) : Typing :=
  match ty.ahead with
  | [] => ty
  | ch :: ahead => { ty with line := if ch = newline then [] else typeKey ty.line ch, ahead }

def Typing.step (ty : Typing) : Event → Typing
  | .interrupt i => ty.scan i
  | .poll _ => ty.read

def Typing.entered (ty : Typing) : Event → Option (Hardware × Text)
  | .interrupt _ => none
  | .poll hw => if ty.ahead.head? = some newline then some (hw, ty.line) else none

/-- What an interrupt does to the timer and the tasks. The keyboard's own line counts as a tick. -/
def serve (d : Devices) (i : Interrupt) : Option Devices :=
  if i.vector = 32 then
    (rustTimerHandler d i.savedStatePtr).bind fun r => resume d i ⟨r.1, r.2, i.cpu⟩
  else if i.vector = 33 then
    (onTimerTick d.timer).bind fun timer =>
      let r := schedulerTick { d with timer } i.cpu
      resume d i ⟨r.1, i.savedStatePtr, r.2⟩
  else some d

section desk

variable (profile : Profile) (entries : Entries)

def work (s : Status) (ty : Typing) : Event → Option Status
  | .interrupt i => (serve s.devices i).map fun devices => { s with devices }
  | .poll hw => (ty.entered (.poll hw)).elim (some s) (obey profile entries s)

/-- The shell as its user knows it: what is typed, and what the commands work on, with an empty buffer
in place of the keyboard's. -/
structure Desk where
  typing : Typing
  status : Status

def Desk.step (d : Desk) (e : Event) : Option Desk :=
  (work profile entries d.status d.typing e).map (Desk.mk (d.typing.step e))

end desk

def setKeyboard (k : KeyboardState) (s : Status) : Status :=
  { s with devices := { s.devices with keyboard := k } }

def desk (s : Session) : Desk where
  typing := ⟨s.line, s.status.devices.keyboard.shiftPressed, unreadChars s.status.devices.keyboard⟩
  status := setKeyboard .initial s.status

variable {profile : Profile} {entries : Entries} {image : Image} {syscall : Devices → Devices}
  {t t' : Terminal} {s s' : Status} {k : KeyboardState} {d d' : Devices} {i : Interrupt}

section keyboard

theorem put_shiftPressed (k : KeyboardState) (ch : Byte) : (k.put ch).shiftPressed = k.shiftPressed := by
  rw [KeyboardState.put]
  split <;> rfl

theorem handleKeyboardScancode_shiftPressed (k : KeyboardState) (code : Byte) :
    (handleKeyboardScancode k code).shiftPressed = shiftAfter k.shiftPressed code := by
  rw [handleKeyboardScancode_eq]
  cases hch : decode k code with
  | none => rfl
  | some ch =>
    rw [decode] at hch
    split_ifs at hch with hmodifier
    rw [KeyboardFifo.typed, put_shiftPressed, shiftAfter, if_neg fun h => hmodifier (.inl h)]

theorem handleKeyboardScancode_unread (hk : Bounded k) (code : Byte) :
    Bounded (handleKeyboardScancode k code) ∧
      unreadChars (handleKeyboardScancode k code) = aheadAfter k.shiftPressed (unreadChars k) code := by
  obtain ⟨hbounded, henqueued, hunread⟩ := typed_enqueues hk code (decode k code)
  rw [handleKeyboardScancode_eq]
  refine ⟨hbounded, ?_⟩
  rw [hunread, henqueued, aheadAfter]
  split
  · exact List.append_nil _
  · rfl

theorem readChar_cases (hk : Bounded k) : (keyboardHasData k = false ∧ unreadChars k = []) ∨
    ∃ ch k', keyboardHasData k = true ∧ keyboardReadChar k = (ch, k') ∧
      unreadChars k = ch :: unreadChars k' ∧ k'.shiftPressed = k.shiftPressed ∧ Bounded k' := by
  by_cases hempty : k.head = k.tail
  · refine .inl ⟨?_, (contents_eq_nil_iff k.buffer hk.head hk.tail).mpr hempty⟩
    rw [keyboardHasData, hempty, bne_self_eq_false]
  · have hunread := contents_get k.buffer hk.head hk.tail hempty
    refine .inr ⟨_, _, bne_iff_ne.mpr hempty, if_neg hempty, hunread, rfl, ?_⟩
    exact ⟨hk.head, next_lt hk.tail⟩

end keyboard

section frames

theorem actions_setKeyboard {hw : Hardware} : ∀ a ∈ actions profile entries hw, ∀ args,
    a.2 (setKeyboard k s) args = a.2 s args := by
  simp [actions, inDevMode, setKeyboard]

theorem choose_congr {as : List (String × (Status → List Text → Option Action))} {args : List Text}
    (h : ∀ a ∈ as, a.2 s args = a.2 s' args) (cmd : Text) :
    choose s cmd args as = choose s' cmd args as := by
  induction as with
  | nil => rfl
  | cons a as ih =>
    obtain ⟨hfirst, hrest⟩ := List.forall_mem_cons.mp h
    rw [choose, choose, hfirst, ih hrest]

theorem meaning_setKeyboard (hw : Hardware) (words : List Text) :
    meaning profile entries hw (setKeyboard k s) words = meaning profile entries hw s words := by
  cases words with
  | nil => rfl
  | cons cmd args => exact choose_congr (fun a ha => actions_setKeyboard a ha args) cmd

theorem perform_setKeyboard (a : Action) :
    perform (setKeyboard k s) a = setKeyboard k (perform s a) := by
  cases a <;> rfl

theorem obey_setKeyboard (k : KeyboardState) (s : Status) (l : Hardware × Text) :
    obey profile entries (setKeyboard k s) l = (obey profile entries s l).map (setKeyboard k) := by
  rw [obey, obey, meaning_setKeyboard, Option.map_map]
  exact congrArg (Option.map · _) (funext perform_setKeyboard)

theorem obey_keyboard {l : Hardware × Text} (h : obey profile entries s l = some s') :
    s'.devices.keyboard = s.devices.keyboard := by
  have hsame := @obey_setKeyboard profile entries s.devices.keyboard s l
  rw [show setKeyboard s.devices.keyboard s = s from rfl, h, Option.map_some, Option.some.injEq] at hsame
  rw [hsame]
  rfl

theorem resume_setKeyboard (k : KeyboardState) (d : Devices) (i : Interrupt) (o : Outcome) :
    resume { d with keyboard := k } i { o with devices := { o.devices with keyboard := k } } =
      (resume d i o).map fun d => { d with keyboard := k } := by
  by_cases h : Resumes d i o
  · rw [resume, resume, if_pos h]
    exact if_pos h
  · rw [resume, resume, if_neg h]
    exact if_neg h

theorem rustTimerHandler_setKeyboard (k : KeyboardState) (d : Devices) (rsp : Word) :
    rustTimerHandler { d with keyboard := k } rsp =
      (rustTimerHandler d rsp).map fun r => ({ r.1 with keyboard := k }, r.2) := by
  rw [rustTimerHandler, rustTimerHandler]
  dsimp only
  cases onTimerTick d.timer with
  | none => rfl
  | some timer =>
    simp only [Option.map_some]
    cases d.scheduler with
    | none => rfl
    | some sched =>
      dsimp only
      split <;> rfl

theorem schedulerTick_setKeyboard (k : KeyboardState) (d : Devices) (cpu : SavedRegisters) :
    schedulerTick { d with keyboard := k } cpu =
      ({ (schedulerTick d cpu).1 with keyboard := k }, (schedulerTick d cpu).2) := by
  obtain ⟨timer, keyboard, _ | sched⟩ := d
  · rfl
  · rfl

theorem serve_setKeyboard (k : KeyboardState) (d : Devices) (i : Interrupt) :
    serve { d with keyboard := k } i = (serve d i).map fun d => { d with keyboard := k } := by
  rw [serve, serve]
  split
  · rw [rustTimerHandler_setKeyboard]
    cases rustTimerHandler d i.savedStatePtr with
    | none => rfl
    | some r => exact resume_setKeyboard k d i ⟨r.1, r.2, i.cpu⟩
  · split
    · dsimp only
      cases onTimerTick d.timer with
      | none => rfl
      | some timer =>
        simp only [Option.bind_some, schedulerTick_setKeyboard k { d with timer }]
        exact resume_setKeyboard k d i ⟨_, i.savedStatePtr, _⟩
    · rfl

theorem serve_keyboard (h : serve d i = some d') : d'.keyboard = d.keyboard := by
  have hsame := serve_setKeyboard d.keyboard d i
  rw [show ({ d with keyboard := d.keyboard } : Devices) = d from rfl, h, Option.map_some,
    Option.some.injEq] at hsame
  rw [hsame]

theorem resume_self (d : Devices) (i : Interrupt) (k : KeyboardState) :
    resume d i ⟨{ d with keyboard := k }, i.savedStatePtr, i.cpu⟩ = some { d with keyboard := k } :=
  if_pos ⟨rfl, rfl, rfl⟩

theorem deliver_serve (image : Image) (syscall : Devices → Devices) (d : Devices) (i : Interrupt) :
    (deliver image syscall d i).bind (resume d i) = (serve d i).map fun d =>
      if i.vector = 34 then { d with keyboard := handleKeyboardScancode d.keyboard i.port60 }
        else d := by
  have hvector : i.vector = 32 + i.irq.val := rfl
  rw [deliver_eq, serve]
  simp only [irq_eq_zero_iff]
  by_cases htimer : i.vector = 32
  · have hother : i.vector ≠ 34 := by omega
    simp only [if_pos htimer, if_neg hother, Option.map_id']
    cases rustTimerHandler d i.savedStatePtr <;> rfl
  by_cases hkeyboard : i.vector = 33
  · have hother : i.vector ≠ 34 := by omega
    simp only [if_neg htimer, if_pos hkeyboard, if_neg hother, Option.map_id']
    rw [hkeyboard]
    simp only [rustIsrHandler]
    cases onTimerTick d.timer <;> rfl
  rw [if_neg htimer, if_neg htimer, if_neg hkeyboard, Option.map_some]
  by_cases hscan : i.vector = 34
  · rw [if_pos hscan, hscan]
    exact resume_self d i _
  · have hlt := i.irq.isLt
    rw [if_neg hscan, rustIsrHandler_other syscall d i (by omega) (by omega) (by omega) (by omega)]
    exact resume_self d i d.keyboard

end frames

section steps

/-- The buffer holds the line, and the keyboard's indices are in range. -/
structure Steady (t : Terminal) : Prop where
  ready : Ready t
  bounded : Bounded t.kernel.status.devices.keyboard

theorem Steady.interrupt (h : Steady t) (i : Interrupt) :
    (step image syscall profile entries t (.interrupt i)).map (desk ∘ session) =
        (desk (session t)).step profile entries (.interrupt i) ∧
      ∀ t', step image syscall profile entries t (.interrupt i) = some t' → Steady t' := by
  have hserve : serve (desk (session t)).status.devices i =
      (serve t.kernel.status.devices i).map fun d => { d with keyboard := .initial } :=
    serve_setKeyboard .initial t.kernel.status.devices i
  rw [step, deliver_serve, Desk.step, work, hserve]
  cases hd : serve t.kernel.status.devices i with
  | none => exact ⟨rfl, fun t' ht' => by cases ht'⟩
  | some d =>
    have hkeyboard := serve_keyboard hd
    obtain ⟨hbounded, hunread⟩ := handleKeyboardScancode_unread h.bounded i.port60
    have hshift := handleKeyboardScancode_shiftPressed t.kernel.status.devices.keyboard i.port60
    simp only [Option.map_some, Option.some.injEq, Typing.step, Typing.scan]
    split
    · constructor
      · simp only [Function.comp, desk, session, withDevices, setKeyboard, hkeyboard, hshift, hunread]
      · rintro t' rfl
        exact ⟨h.ready, by simpa only [withDevices, hkeyboard] using hbounded⟩
    · constructor
      · simp only [Function.comp, desk, session, withDevices, setKeyboard, hkeyboard]
      · rintro t' rfl
        exact ⟨h.ready, by simpa only [withDevices, hkeyboard] using h.bounded⟩

theorem press_desk (s : Session) (k : KeyboardState) (hw : Hardware) (ch : Byte) :
    (press profile entries ⟨s.line, setKeyboard k s.status⟩ (hw, ch)).map desk =
      Desk.step profile entries ⟨⟨s.line, k.shiftPressed, ch :: unreadChars k⟩,
        setKeyboard .initial s.status⟩ (.poll hw) := by
  rw [press, Desk.step, work]
  simp only [Typing.entered, Typing.step, Typing.read, List.head?_cons, Option.some.injEq]
  split
  · simp only [Option.elim_some, obey_setKeyboard, Option.map_map]
    rfl
  · rfl

theorem press_keyboard {σ σ' : Session} {key : Hardware × Byte}
    (h : press profile entries σ key = some σ') :
    σ'.status.devices.keyboard = σ.status.devices.keyboard := by
  rw [press] at h
  split at h
  · obtain ⟨s', hs', rfl⟩ := Option.map_eq_some_iff.mp h
    exact obey_keyboard hs'
  · cases h
    rfl

theorem Steady.poll (h : Steady t) (hw : Hardware) :
    (step image syscall profile entries t (.poll hw)).map (desk ∘ session) =
        (desk (session t)).step profile entries (.poll hw) ∧
      ∀ t', step image syscall profile entries t (.poll hw) = some t' → Steady t' := by
  rw [step, KernelShell.poll]
  obtain ⟨hnone, hempty⟩ | ⟨ch, k, hsome, hread, hunread, hshift, hbounded⟩ := readChar_cases h.bounded
  · have hahead : (desk (session t)).typing.ahead = [] := hempty
    simp only [hnone, Bool.false_eq_true, if_false]
    constructor
    · simp only [Desk.step, work, Typing.entered, Typing.step, Typing.read, hahead]
      rfl
    · rintro t' ⟨⟩
      exact h
  · simp only [hsome, if_true, hread]
    -- the character leaves the buffer before the shell looks at it
    have hready : Ready (withDevices t { t.kernel.status.devices with keyboard := k }) := h.ready
    obtain ⟨hresult, hkeeps⟩ := @input_shows _ profile entries hready (hw, ch)
    have hdesk : desk (session t) =
        ⟨⟨(session t).line, k.shiftPressed, ch :: unreadChars k⟩,
          setKeyboard .initial t.kernel.status⟩ := by
      rw [hshift, ← hunread]
      rfl
    constructor
    · rw [hdesk, ← Option.map_map]
      exact (congrArg (Option.map desk) hresult).trans (press_desk (session t) k hw ch)
    · intro t' ht'
      have hpress : press profile entries _ (hw, ch) = some (session t') :=
        hresult.symm.trans (by rw [withDevices, ht']; rfl)
      have hkeyboard : t'.kernel.status.devices.keyboard = k := press_keyboard hpress
      exact ⟨hkeeps t' ht', by rw [hkeyboard]; exact hbounded⟩

theorem step_shows (h : Steady t) (e : Event) :
    (step image syscall profile entries t e).map (desk ∘ session) =
      (desk (session t)).step profile entries e ∧
      ∀ t', step image syscall profile entries t e = some t' → Steady t' := by
  cases e with
  | interrupt i => exact h.interrupt i
  | poll hw => exact h.poll hw

theorem shellStart_steady {k : KernelShell.Kernel} (hk : Tidy k.console)
    (hkeyboard : Bounded k.status.devices.keyboard) :
    ∃ t, shellStart k = some t ∧ session t = ⟨[], k.status⟩ ∧ Steady t := by
  obtain ⟨t, ht, hsession, hready⟩ := shellStart_ready hk
  have hstatus : t.kernel.status = k.status := congrArg Session.status hsession
  exact ⟨t, ht, hsession, hready, by rw [hstatus]; exact hkeyboard⟩

theorem live_shows {k : KernelShell.Kernel} (hk : Tidy k.console)
    (hkeyboard : Bounded k.status.devices.keyboard) (events : List Event) :
    (live image syscall profile entries k events).map (desk ∘ session) =
      events.foldlM (Desk.step profile entries) (desk ⟨[], k.status⟩) := by
  obtain ⟨t, ht, hsession, hsteady⟩ := shellStart_steady hk hkeyboard
  rw [live, ht, ← hsession]
  exact foldlM_shows (fun t e ht => (step_shows ht e).1) (fun t e t' ht => (step_shows ht e).2 t')
    events hsteady

end steps

section runs

structure Running (t : Terminal) : Prop where
  steady : Steady t
  timerHz : t.kernel.status.devices.timer.timerHz ≠ 0

variable {e : Event}

theorem Running.step (h : Running t) (ht : step image syscall profile entries t e = some t') :
    Running t' := by
  obtain ⟨hshows, hsteady⟩ := @step_shows profile entries image syscall t h.steady e
  refine ⟨hsteady t' ht, ?_⟩
  cases e with
  | interrupt i =>
    obtain ⟨o, ho, hleaves⟩ := deliver_leaves image syscall h.timerHz i
    rw [ShellInterrupts.step, ho, Option.bind_some] at ht
    obtain ⟨d, hd, rfl⟩ := Option.map_eq_some_iff.mp ht
    obtain ⟨-, hd⟩ := Option.ite_none_right_eq_some.mp hd
    rw [← Option.some.inj hd]
    exact hleaves.timerHz.trans_ne h.timerHz
  | poll hw =>
    rw [ht, Option.map_some, Desk.step, eq_comm, Option.map_eq_some_iff] at hshows
    obtain ⟨s', hs', hdesk⟩ := hshows
    have htimer : t'.kernel.status.devices.timer = s'.devices.timer :=
      congrArg (fun d => d.status.devices.timer) hdesk.symm
    rw [htimer]
    rw [work] at hs'
    cases hentered : (desk (session t)).typing.entered (.poll hw) with
    | none =>
      rw [hentered] at hs'
      obtain rfl := Option.some.inj hs'
      exact h.timerHz
    | some l =>
      rw [hentered] at hs'
      obtain ⟨a, -, rfl⟩ := Option.map_eq_some_iff.mp hs'
      cases a <;> exact h.timerHz

end runs

section unowned

variable {sched : Scheduler}

def Counted (s s' : Scheduler) : Prop :=
  ∃ ticks schedulerTicks need, s' = { s with
    tickCount := ticks, schedulerTicks := schedulerTicks, needReschedule := need }

theorem Counted.refl (s : Scheduler) : Counted s s := ⟨_, _, _, rfl⟩

theorem restoreCurrent_of_none (h : sched.current = none) : sched.restoreCurrent = sched := by
  rw [Scheduler.restoreCurrent, h]

theorem preemptSchedule_back (h : sched.current = none) (rsp : Word)
    (hback : (sched.preemptSchedule rsp).1.current = none) : (sched.preemptSchedule rsp).1 = sched := by
  cases he : sched.preemptEnabled with
  | false => rw [Scheduler.preemptSchedule_disabled he]
  | true =>
    obtain ⟨-, hs⟩ | ⟨pre, next, post, -, -, -, hs⟩ := Scheduler.preemptSchedule_cases he rsp
    · rw [hs, SavedContexts.saveCurrent_of_none h]
      exact restoreCurrent_of_none h
    · rw [hs] at hback
      cases hback

theorem released_of_none (h : sched.current = none) :
    sched.released = { sched with needReschedule := false, current := none } := by
  rw [Scheduler.released, Scheduler.requeueCurrent, h]

theorem tick_back (h : sched.current = none) (cpu : SavedRegisters)
    (hback : (sched.tick cpu).1.current = none) : Counted sched (sched.tick cpu).1 := by
  cases he : sched.preemptEnabled with
  | false =>
    rw [Scheduler.tick_disabled he]
    exact ⟨_, _, _, rfl⟩
  | true =>
    rw [Scheduler.tick_idle he h] at hback ⊢
    rw [Scheduler.scheduleIfNeeded] at hback ⊢
    by_cases hneed : sched.countTick.needReschedule = true
    · rw [if_pos hneed] at hback ⊢
      obtain ⟨-, hs⟩ | ⟨pre, next, post, -, -, ⟨hnext, -⟩ | ⟨-, hs⟩⟩ :=
        sched.countTick.schedule_cases cpu
      · rw [hs, @released_of_none sched.countTick h]
        exact ⟨_, _, _, rfl⟩
      · exact absurd (h.symm.trans hnext) (Option.some_ne_none _).symm
      · rw [hs] at hback
        cases hback
    · rw [if_neg hneed]
      exact ⟨_, _, _, rfl⟩

theorem rustTimerHandler_scheduler (hs : d.scheduler = some sched) {rsp : Word} {r : Devices × Word}
    (hr : rustTimerHandler d rsp = some r) : r.1.scheduler = some (sched.preemptSchedule rsp).1 := by
  obtain ⟨timer, -, rfl⟩ := Option.map_eq_some_iff.mp hr
  simp only [hs]
  split
  · rfl
  · rename_i he
    rw [Scheduler.preemptSchedule_disabled (Bool.eq_false_of_not_eq_true he)]

theorem schedulerTick_scheduler (hs : d.scheduler = some sched) (cpu : SavedRegisters) :
    (schedulerTick d cpu).1.scheduler = some (sched.tick cpu).1 := by
  rw [schedulerTick, hs]

theorem currentTask_eq (hs : d.scheduler = some sched) : currentTask d = sched.current := by
  rw [currentTask, hs, Option.bind_some]

theorem serve_counted (hs : d.scheduler = some sched) (hc : sched.current = none)
    (h : serve d i = some d') : ∃ sched', d'.scheduler = some sched' ∧ Counted sched sched' := by
  rw [serve] at h
  split at h
  · obtain ⟨r, hr, hback⟩ := Option.bind_eq_some_iff.mp h
    obtain ⟨⟨-, -, hcurrent⟩, hd⟩ := Option.ite_none_right_eq_some.mp hback
    obtain rfl := Option.some.inj hd
    have hafter := rustTimerHandler_scheduler hs hr
    rw [currentTask_eq hafter, currentTask_eq hs, hc] at hcurrent
    rw [preemptSchedule_back hc _ hcurrent] at hafter
    exact ⟨sched, hafter, .refl sched⟩
  · split at h
    · obtain ⟨timer, -, hback⟩ := Option.bind_eq_some_iff.mp h
      obtain ⟨⟨-, -, hcurrent⟩, hd⟩ := Option.ite_none_right_eq_some.mp hback
      obtain rfl := Option.some.inj hd
      have hafter := @schedulerTick_scheduler { d with timer } sched hs i.cpu
      rw [currentTask_eq hafter, currentTask_eq hs, hc] at hcurrent
      exact ⟨_, hafter, tick_back hc _ hcurrent⟩
    · obtain rfl := Option.some.inj h
      exact ⟨sched, hs, .refl sched⟩

/-- Preemption is on, and there is a task to change to from code of no task. -/
structure Eager (s : Scheduler) : Prop where
  preemptEnabled : s.preemptEnabled = true
  current : s.current = none
  needReschedule : s.needReschedule = false
  ready : ¬s.NothingToPick

theorem Eager.preempts (h : Eager sched) (rsp : Word) :
    (sched.preemptSchedule rsp).1.current ≠ none := by
  obtain ⟨hnone, -⟩ | ⟨pre, next, post, -, -, -, hs⟩ :=
    Scheduler.preemptSchedule_cases h.preemptEnabled rsp
  · rw [SavedContexts.saveCurrent_of_none h.current] at hnone
    exact absurd hnone h.ready
  · rw [hs]
    exact Option.some_ne_none next

theorem Eager.tick (h : Eager sched) (cpu : SavedRegisters) :
    sched.tick cpu = (sched.countTick, cpu) := by
  have hneed : ¬sched.countTick.needReschedule = true := Bool.not_eq_true _ ▸ h.needReschedule
  rw [Scheduler.tick_idle h.preemptEnabled h.current, Scheduler.scheduleIfNeeded, if_neg hneed]

theorem Eager.countTick (h : Eager sched) : Eager sched.countTick :=
  ⟨h.preemptEnabled, h.current, h.needReschedule, h.ready⟩

theorem Eager.serve_timer (h : Eager sched) (hs : d.scheduler = some sched) (hi : i.vector = 32) :
    serve d i = none := by
  rw [serve, if_pos hi]
  cases hr : rustTimerHandler d i.savedStatePtr with
  | none => rfl
  | some r =>
    refine if_neg fun hback => h.preempts i.savedStatePtr ?_
    rw [← currentTask_eq (rustTimerHandler_scheduler hs hr), hback.2.2, currentTask_eq hs, h.current]

theorem Eager.serve (h : Eager sched) (hs : d.scheduler = some sched) (hhz : d.timer.timerHz ≠ 0)
    (hi : i.vector ≠ 32) :
    ∃ d' sched', serve d i = some d' ∧ d'.scheduler = some sched' ∧ Eager sched' := by
  rw [ShellInterrupts.serve, if_neg hi]
  split
  · obtain ⟨timer, htimer, -⟩ := onTimerTick_eq hhz
    have htick : schedulerTick { d with timer } i.cpu =
        ({ d with timer, scheduler := some sched.countTick }, i.cpu) := by
      rw [schedulerTick]
      simp only [hs, h.tick]
    refine ⟨{ d with timer, scheduler := some sched.countTick }, _, ?_, rfl, h.countTick⟩
    rw [htimer, Option.bind_some, htick]
    refine if_pos ⟨rfl, rfl, ?_⟩
    rw [currentTask_eq hs]
    rfl
  · exact ⟨d, sched, rfl, hs, h⟩

end unowned

section masks

/-- The two masks that `init_pic` writes, that of the second controller above that of the first. -/
def picMasks : BitVec 16 := (0xFF : BitVec 8) ++ (0xFC : BitVec 8)

def unmasked (irq : Fin 16) : Bool := !picMasks.getLsbD irq

theorem unmasked_lt_two : ∀ irq, unmasked irq = true → irq.val < 2 := by decide

theorem vector_of_unmasked (h : unmasked i.irq = true) : i.vector ≠ 34 := by
  have hlt := unmasked_lt_two i.irq h
  rw [Interrupt.vector]
  omega

/-- No character is waiting, and the timer runs. -/
structure Deaf (d : Devices) : Prop where
  keyboard : d.keyboard = .initial
  timerHz : d.timer.timerHz ≠ 0

theorem serve_deaf (hd : Deaf d) (h : serve d i = some d') : Deaf d' := by
  refine ⟨(serve_keyboard h).trans hd.keyboard, ?_⟩
  rw [serve] at h
  split at h
  · obtain ⟨r, hr, hleaves⟩ := rustTimerHandler_leaves hd.timerHz i.savedStatePtr
    rw [hr, Option.bind_some] at h
    obtain ⟨-, hd'⟩ := Option.ite_none_right_eq_some.mp h
    rw [← Option.some.inj hd']
    exact hleaves.timerHz.trans_ne hd.timerHz
  · split at h
    · obtain ⟨timer, htimer, hhz, -⟩ := onTimerTick_eq hd.timerHz
      rw [htimer, Option.bind_some] at h
      obtain ⟨-, hd'⟩ := Option.ite_none_right_eq_some.mp h
      rw [← Option.some.inj hd', (schedulerTick_leaves _ _).1]
      exact hhz.trans_ne hd.timerHz
    · obtain rfl := Option.some.inj h
      exact hd.timerHz

theorem step_interrupt (t : Terminal) (hi : unmasked i.irq = true) :
    step image syscall profile entries (withDevices t d) (.interrupt i) =
      (serve d i).map (withDevices t) := by
  have hserve := deliver_serve image syscall d i
  simp only [if_neg (vector_of_unmasked hi), Option.map_id'] at hserve
  rw [← hserve]
  rfl

theorem step_poll (t : Terminal) (hd : Deaf d) (hw : Hardware) :
    step image syscall profile entries (withDevices t d) (.poll hw) = some (withDevices t d) := by
  have hnone : keyboardHasData (withDevices t d).kernel.status.devices.keyboard = false := by
    change keyboardHasData d.keyboard = false
    rw [hd.keyboard]
    rfl
  exact if_neg (by rw [hnone]; exact Bool.false_ne_true)

variable {e : Event} {events : List Event}

theorem step_deaf (hd : Deaf d) (he : ∀ irq ∈ e.line, unmasked irq = true)
    (ht : step image syscall profile entries (withDevices t d) e = some t') :
    ∃ d', t' = withDevices t d' ∧ Deaf d' := by
  cases e with
  | interrupt i =>
    rw [step_interrupt t (he i.irq rfl)] at ht
    obtain ⟨d', hd', rfl⟩ := Option.map_eq_some_iff.mp ht
    exact ⟨d', rfl, serve_deaf hd hd'⟩
  | poll hw =>
    rw [step_poll t hd] at ht
    exact ⟨d, (Option.some.inj ht).symm, hd⟩

theorem run_deaf (he : ∀ e ∈ events, ∀ irq ∈ e.line, unmasked irq = true) (hd : Deaf d)
    (ht : events.foldlM (step image syscall profile entries) (withDevices t d) = some t') :
    ∃ d', t' = withDevices t d' ∧ Deaf d' := by
  induction events generalizing d with
  | nil => exact ⟨d, (Option.some.inj ht).symm, hd⟩
  | cons e events ih =>
    obtain ⟨hfirst, hrest⟩ := List.forall_mem_cons.mp he
    rw [List.foldlM_cons] at ht
    obtain ⟨t₁, ht₁, ht⟩ := Option.bind_eq_some_iff.mp ht
    obtain ⟨d₁, rfl, hd₁⟩ := step_deaf hd hfirst ht₁
    exact ih hrest hd₁ ht

theorem run_eager {sched : Scheduler}
    (he : ∀ e ∈ events, ∀ irq ∈ e.line, unmasked irq = true) (hd : Deaf d)
    (hs : d.scheduler = some sched) (hsched : Eager sched) :
    (events.foldlM (step image syscall profile entries) (withDevices t d)).isSome ↔
      ∀ e ∈ events, e.line ≠ some 0 := by
  induction events generalizing d sched with
  | nil => exact iff_of_true rfl (List.forall_mem_nil _)
  | cons e events ih =>
    obtain ⟨hfirst, hrest⟩ := List.forall_mem_cons.mp he
    rw [List.foldlM_cons, List.forall_mem_cons]
    cases e with
    | interrupt i =>
      rw [step_interrupt t (hfirst i.irq rfl)]
      by_cases hi : i.irq = 0
      · rw [hsched.serve_timer hs (irq_eq_zero_iff.mp hi)]
        exact iff_of_false Bool.false_ne_true fun h => h.1 (congrArg some hi)
      · obtain ⟨d', sched', hd', hs', hsched'⟩ := @Eager.serve d i sched hsched hs hd.timerHz
          fun hv => hi (irq_eq_zero_iff.mpr hv)
        rw [hd']
        have hline : (Event.interrupt i).line ≠ some 0 := fun h => hi (Option.some.inj h)
        exact (ih hrest (serve_deaf hd hd') hs' hsched').trans (iff_and_self.mpr fun _ => hline)
    | poll hw =>
      rw [step_poll t hd]
      exact (ih hrest hd hs hsched).trans (iff_and_self.mpr fun _ => (Option.some_ne_none _).symm)

end masks

/-- With the interrupts that `init_pic` lets through, no character ever reaches the shell: while it has
the processor, the screen, the line and the mode stay as they are at the first prompt. With the scheduler
that `kernel_main` leaves, it has the processor until the first interrupt of the timer. -/
theorem shell_never_reads (image : Image) (syscall : Devices → Devices) (profile : Profile)
    (entries : Entries) (k : KernelShell.Kernel) (hk : Tidy k.console) (hboot : Deaf k.status.devices)
    (events : List Event) (hevents : ∀ e ∈ events, ∀ irq ∈ e.line, unmasked irq = true) :
    ∃ t, shellStart k = some t ∧
      (∀ t', live image syscall profile entries k events = some t' →
        ∃ d, t' = withDevices t d ∧ Deaf d) ∧
      ∀ sched, k.status.devices.scheduler = some sched → Eager sched →
        ((live image syscall profile entries k events).isSome ↔ ∀ e ∈ events, e.line ≠ some 0) := by
  obtain ⟨t, ht, hsession, -⟩ := shellStart_ready hk
  have hstatus : t.kernel.status = k.status := congrArg Session.status hsession
  have hself : t = withDevices t k.status.devices := by
    rw [← hstatus]
    rfl
  have hlive : live image syscall profile entries k events =
      events.foldlM (step image syscall profile entries) (withDevices t k.status.devices) := by
    rw [live, ht, ← hself]
    rfl
  refine ⟨t, ht, fun t' ht' => ?_, fun sched hs hsched => ?_⟩
  · rw [hlive] at ht'
    exact run_deaf hevents hboot ht'
  · rw [hlive]
    exact run_eager hevents hboot hs hsched

theorem bootScheduler_eager : Eager bootScheduler := by
  refine ⟨by decide, by decide, by decide, fun h => ?_⟩
  exact h.1 0 (by decide) (by decide)

def keyPressed : List Event := [.interrupt (keyboardInterrupt 0x1E), .poll smallHardware]

theorem keyPressed_unmasked : ∀ e ∈ keyPressed ++ [.interrupt timerInterrupt], ∀ irq ∈ e.line,
    unmasked irq = true := by
  simp only [keyPressed, List.cons_append, List.nil_append, List.forall_mem_cons, Event.line,
    Option.mem_def, Option.some.injEq, forall_eq', reduceCtorEq, false_implies, implies_true,
    List.not_mem_nil, and_true]
  decide

theorem keyboardInterrupt_not_read : ∃ t, shellStart bootedKernel = some t ∧
    (∃ d, live sampleImage id .release someEntries bootedKernel keyPressed =
      some (withDevices t d) ∧ Deaf d) ∧
    live sampleImage id .release someEntries bootedKernel (keyPressed ++ [.interrupt timerInterrupt]) =
      none := by
  have hdeaf : Deaf bootedKernel.status.devices := ⟨rfl, by decide⟩
  obtain ⟨t, ht, hstays, hlast⟩ := shell_never_reads sampleImage id .release someEntries bootedKernel
    cleared_tidy hdeaf keyPressed fun e he => keyPressed_unmasked e (List.mem_append_left _ he)
  obtain ⟨-, -, -, htaken⟩ := shell_never_reads sampleImage id .release someEntries bootedKernel
    cleared_tidy hdeaf _ keyPressed_unmasked
  refine ⟨t, ht, ?_, ?_⟩
  · have hline : ∀ e ∈ keyPressed, e.line ≠ some 0 := by
      simp only [keyPressed, List.forall_mem_cons, List.not_mem_nil, false_implies,
        implies_true, and_true]
      decide
    obtain ⟨t', ht'⟩ := Option.isSome_iff_exists.mp ((hlast _ rfl bootScheduler_eager).mpr hline)
    obtain ⟨d, rfl, hd⟩ := hstays t' ht'
    exact ⟨d, ht', hd⟩
  · rw [← Option.not_isSome_iff_eq_none, htaken _ rfl bootScheduler_eager]
    intro hnever
    exact hnever (.interrupt timerInterrupt) (List.mem_append_right _ List.mem_cons_self) rfl

end DeltaOS.ShellInterrupts
