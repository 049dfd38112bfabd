import DeltaOS.KeyboardFifo
import DeltaOS.Linearization

namespace DeltaOS.KeyboardRace

open Keyboard KeyboardFifo Runs Linearization

/-- The calls of the shell. -/
inductive Call
  | hasData
  | readChar
deriving DecidableEq, Repr

inductive Outcome
  | flag (b : Bool)
  | char (ch : Byte)
deriving DecidableEq, Repr

/-- How far the call that is under way has got: the accesses to the statics it has made, with what it
has loaded. -/
inductive Pc
  | idle
  | hasDataHead (head : Nat)
  | readHead (head : Nat)
  | readCompared
  | readIndex (tail : Nat)
  | readLoaded (ch : Byte)
  | readTail (ch : Byte) (tail : Nat)
deriving DecidableEq, Repr

/-- The statics of the keyboard, the call that is under way and what the calls before it have
returned. -/
structure State where
  keyboard : KeyboardState
  pc : Pc
  returned : List Outcome

def State.initial : State := ⟨.initial, .idle, []⟩

/-- The handler runs to its end wherever it interrupts; the shell calls, or makes the next access of
its call. -/
inductive Event
  | interrupt (code : Byte)
  | call (c : Call)
  | access

def State.answer (s : State) (r : Outcome) : State :=
  { s with pc := .idle, returned := s.returned ++ [r] }

/-- The next access of the call that is under way. -/
def access (s : State) : State :=
  match s.pc with
  | .idle => s
  | .hasDataHead head => s.answer (.flag (head != s.keyboard.tail))
  | .readHead head => if head = s.keyboard.tail then s.answer (.char 0)
      else { s with pc := .readCompared }
  | .readCompared => { s with pc := .readIndex s.keyboard.tail }
  | .readIndex tail => { s with pc := .readLoaded (s.keyboard.buffer tail) }
  | .readLoaded ch => { s with pc := .readTail ch s.keyboard.tail }
  | .readTail ch tail =>
    { s with keyboard := { s.keyboard with tail := (tail + 1) % 256 } }.answer (.char ch)

/-- A call starts with a load of `KEYBOARD_HEAD`; the shell makes one call at a time. -/
def start (s : State) (c : Call) : State :=
  match s.pc, c with
  | .idle, .hasData => { s with pc := .hasDataHead s.keyboard.head }
  | .idle, .readChar => { s with pc := .readHead s.keyboard.head }
  | _, _ => s

def step (s : State) : Event → State
  | .interrupt code => { s with keyboard := handleKeyboardScancode s.keyboard code }
  | .call c => start s c
  | .access => access s

/-- What takes effect at once. -/
inductive Atomic
  | interrupt (code : Byte)
  | call (c : Call)
deriving DecidableEq, Repr

def atomic (k : KeyboardState) : Atomic → Option Outcome × KeyboardState
  | .interrupt code => (none, handleKeyboardScancode k code)
  | .call .hasData => (some (.flag (keyboardHasData k)), k)
  | .call .readChar => (some (.char (keyboardReadChar k).1), (keyboardReadChar k).2)

/-- A call takes effect when it loads the head, unless it goes on to take a character: then when it
moves the tail. -/
def commit (s : State) : Event → Option Atomic
  | .interrupt code => some (.interrupt code)
  | .call c =>
    if s.pc = .idle ∧ (c = .hasData ∨ s.keyboard.head = s.keyboard.tail) then some (.call c) else none
  | .access =>
    match s.pc with
    | .readTail _ _ => some (.call .readChar)
    | _ => none

/-- What a call that has taken effect is about to return. -/
def pending (s : State) : List Outcome :=
  match s.pc with
  | .hasDataHead head => [.flag (head != s.keyboard.tail)]
  | .readHead head => if head = s.keyboard.tail then [.char 0] else []
  | _ => []

def outcomes (s : State) : List Outcome := s.returned ++ pending s

/-- What a call that is under way may rely on. -/
def Relies (k : KeyboardState) : Pc → Prop
  | .idle | .hasDataHead _ => True
  | .readHead head => head ≠ k.tail → k.head ≠ k.tail
  | .readCompared => k.head ≠ k.tail
  | .readIndex tail => k.head ≠ k.tail ∧ tail = k.tail
  | .readLoaded ch => k.head ≠ k.tail ∧ ch = k.buffer k.tail
  | .readTail ch tail => k.head ≠ k.tail ∧ ch = k.buffer k.tail ∧ tail = k.tail

def Inv (s : State) : Prop := Relies s.keyboard s.pc

structure Undisturbed (k k' : KeyboardState) : Prop where
  tail : k'.tail = k.tail
  head : k.head ≠ k.tail → k'.head ≠ k'.tail
  unread : k.head ≠ k.tail → k'.buffer k'.tail = k.buffer k.tail

theorem put_undisturbed (k : KeyboardState) (ch : Byte) : Undisturbed k (k.put ch) := by
  rw [KeyboardState.put]
  split_ifs with hnext
  · refine ⟨rfl, fun _ => hnext, fun hne => ?_⟩
    exact Function.update_of_ne (Ne.symm hne) _ _
  · exact ⟨rfl, id, fun _ => rfl⟩

theorem handler_undisturbed (k : KeyboardState) (code : Byte) :
    Undisturbed k (handleKeyboardScancode k code) := by
  rw [handleKeyboardScancode_eq]
  cases decode k code with
  | none => exact ⟨rfl, id, fun _ => rfl⟩
  | some ch => exact put_undisturbed k ch

theorem Undisturbed.relies {k k' : KeyboardState} (h : Undisturbed k k') {pc : Pc} (hr : Relies k pc) :
    Relies k' pc := by
  cases pc with
  | idle | hasDataHead => trivial
  | readHead head =>
    intro hne
    rw [h.tail] at hne
    exact h.head (hr hne)
  | readCompared => exact h.head hr
  | readIndex tail => exact ⟨h.head hr.1, hr.2.trans h.tail.symm⟩
  | readLoaded ch => exact ⟨h.head hr.1, hr.2.trans (h.unread hr.1).symm⟩
  | readTail ch tail => exact ⟨h.head hr.1, hr.2.1.trans (h.unread hr.1).symm, hr.2.2.trans h.tail.symm⟩

theorem Undisturbed.pending {s : State} {k : KeyboardState} (h : Undisturbed s.keyboard k) :
    pending { s with keyboard := k } = pending s := by
  simp only [KeyboardRace.pending, h.tail]

theorem inv_step (s : State) (e : Event) (h : Inv s) : Inv (step s e) := by
  obtain ⟨k, pc, returned⟩ := s
  cases e with
  | interrupt code => exact (handler_undisturbed k code).relies h
  | call c =>
    cases pc with
    | idle => cases c with
      | hasData => trivial
      | readChar => exact id
    | _ => exact h
  | access =>
    cases pc with
    | idle => trivial
    | hasDataHead head => trivial
    | readHead head =>
      dsimp only [step, access]
      split_ifs with he
      · trivial
      · exact h he
    | readCompared => exact ⟨h, rfl⟩
    | readIndex tail => exact ⟨h.1, congrArg k.buffer h.2⟩
    | readLoaded ch => exact ⟨h.1, h.2, rfl⟩
    | readTail ch tail => trivial

theorem quiet_step (s : State) (e : Event) (_ : Inv s) (hc : commit s e = none) :
    (step s e).keyboard = s.keyboard ∧ outcomes (step s e) = outcomes s := by
  obtain ⟨k, pc, returned⟩ := s
  cases e with
  | interrupt code => cases hc
  | call c =>
    cases pc with
    | idle => cases c with
      | hasData =>
        rw [commit, if_pos ⟨rfl, .inl rfl⟩] at hc
        cases hc
      | readChar =>
        have hne : k.head ≠ k.tail := by
          intro he
          rw [commit, if_pos ⟨rfl, .inr he⟩] at hc
          cases hc
        exact ⟨rfl, congrArg (returned ++ ·) (if_neg hne)⟩
    | _ => exact ⟨rfl, rfl⟩
  | access =>
    cases pc with
    | idle => exact ⟨rfl, rfl⟩
    | hasDataHead head => exact ⟨rfl, List.append_nil _⟩
    | readHead head =>
      simp only [step, access, outcomes, pending]
      split_ifs
      · exact ⟨rfl, List.append_nil _⟩
      · exact ⟨rfl, rfl⟩
    | readCompared => exact ⟨rfl, rfl⟩
    | readIndex tail => exact ⟨rfl, rfl⟩
    | readLoaded ch => exact ⟨rfl, rfl⟩
    | readTail ch tail => cases hc

theorem commit_step (s : State) (e : Event) (a : Atomic) (h : Inv s) (hc : commit s e = some a) :
    (step s e).keyboard = (atomic s.keyboard a).2 ∧
      outcomes (step s e) = outcomes s ++ (atomic s.keyboard a).1.toList := by
  cases e with
  | interrupt code =>
    cases hc
    refine ⟨rfl, ?_⟩
    rw [outcomes, step, (handler_undisturbed s.keyboard code).pending]
    exact (List.append_nil _).symm
  | call c =>
    obtain ⟨k, pc, returned⟩ := s
    rw [commit] at hc
    split_ifs at hc with hidle
    cases hc
    obtain ⟨rfl, hidle⟩ := hidle
    cases c with
    | hasData =>
      refine ⟨rfl, ?_⟩
      simp only [outcomes, step, start, pending, atomic, keyboardHasData, List.append_nil,
        Option.toList_some]
    | readChar =>
      obtain hcall | hempty := hidle
      · cases hcall
      · have hread : keyboardReadChar k = (0, k) := if_pos hempty
        have hpending : pending (step ⟨k, .idle, returned⟩ (.call .readChar)) =
            [.char 0] := if_pos hempty
        refine ⟨(congrArg Prod.snd hread).symm, ?_⟩
        simp only [outcomes, hpending, atomic, hread, Option.toList_some]
        simp only [step, start, pending, List.append_nil]
  | access =>
    obtain ⟨k, pc, returned⟩ := s
    cases pc with
    | readTail ch tail =>
      cases hc
      obtain ⟨hne, hch, htail⟩ := h
      have hread : keyboardReadChar k = (k.buffer k.tail, { k with tail := (k.tail + 1) % 256 }) :=
        if_neg hne
      simp only [outcomes, step, access, State.answer, pending, atomic, hread, hch, htail,
        List.append_nil, Option.toList_some, and_self]
    | _ => cases hc

theorem linearizes : Linearizes step commit atomic State.keyboard outcomes Inv :=
  ⟨inv_step, quiet_step, commit_step⟩

/-- The characters among what calls have returned; zero stands for none. -/
def taken (rs : List Outcome) : List Byte :=
  rs.filterMap fun
    | .char ch => if ch = 0 then none else some ch
    | .flag _ => none

/-- The operations of the queue among those that take effect. -/
def queueOp : Atomic → Option Op
  | .interrupt code => some (.scancode code)
  | .call .readChar => some .readChar
  | .call .hasData => none

theorem replay_queue (s : Session) (ks : List Atomic) :
    (run KeyboardFifo.step s (ks.filterMap queueOp)).keyboard = (replay atomic s.keyboard ks).2 ∧
      (run KeyboardFifo.step s (ks.filterMap queueOp)).returned =
        s.returned ++ taken (replay atomic s.keyboard ks).1 := by
  induction ks generalizing s with
  | nil => exact ⟨rfl, (List.append_nil _).symm⟩
  | cons k ks ih =>
    cases k with
    | interrupt code => exact ih (KeyboardFifo.step s (.scancode code))
    | call c =>
      cases c with
      | hasData => exact ih s
      | readChar =>
        obtain ⟨hkeyboard, hreturned⟩ := ih (KeyboardFifo.step s .readChar)
        refine ⟨hkeyboard, hreturned.trans ?_⟩
        simp only [KeyboardFifo.step, replay, atomic, taken, Option.toList_some, List.singleton_append,
          List.filterMap_cons]
        split_ifs
        · rw [List.append_nil]
        · rw [List.append_assoc]
          rfl

/-- However the interrupts fall between the single accesses of the shell's calls, the keyboard ends as
if each call had been made at once, at a moment between its start and its end, and the calls return
the same: the keyboard is the same lossless queue, and what has been read is what was typed first. -/
theorem calls_linearize (events : List Event) :
    let s := run step .initial events
    let h := history step commit .initial events
    (outcomes s, s.keyboard) = replay atomic .initial h ∧
      ∃ q : Session, q = run KeyboardFifo.step .initial (h.filterMap queueOp) ∧ q.keyboard = s.keyboard ∧
        q.returned = taken (outcomes s) ∧ Fifo q := by
  have hinv : Inv .initial := trivial
  obtain ⟨hout, hkeyboard⟩ := linearizes.run_eq hinv events
  obtain ⟨hqueue, hreturned⟩ := replay_queue .initial (history step commit .initial events)
  have hfifo : Always KeyboardFifo.step KeyboardFifo.Inv .initial
      ((history step commit .initial events).filterMap queueOp) :=
        always_of_step KeyboardFifo.inv_step inv_initial
  refine ⟨Prod.ext hout hkeyboard, _, rfl, hqueue.trans hkeyboard.symm, ?_, hfifo.last.fifo⟩
  exact hreturned.trans (congrArg taken hout.symm)

end DeltaOS.KeyboardRace
