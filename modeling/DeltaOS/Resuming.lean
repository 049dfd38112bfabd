import DeltaOS.Placement

namespace DeltaOS.Resuming

open Kernel Tasks Sched Runs Placement

/-- What the two commands that continue a stopped task are for. -/
structure Resumed (mode : TaskForeground) (r : TaskRef) (after : Scheduler × KernelResult Unit) :
    Prop where
  ok : after.2 = .ok ()
  foreground : (after.1.cells r).foreground = mode
  ready : (after.1.cells r).state = .ready
  continued : (after.1.cells r).pendingSignals.getLsbD sigcont = true
  queued : after.1.readyQueue.count r = 1

/-- A stopped task that has not ended and is not the current one. -/
structure Stopped (s : Scheduler) (r : TaskRef) : Prop where
  created : r < s.nextRef
  alive : (s.cells r).state ≠ .terminated
  other : s.current ≠ some r
  stopped : (s.cells r).foreground = .stopped

variable {s : Scheduler} {r : TaskRef}

theorem findTask_id (hb : s.Bounded) (hl : Labelled s) (hlt : r < s.nextRef) :
    s.findTask (s.cells r).id = if r ∈ s.allTasks then some r else none := by
  have hunique {a : TaskRef} (ha : a ∈ s.allTasks) (hid : (s.cells a).id = (s.cells r).id) : a = r :=
    hl.unique a (hb a (.inr (.inr ha))) r hlt hid
  split_ifs with hr
  · cases hfind : s.findTask (s.cells r).id with
    | none => exact absurd (decide_eq_true rfl) (List.find?_eq_none.mp hfind r hr)
    | some a =>
      obtain ⟨ha, hid⟩ := Scheduler.findTask_mem hfind
      rw [hunique ha hid]
  · rw [Scheduler.findTask, List.find?_eq_none]
    intro a ha hid
    exact hr (hunique ha (by simpa using hid) ▸ ha)

theorem sendSignal_sigcont (t : Task) : (t.sendSignal sigcont).pendingSignals.getLsbD sigcont = true ∧
    (t.sendSignal sigcont).foreground = t.foreground := by
  rw [Task.sendSignal, if_pos (by decide)]
  exact ⟨by simp [sigcont], rfl⟩

theorem backgroundTask_resumed_iff (hb : s.Bounded) (hl : Labelled s) (hlt : r < s.nextRef)
    (hstopped : (s.cells r).foreground = .stopped) :
    Resumed .background r (s.backgroundTask (s.cells r).id) ↔ r ∈ s.allTasks ∧ r ∉ s.readyQueue := by
  rw [Scheduler.backgroundTask, findTask_id hb hl hlt]
  split_ifs with hr
  · dsimp only
    rw [if_neg (not_not.mpr hstopped), and_iff_right hr]
    have hcount : (s.readyQueue ++ [r]).count r = 1 ↔ r ∉ s.readyQueue := by
      rw [List.count_append, List.count_singleton_self, Nat.add_eq_right, List.count_eq_zero]
    constructor
    · intro h
      exact hcount.mp h.queued
    · intro hout
      have hsignal := sendSignal_sigcont { s.cells r with foreground := .background, state := .ready }
      refine ⟨rfl, ?_, ?_, ?_, hcount.mpr hout⟩
      · simpa using hsignal.2
      · simp
      · simpa using hsignal.1
  · exact iff_of_false (fun h => by cases h.ok) fun h => hr h.1

theorem foregroundTask_resumed_iff (hb : s.Bounded) (hl : Labelled s) (hlt : r < s.nextRef)
    (hstopped : (s.cells r).foreground = .stopped) :
    Resumed .foreground r (s.foregroundTask (s.cells r).id) ↔
      r ∈ s.allTasks ∧ (s.cells r).state = .ready ∧ (s.cells r).pendingSignals.getLsbD sigcont = true ∧
        s.readyQueue.count r = 1 := by
  rw [Scheduler.foregroundTask, findTask_id hb hl hlt]
  split_ifs with hr
  · dsimp only
    have hcell : (s.modify r fun t => { t with foreground := .foreground }).cells r =
        { s.cells r with foreground := .foreground } := by
      rw [Scheduler.modify_cells, Function.update_self]
    rw [if_neg (by rw [hstopped]; decide), hcell, if_neg (by simp), and_iff_right hr]
    constructor
    · intro h
      have hready := h.ready
      have hcont := h.continued
      dsimp only at hready hcont
      rw [hcell] at hready hcont
      exact ⟨hready, hcont, h.queued⟩
    · rintro ⟨hready, hcont, hqueued⟩
      refine ⟨rfl, ?_, ?_, ?_, hqueued⟩
      · dsimp only
        rw [hcell]
      · dsimp only
        rwa [hcell]
      · dsimp only
        rwa [hcell]
  · exact iff_of_false (fun h => by cases h.ok) fun h => hr h.1

/-- When the two commands continue a stopped task. -/
theorem stopped_resumed_iff (g : Statics) (ops : List Op) : Always step (fun s => ∀ r, Stopped s r →
    (Resumed .background r (s.backgroundTask (s.cells r).id) ↔ r ∈ s.allTasks ∧ r ∉ s.readyQueue) ∧
      (Resumed .foreground r (s.foregroundTask (s.cells r).id) ↔ r ∈ s.allTasks ∧
        (s.cells r).state = .ready ∧
        (s.cells r).pendingSignals.getLsbD sigcont = true ∧ s.readyQueue.count r = 1))
          (Scheduler.new g) ops := by
  refine (always_reachable g ops).mono ?_
  rintro s ⟨hb, hl, -⟩ r h
  exact ⟨backgroundTask_resumed_iff hb hl h.created h.stopped,
    foregroundTask_resumed_iff hb hl h.created h.stopped⟩

def firstStopped : List Op :=
  [.createKernelTask 0x100000 "first" 0, .createKernelTask 0x100000 "second" 0,
    .enablePreemption, .schedule {}, .sendSignal 1 20, .tick {}, .schedule {}]

theorem firstStopped_not_resumed : ∃ s, run step (Scheduler.new { mem := fun _ => 0 }) firstStopped = s ∧
    Stopped s 0 ∧ (s.cells 0).id = 1 ∧ ¬Resumed .foreground 0 (s.foregroundTask 1) := by
  refine ⟨_, rfl, ⟨by decide, by decide, by decide, by decide⟩, by decide, fun h => ?_⟩
  exact absurd h.ready (by decide)

end DeltaOS.Resuming
