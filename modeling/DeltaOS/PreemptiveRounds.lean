import DeltaOS.RoundRobin
import DeltaOS.Runs
import DeltaOS.SchedSteps

namespace DeltaOS.PreemptiveRounds

open Kernel Tasks Sched Runs RoundRobin

def present (s : Scheduler) : List TaskRef := s.readyQueue ++ s.current.toList

structure WellFormed (s : Scheduler) : Prop where
  enabled : s.preemptEnabled = true
  distinct : (present s).Nodup
  ready : ∀ r ∈ s.readyQueue, (s.cells r).state = .ready
  running : ∀ r, s.current = some r → (s.cells r).state = .running

def preempt (s : Scheduler) (rsp : Word) : Scheduler := (s.preemptSchedule rsp).1

/-- The task `preempt_schedule` selects. -/
def selected (s : Scheduler) (rsp : Word) : Option TaskRef := (s.saveCurrent rsp).pickNextTask.1

def selections : Scheduler → List Word → List TaskRef
  | _, [] => []
  | s, rsp :: rsps => (selected s rsp).toList ++ selections (preempt s rsp) rsps

/-- No task that is present has a higher priority. -/
def Top (s : Scheduler) (r : TaskRef) : Prop :=
  ∀ a ∈ present s, (s.cells a).priority ≤ (s.cells r).priority

instance (s : Scheduler) : DecidablePred (Top s) := fun r =>
  inferInstanceAs (Decidable (∀ a ∈ present s, (s.cells a).priority ≤ (s.cells r).priority))

def ring (s : Scheduler) : List TaskRef := (present s).filter fun r => Top s r

/-- The same tasks with the same priorities. -/
structure SameTasks (s s' : Scheduler) : Prop where
  tasks : (present s').Perm (present s)
  priority : ∀ r, (s'.cells r).priority = (s.cells r).priority

variable {s s' : Scheduler} {r : TaskRef} {rsp : Word}

theorem SameTasks.top_iff (h : SameTasks s s') : Top s' r ↔ Top s r := by
  simp only [Top, h.priority, h.tasks.mem_iff]

theorem SameTasks.ring_eq (h : SameTasks s s') : ring s' = (present s').filter fun r => Top s r := by
  simp only [ring, h.top_iff]

theorem SameTasks.trans {s'' : Scheduler} (h : SameTasks s s') (h' : SameTasks s' s'') :
    SameTasks s s'' :=
  ⟨h'.tasks.trans h.tasks, fun r => (h'.priority r).trans (h.priority r)⟩

theorem saved_queue (s : Scheduler) (rsp : Word) : (s.saveCurrent rsp).readyQueue = present s := by
  rw [Scheduler.saveCurrent_eq, present]

theorem saved_priority (s : Scheduler) (rsp : Word) (r : TaskRef) :
    ((s.saveCurrent rsp).cells r).priority = (s.cells r).priority := by
  rw [Scheduler.saveCurrent_eq]
  dsimp only
  split <;> rfl

theorem WellFormed.saved_ready (h : WellFormed s) (rsp : Word) (hr : r ∈ present s) :
    ((s.saveCurrent rsp).cells r).state = .ready := by
  rw [Scheduler.saveCurrent_eq]
  dsimp only
  split_ifs with hc
  · rfl
  · obtain hr | hr := List.mem_append.mp hr
    · exact h.ready r hr
    · exact absurd (by simpa using hr) hc

theorem WellFormed.preempt_cases (h : WellFormed s) (rsp : Word) (hne : present s ≠ []) :
    ∃ pre next post, present s = pre ++ next :: post ∧ selected s rsp = some next ∧
      (s.saveCurrent rsp).Foremost pre next post ∧
      preempt s rsp =
        (Scheduler.dispatch { s.saveCurrent rsp with readyQueue := pre ++ post } next).countSwitch := by
  obtain ⟨hn, -⟩ | ⟨pre, next, post, hq, hfirst, hp, -⟩ := (s.saveCurrent rsp).pickNextTask_spec
  · obtain ⟨a, rest, hq⟩ := List.exists_cons_of_ne_nil hne
    refine absurd (h.saved_ready rsp (by simp [hq])) (hn.1 a ?_)
    simp [saved_queue, hq]
  · refine ⟨pre, next, post, (saved_queue s rsp).symm.trans hq, by rw [selected, hp], hfirst, ?_⟩
    simp [preempt, Scheduler.preemptSchedule, h.enabled, hp]

section Dispatched

variable {pre post : List TaskRef} {next : TaskRef}

theorem sameTasks_dispatched (rsp : Word) (hq : present s = pre ++ next :: post) : SameTasks s
    (Scheduler.dispatch { s.saveCurrent rsp with readyQueue := pre ++ post } next).countSwitch := by
  constructor
  · rw [hq]
    exact (List.perm_append_singleton next (pre ++ post)).trans List.perm_middle.symm
  · intro r
    rw [Scheduler.countSwitch_cells, Scheduler.dispatch_cells_apply, ← saved_priority s rsp]
    split_ifs with hr
    · rw [hr]
    · rfl

theorem WellFormed.dispatched (h : WellFormed s) (hq : present s = pre ++ next :: post) : WellFormed
    (Scheduler.dispatch { s.saveCurrent rsp with readyQueue := pre ++ post } next).countSwitch := by
  have hnodup := (sameTasks_dispatched rsp hq).tasks.nodup_iff.mpr h.distinct
  have hnext : next ∉ pre ++ post := by
    have hdistinct := h.distinct
    rw [hq] at hdistinct
    exact (List.nodup_middle.mp hdistinct).notMem
  refine ⟨?_, hnodup, ?_, ?_⟩
  · rw [Scheduler.saveCurrent_eq]
    exact h.enabled
  · intro r hr
    have hne : r ≠ next := fun heq => hnext (heq ▸ hr)
    rw [Scheduler.countSwitch_cells, Scheduler.dispatch_cells_apply, if_neg hne]
    refine h.saved_ready rsp ?_
    rw [hq]
    exact List.perm_middle.mem_iff.mpr (List.mem_cons_of_mem next hr)
  · intro r hr
    obtain rfl : next = r := Option.some.inj hr
    rw [Scheduler.countSwitch_cells, Scheduler.dispatch_cells_apply, if_pos rfl]

theorem ring_dispatched (hready : ∀ r ∈ present s, ((s.saveCurrent rsp).cells r).state = .ready)
    (hq : present s = pre ++ next :: post) (hfirst : (s.saveCurrent rsp).Foremost pre next post) :
    ∃ rest, ring s = next :: rest ∧ ring
      (Scheduler.dispatch { s.saveCurrent rsp with readyQueue := pre ++ post } next).countSwitch =
        rest ++ [next] := by
  have hbefore : ∀ a ∈ pre, (s.cells a).priority < (s.cells next).priority := fun a ha => by
    have hlt := hfirst.before a ha (hready a (by simp [hq, ha]))
    rwa [saved_priority, saved_priority] at hlt
  have hafter : ∀ a ∈ post, (s.cells a).priority ≤ (s.cells next).priority := fun a ha => by
    have hle := hfirst.after a ha (hready a (by simp [hq, ha]))
    rwa [saved_priority, saved_priority] at hle
  have htop : Top s next := by
    intro a ha
    rw [hq] at ha
    obtain ha | rfl | ha := by simpa using ha
    · exact (hbefore a ha).le
    · exact le_rfl
    · exact hafter a ha
  have hpre : pre.filter (fun r => Top s r) = [] := by
    refine List.filter_eq_nil_iff.mpr fun a ha => ?_
    have hnot : ¬Top s a := fun hta => not_lt.mpr (hta next (by simp [hq])) (hbefore a ha)
    simpa using hnot
  refine ⟨post.filter fun r => Top s r, ?_, ?_⟩
  · simp [ring, hq, hpre, htop]
  · rw [(sameTasks_dispatched rsp hq).ring_eq]
    change (pre ++ post ++ [next]).filter _ = _
    simp [hpre, htop]

end Dispatched

theorem preempt_empty (h : WellFormed s) (rsp : Word) (hnil : present s = []) :
    selected s rsp = none ∧ present (preempt s rsp) = [] ∧ WellFormed (preempt s rsp) ∧
      SameTasks s (preempt s rsp) := by
  obtain ⟨hq, hc⟩ := List.append_eq_nil_iff.mp hnil
  have hc : s.current = none := by simpa using hc
  have hsave : s.saveCurrent rsp = s := by simp [Scheduler.saveCurrent, hc]
  have hpick : s.pickNextTask = (none, s) := by simp [Scheduler.pickNextTask, hq]
  have hsame : preempt s rsp = s := by
    simp [preempt, Scheduler.preemptSchedule, h.enabled, hsave, hpick, Scheduler.restoreCurrent, hc]
  rw [selected, hsave, hpick, hsame]
  exact ⟨rfl, hnil, h, List.Perm.refl _, fun _ => rfl⟩

theorem WellFormed.preempt (h : WellFormed s) (rsp : Word) :
    WellFormed (preempt s rsp) ∧ SameTasks s (preempt s rsp) := by
  obtain hnil | hne := eq_or_ne (present s) []
  · exact (preempt_empty h rsp hnil).2.2
  · obtain ⟨pre, next, post, hq, -, -, hs⟩ := h.preempt_cases rsp hne
    rw [hs]
    exact ⟨h.dispatched hq, sameTasks_dispatched rsp hq⟩

theorem WellFormed.selections_eq (h : WellFormed s) (rsps : List Word) :
    selections s rsps = turns (ring s) rsps.length := by
  induction rsps generalizing s with
  | nil => cases ring s <;> rfl
  | cons rsp rsps ih =>
    obtain hnil | hne := eq_or_ne (present s) []
    · obtain ⟨hsel, hpresent, hwf, -⟩ := preempt_empty h rsp hnil
      rw [selections, hsel, ih hwf, ring, ring, hpresent, hnil]
      cases rsps <;> rfl
    · obtain ⟨pre, next, post, hq, hsel, hfirst, hs⟩ := h.preempt_cases rsp hne
      obtain ⟨rest, hring, hring'⟩ :=
        ring_dispatched (fun r hr => h.saved_ready rsp hr) hq hfirst
      rw [selections, hsel, ih (h.preempt rsp).1, hs, hring', hring]
      rfl

/-- The preemptive path is a round robin among the tasks of the highest priority. -/
theorem preempt_round_robin (h : WellFormed s) (rsps : List Word) :
    Always preempt (fun s' => WellFormed s' ∧ SameTasks s s') s rsps ∧
      (∀ r ∈ selections s rsps, r ∈ present s ∧ Top s r) ∧
      (present s ≠ [] → (selections s rsps).length = rsps.length) ∧
      ∀ (i j : Nat) (r : TaskRef), i < j → (selections s rsps)[i]? = some r →
        (selections s rsps)[j]? = some r → (∀ k, i < k → k < j → (selections s rsps)[k]? ≠ some r) →
        ∀ a ∈ present s, Top s a → a ≠ r → ∃! k, (i < k ∧ k < j) ∧ (selections s rsps)[k]? = some a := by
  refine ⟨?_, ?_, ?_, ?_⟩
  · refine always_of_step (fun t rsp ht => ?_) ⟨h, List.Perm.refl _, fun _ => rfl⟩
    exact ⟨(ht.1.preempt rsp).1, ht.2.trans (ht.1.preempt rsp).2⟩
  · intro r hr
    rw [h.selections_eq] at hr
    simpa [ring] using mem_of_mem_turns hr
  · intro hne
    rw [h.selections_eq]
    refine length_turns ?_ _
    obtain ⟨pre, next, post, hq, -, hfirst, -⟩ := h.preempt_cases 0 hne
    obtain ⟨rest, hring, -⟩ := ring_dispatched (fun r hr => h.saved_ready 0 hr) hq hfirst
    simp [hring]
  · intro i j r hij hi hj hbetween a ha htop hne
    rw [h.selections_eq] at hi hj hbetween ⊢
    exact fair (h.distinct.filter _) hij hi hj hbetween (by simpa [ring] using ⟨ha, htop⟩) hne

def twoTasks : Scheduler :=
  run step (Scheduler.new { mem := fun _ => 0 })
    [.createKernelTask 0 "first" 0, .createKernelTask 0 "second" 0, .enablePreemption]

theorem twoTasks_wellFormed : WellFormed twoTasks := by
  refine ⟨rfl, by decide +kernel, ?_, nofun⟩
  decide +kernel

theorem twoTasks_round_robin : (selections twoTasks [0, 0, 0]).length = 3 ∧
    ∃! k, (0 < k ∧ k < 2) ∧ (selections twoTasks [0, 0, 0])[k]? = some 1 := by
  obtain ⟨-, -, hlength, hfair⟩ := preempt_round_robin twoTasks_wellFormed [0, 0, 0]
  refine ⟨hlength (by decide +kernel), hfair 0 2 0 (by decide) ?_ ?_ ?_ 1 ?_ ?_ (by decide)⟩
  · decide +kernel
  · decide +kernel
  · intro k hlo hhi
    obtain rfl : k = 1 := by omega
    decide +kernel
  · decide +kernel
  · decide +kernel

end DeltaOS.PreemptiveRounds
