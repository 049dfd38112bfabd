import DeltaOS.Runs
import DeltaOS.SchedSteps

namespace DeltaOS.SavedContexts

open Kernel Tasks Sched Runs

variable {s : Scheduler}

/-- The interrupted code continues, or a queued task remembers its stack pointer. -/
def ContextKept (s : Scheduler) (rsp : Word) : Prop :=
  (s.preemptSchedule rsp).2 = rsp ∨
    ∃ r ∈ (s.preemptSchedule rsp).1.readyQueue,
      ((s.preemptSchedule rsp).1.cells r).savedRsp = rsp

/-- There is a current task to save into, or nothing to switch to, or the stack pointer is
already that of a queued task. -/
def ContextOwned (s : Scheduler) (rsp : Word) : Prop :=
  s.current ≠ none ∨ s.NothingToPick ∨ ∃ r ∈ s.readyQueue, (s.cells r).savedRsp = rsp

theorem saveCurrent_of_none (h : s.current = none) (rsp : Word) : s.saveCurrent rsp = s := by
  unfold Scheduler.saveCurrent
  rw [h]

theorem mem_remaining {pre post : List TaskRef} {next r : TaskRef} (h : r ∈ pre ++ next :: post)
    (hne : r ≠ next) : r ∈ pre ++ post := by
  simpa [hne] using h

theorem contextKept_of_current {c : TaskRef} (he : s.preemptEnabled = true)
    (hc : s.current = some c) (rsp : Word) : ContextKept s rsp := by
  have hcell : ((s.saveCurrent rsp).cells c).savedRsp = rsp := by
    simp [Scheduler.saveCurrent_eq, hc, Task.resetTimeSlice]
  have hmem : c ∈ (s.saveCurrent rsp).readyQueue := by simp [Scheduler.saveCurrent_eq, hc]
  obtain ⟨-, hs⟩ | ⟨pre, next, post, hq, -, -, hs⟩ := Scheduler.preemptSchedule_cases he rsp
  · exact .inl (by rw [hs])
  · by_cases hne : c = next
    · subst next
      exact .inl (by rw [hs]; exact hcell)
    · refine .inr ⟨c, ?_, ?_⟩
      · rw [hs]
        exact mem_remaining (hq ▸ hmem) hne
      · rw [hs]
        simpa [hne] using hcell

theorem contextKept_iff_of_none (he : s.preemptEnabled = true) (hc : s.current = none) (rsp : Word) :
    ContextKept s rsp ↔ s.NothingToPick ∨ ∃ r ∈ s.readyQueue, (s.cells r).savedRsp = rsp := by
  have hcases := Scheduler.preemptSchedule_cases he rsp
  rw [saveCurrent_of_none hc] at hcases
  obtain ⟨hn, hs⟩ | ⟨pre, next, post, hq, hready, hn, hs⟩ := hcases
  · exact iff_of_true (.inl (by rw [hs])) (.inl hn)
  · unfold ContextKept
    rw [hs]
    constructor
    · rintro (h | ⟨r, hr, h⟩)
      · exact .inr ⟨next, by simp [hq], h⟩
      · have hm : r ∈ pre ∨ r ∈ post := by simpa using hr
        refine .inr ⟨r, ?_, ?_⟩
        · simp only [hq, List.mem_append, List.mem_cons]
          tauto
        · rw [Scheduler.countSwitch_cells, Scheduler.dispatch_cells_apply] at h
          split at h
          · next he => rw [he]; exact h
          · exact h
    · rintro (h | ⟨r, hr, h⟩)
      · exact absurd h hn
      · by_cases hne : r = next
        · subst r
          exact .inl h
        · exact .inr ⟨r, mem_remaining (hq ▸ hr) hne, by simpa [hne] using h⟩

/-- In every reachable state a timer interrupt keeps the interrupted context exactly when
some task owns it. -/
theorem contextKept_iff_contextOwned (g : Statics) (ops : List Op) (rsp : Word)
    (he : (run step (Scheduler.new g) ops).preemptEnabled = true) :
    ContextKept (run step (Scheduler.new g) ops) rsp ↔
      ContextOwned (run step (Scheduler.new g) ops) rsp := by
  unfold ContextOwned
  cases hc : (run step (Scheduler.new g) ops).current with
  | none => simpa using contextKept_iff_of_none he hc rsp
  | some c => exact iff_of_true (contextKept_of_current he hc rsp) (.inl (by simp))

/-- The scheduler calls of `kernel_main`, before it enters the shell on the boot stack. -/
def bootSequence : List Op := [.createIdleTask 0x100000 0, .enablePreemption]

def twoTasks : List Op := bootSequence ++
  [.createKernelTask 0x110000 "demo" 0, .createKernelTask 0x110100 "counter" 0,
    .preemptSchedule 0x180000]

theorem twoTasks_kept :
    (run step (Scheduler.new { mem := fun _ => 0 }) twoTasks).current = some 1 ∧
      ContextKept (run step (Scheduler.new { mem := fun _ => 0 }) twoTasks) 0xB0FF00 := by
  have hcurrent : (run step (Scheduler.new { mem := fun _ => 0 }) twoTasks).current = some 1 := by decide
  refine ⟨hcurrent, (contextKept_iff_contextOwned { mem := fun _ => 0 } twoTasks 0xB0FF00
    (by decide)).mpr (.inl ?_)⟩
  rw [hcurrent]
  exact Option.some_ne_none 1

/-- The first timer interrupt in the shell loses the boot thread. -/
theorem bootSequence_shell_lost :
    (run step (Scheduler.new { mem := fun _ => 0 }) bootSequence).preemptEnabled = true ∧
      ¬ContextKept (run step (Scheduler.new { mem := fun _ => 0 }) bootSequence) 0x180000 := by
  refine ⟨by decide, ?_⟩
  rintro (h | ⟨r, hr, -⟩)
  · exact absurd h (by decide)
  · have hq : ((run step (Scheduler.new { mem := fun _ => 0 }) bootSequence).preemptSchedule
        0x180000).1.readyQueue = [] := by decide
    rw [hq] at hr
    exact absurd hr List.not_mem_nil

end DeltaOS.SavedContexts
