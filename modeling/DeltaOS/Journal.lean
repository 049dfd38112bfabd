import DeltaOS.ByteSlices
import DeltaOS.Overflow
import DeltaOS.SlidingWindow

namespace DeltaOS.Journal

open ByteSlices Overflow SlidingWindow

inductive JournalOperation
  | fileCreate
  | fileDelete
  | fileWrite
  | fileRename
  | attributeChange
  | directoryCreate
  | checkpoint
deriving DecidableEq, Repr

structure JournalEntry where
  lsn : Nat
  operation : JournalOperation
  fileName : String
  data : List Byte
  timestamp : Nat
deriving DecidableEq, Repr

structure NtfsJournal where
  entries : List JournalEntry
  maxEntries : Nat
  currentLsn : Nat
deriving DecidableEq, Repr

namespace NtfsJournal

def new : NtfsJournal where
  entries := []
  maxEntries := 1024
  currentLsn := 0

def log (profile : Profile) (j : NtfsJournal) (operation : JournalOperation) (fileName : String)
    (data : List Byte) : Option NtfsJournal := do
  let entry : JournalEntry := { lsn := j.currentLsn, operation, fileName, data, timestamp := 0 }
  let currentLsn ← add profile j.currentLsn 1
  some { j with currentLsn, entries := push j.maxEntries j.entries entry }

def getEntries (j : NtfsJournal) : List JournalEntry := j.entries

def checkpoint (profile : Profile) (j : NtfsJournal) : Option NtfsJournal :=
  j.log profile .checkpoint "" []

end NtfsJournal

inductive Call
  | log (operation : JournalOperation) (fileName : String) (data : List Byte)
  | checkpoint

def step (profile : Profile) (j : NtfsJournal) : Call → Option NtfsJournal
  | .log operation fileName data => j.log profile operation fileName data
  | .checkpoint => j.checkpoint profile

def run (profile : Profile) (calls : List Call) : Option NtfsJournal := calls.foldlM (step profile) .new

def Call.record : Call → JournalOperation × String × List Byte
  | .log operation fileName data => (operation, fileName, data)
  | .checkpoint => (.checkpoint, "", [])

def JournalEntry.record (e : JournalEntry) : JournalOperation × String × List Byte :=
  (e.operation, e.fileName, e.data)

def Call.entry (c : Call) (lsn : Nat) : JournalEntry := ⟨lsn, c.record.1, c.record.2.1, c.record.2.2, 0⟩

def entriesOf (calls : List Call) : List JournalEntry :=
  calls.zipIdx.map fun p => p.1.entry (p.2 % usizeRange)

variable {profile : Profile} {calls : List Call}

theorem entriesOf_concat (calls : List Call) (c : Call) :
    entriesOf (calls ++ [c]) = entriesOf calls ++ [c.entry (calls.length % usizeRange)] := by
  rw [entriesOf, List.zipIdx_append, List.map_append, ← entriesOf, Nat.zero_add]
  rfl

theorem step_eq (profile : Profile) (j : NtfsJournal) (c : Call) : step profile j c =
    (add profile j.currentLsn 1).map fun currentLsn =>
      { j with currentLsn, entries := push j.maxEntries j.entries (c.entry j.currentLsn) } := by
  cases c with
  | log operation fileName data => rw [Option.map_eq_bind]; rfl
  | checkpoint => rw [Option.map_eq_bind]; rfl

theorem add_one_mod {n : Nat} (h : profile = .debug → n + 1 < usizeRange) :
    add profile (n % usizeRange) 1 = some ((n + 1) % usizeRange) := by
  cases profile with
  | release => rw [add, Nat.mod_add_mod]
  | debug =>
    have hlt := h rfl
    rw [Nat.mod_eq_of_lt (by omega), Nat.mod_eq_of_lt hlt, add_ok hlt]

theorem run_eq (h : profile = .debug → calls.length < usizeRange) :
    run profile calls = some ⟨window 1024 (entriesOf calls), 1024, calls.length % usizeRange⟩ := by
  induction calls using List.reverseRecOn with
  | nil => rfl
  | append_singleton calls c ih =>
    rw [List.length_append, List.length_singleton] at h ⊢
    have hrun := ih fun hdebug => Nat.lt_of_succ_lt (h hdebug)
    rw [run] at hrun ⊢
    rw [List.foldlM_append, hrun, entriesOf_concat, ← push_window (by decide)]
    simp only [Option.bind_eq_bind, Option.bind_some, List.foldlM_cons, List.foldlM_nil, step_eq,
      add_one_mod h, Option.map_some, Option.pure_def]

/-- The journal is what the last 1024 calls recorded, numbered up to the number of all of them. -/
structure Slides (calls : List Call) (j : NtfsJournal) : Prop where
  lsn : j.currentLsn = calls.length
  records : j.getEntries.map JournalEntry.record = window 1024 (calls.map Call.record)
  numbers : j.getEntries.map JournalEntry.lsn =
    List.range' (calls.length - min calls.length 1024) (min calls.length 1024)

theorem record_entriesOf (calls : List Call) :
    (entriesOf calls).map JournalEntry.record = calls.map Call.record := by
  have hrecord : JournalEntry.record ∘ (fun p : Call × Nat => p.1.entry (p.2 % usizeRange)) =
      Call.record ∘ Prod.fst :=
    rfl
  rw [entriesOf, List.map_map, hrecord, ← List.map_map, List.zipIdx_map_fst]

theorem lsn_entriesOf (h : calls.length ≤ usizeRange) :
    (entriesOf calls).map JournalEntry.lsn = List.range' 0 calls.length := by
  have hlsn : ∀ p ∈ calls.zipIdx,
      (JournalEntry.lsn ∘ fun p : Call × Nat => p.1.entry (p.2 % usizeRange)) p = p.2 := by
    intro p hp
    have hlt := List.snd_lt_of_mem_zipIdx hp
    exact Nat.mod_eq_of_lt (by omega)
  rw [entriesOf, List.map_map, List.map_congr_left hlsn, List.zipIdx_map_snd]

/-- Below the range of the counter the journal is a window on the calls. -/
theorem journal_slides (profile : Profile) (calls : List Call) (h : calls.length < 2 ^ 64) :
    ∃ j, run profile calls = some j ∧ Slides calls j := by
  refine ⟨_, run_eq fun _ => h, ?_⟩
  constructor
  · exact Nat.mod_eq_of_lt h
  · rw [NtfsJournal.getEntries, map_window, record_entriesOf]
  · have hfirst : 0 + (calls.length - 1024) * 1 = calls.length - min calls.length 1024 := by omega
    have hcount : calls.length - (calls.length - 1024) = min calls.length 1024 := by omega
    rw [NtfsJournal.getEntries, map_window, lsn_entriesOf h.le, window, List.length_range',
      List.drop_range', hfirst, hcount]

def createThenCheckpoint : List Call := [.log .fileCreate "a" [1, 2], .checkpoint]

theorem createThenCheckpoint_slides : createThenCheckpoint.length < 2 ^ 64 ∧
    ∃ j, run .debug createThenCheckpoint = some j ∧ Slides createThenCheckpoint j :=
  ⟨by decide, journal_slides .debug createThenCheckpoint (by decide)⟩

/-- After as many calls as the counter has values it is back at zero. -/
theorem fullRound_not_slides : ∃ j, run .release (List.replicate (2 ^ 64) .checkpoint) = some j ∧
    ¬Slides (List.replicate (2 ^ 64) .checkpoint) j := by
  refine ⟨_, run_eq nofun, ?_⟩
  intro h
  have hlsn := h.lsn
  rw [List.length_replicate] at hlsn
  exact absurd hlsn (by decide)

end DeltaOS.Journal
