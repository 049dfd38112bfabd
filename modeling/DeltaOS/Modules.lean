import DeltaOS.Kernel
import DeltaOS.Runs

namespace DeltaOS.Modules

open Kernel Runs

inductive ModuleState where
  | loaded
  | running
  | stopped
  | error
  deriving DecidableEq, Repr

inductive ModuleType where
  | driver
  | fileSystem
  | network
  | extension
  | unknown
  deriving DecidableEq, Repr

structure ModuleInfo where
  id : Word
  name : String
  version : Nat × Nat × Nat
  moduleType : ModuleType
  state : ModuleState
  dependencies : List String
  size : Nat
  initAddr : Nat
  cleanupAddr : Nat
  deriving DecidableEq, Repr

/-- The entries of the map of modules, and `NEXT_MODULE_ID`. No modelled function depends on their
order. -/
structure ModuleManager where
  modules : List (Word × ModuleInfo)
  nextModuleId : Word
  distinct : (modules.map Prod.fst).Nodup

def newModule (id : Word) (name : String) : ModuleInfo where
  id := id
  name := name
  version := (0, 1, 0)
  moduleType := .driver
  state := .loaded
  dependencies := []
  size := 0
  initAddr := 0
  cleanupAddr := 0

namespace ModuleManager

variable (m : ModuleManager)

def get (moduleId : Word) : Option ModuleInfo := (m.modules.find? fun e => e.1 = moduleId).map Prod.snd

def remove (moduleId : Word) : ModuleManager where
  modules := m.modules.filter fun e => e.1 ≠ moduleId
  nextModuleId := m.nextModuleId
  distinct := m.distinct.sublist (List.filter_sublist.map _)

/-- `fetch_add` wraps around, and `insert` replaces what has the key. -/
def insertNew (name : String) : ModuleManager where
  modules := (m.nextModuleId, newModule m.nextModuleId name) :: (m.remove m.nextModuleId).modules
  nextModuleId := m.nextModuleId + 1
  distinct := by
    rw [List.map_cons, List.nodup_cons]
    refine ⟨fun hmem => ?_, (m.remove m.nextModuleId).distinct⟩
    obtain ⟨e, he, hkey⟩ := List.mem_map.mp hmem
    exact of_decide_eq_true (List.mem_filter.mp he).2 hkey

def setState (moduleId : Word) (state : ModuleState) : ModuleManager where
  modules := m.modules.map fun e => if e.1 = moduleId then (e.1, { e.2 with state := state }) else e
  nextModuleId := m.nextModuleId
  distinct := by
    have hkeys : (m.modules.map fun e => if e.1 = moduleId then (e.1, { e.2 with state := state })
      else e).map Prod.fst =
        m.modules.map Prod.fst := by
      rw [List.map_map]
      apply List.map_congr_left
      intro e _
      dsimp only [Function.comp]
      split <;> rfl
    rw [hkeys]
    exact m.distinct

def isRunning (name : String) : Bool := m.modules.any fun e => e.2.name = name ∧ e.2.state = .running

def loadModule (name : String) : KernelResult Word × ModuleManager :=
  if m.modules.any fun e => e.2.name = name then (.error .pageAlreadyMapped, m)
  else (.ok m.nextModuleId, m.insertNew name)

/-- `initFn` is what the code at an address returns. -/
def initModule (moduleId : Word) (initFn : Nat → Int) : KernelResult Unit × ModuleManager :=
  match m.get moduleId with
  | none => (.error .moduleNotFound, m)
  | some info =>
    if info.state ≠ .loaded then (.error .invalidArgument, m)
    else if info.dependencies.any fun dep => !m.isRunning dep then (.error .moduleNotFound, m)
    else if info.initAddr ≠ 0 ∧ initFn info.initAddr ≠ 0
      then (.error .generalFault, m.setState moduleId .error)
    else (.ok (), m.setState moduleId .running)

def unloadModule (moduleId : Word) : KernelResult Unit × ModuleManager :=
  match m.get moduleId with
  | none => (.error .moduleNotFound, m)
  | some info =>
    if info.state ≠ .running ∧ info.state ≠ .stopped then (.error .invalidArgument, m)
    else (.ok (), m.remove moduleId)

end ModuleManager

inductive Op
  | loadModule (name : String)
  | initModule (moduleId : Word) (initFn : Nat → Int)
  | unloadModule (moduleId : Word)

def step (m : ModuleManager) : Op → ModuleManager
  | .loadModule name => (m.loadModule name).2
  | .initModule moduleId initFn => (m.initModule moduleId initFn).2
  | .unloadModule moduleId => (m.unloadModule moduleId).2

/-- Every dependency of a running module is the name of a running module, and names are distinct. -/
structure Coherent (m : ModuleManager) : Prop where
  closed : ∀ e ∈ m.modules, e.2.state = .running → ∀ dep ∈ e.2.dependencies, m.isRunning dep = true
  names : (m.modules.map fun e => e.2.name).Nodup

/-- No other running module depends on the module with this number, if that one is running. -/
def Free (m : ModuleManager) (moduleId : Word) : Prop :=
  ∀ e ∈ m.modules, e.1 = moduleId → e.2.state = .running →
    ∀ a ∈ m.modules, a.1 ≠ moduleId → a.2.state = .running → e.2.name ∉ a.2.dependencies

/-- The call does not take away a module that is needed. A new module takes the place of the one that
has its number. -/
def Unneeded (m : ModuleManager) : Op → Prop
  | .loadModule name => (∀ e ∈ m.modules, e.2.name ≠ name) → Free m m.nextModuleId
  | .initModule _ _ => True
  | .unloadModule moduleId => Free m moduleId

variable {m : ModuleManager} {moduleId : Word} {info : ModuleInfo} {name : String}
    {e a : Word × ModuleInfo}

theorem mem_of_get (h : m.get moduleId = some info) : (moduleId, info) ∈ m.modules := by
  obtain ⟨e, hfind, rfl⟩ := Option.map_eq_some_iff.mp h
  have hkey : e.1 = moduleId := by simpa using List.find?_some hfind
  rw [← hkey]
  exact List.mem_of_find?_eq_some hfind

theorem eq_of_key (he : e ∈ m.modules) (ha : a ∈ m.modules) (h : e.1 = a.1) : e = a := by
  exact List.inj_on_of_nodup_map m.distinct he ha h

theorem Coherent.eq_of_name (hm : Coherent m) (he : e ∈ m.modules) (ha : a ∈ m.modules)
    (h : e.2.name = a.2.name) : e = a :=
  List.inj_on_of_nodup_map hm.names he ha h

theorem isRunning_iff :
    m.isRunning name = true ↔ ∃ e ∈ m.modules, e.2.name = name ∧ e.2.state = .running := by
  simp [ModuleManager.isRunning]

theorem names_setState (m : ModuleManager) (moduleId : Word) (state : ModuleState) :
    ((m.setState moduleId state).modules.map fun e => e.2.name) = m.modules.map fun e => e.2.name := by
  rw [ModuleManager.setState, List.map_map]
  apply List.map_congr_left
  intro e _
  dsimp only [Function.comp]
  split <;> rfl

theorem Coherent.fail (hm : Coherent m) (hget : m.get moduleId = some info)
    (hstate : info.state = .loaded) : Coherent (m.setState moduleId .error) := by
  refine ⟨?_, by rw [names_setState]; exact hm.names⟩
  intro e he hrun dep hdep
  obtain ⟨a, ha, rfl⟩ := List.mem_map.mp he
  split_ifs at hrun hdep with hkey
  obtain ⟨b, hb, hname, hbrun⟩ := isRunning_iff.mp (hm.closed a ha hrun dep hdep)
  have hother : b.1 ≠ moduleId := by
    intro hbkey
    rw [eq_of_key hb (mem_of_get hget) hbkey, hstate] at hbrun
    cases hbrun
  exact isRunning_iff.mpr ⟨b, List.mem_map.mpr ⟨b, hb, if_neg hother⟩, hname, hbrun⟩

theorem Coherent.start (hm : Coherent m) (hget : m.get moduleId = some info)
    (hdeps : ∀ dep ∈ info.dependencies, m.isRunning dep = true) :
    Coherent (m.setState moduleId .running) := by
  have hkeeps (dep : String) (h : m.isRunning dep = true) :
      (m.setState moduleId .running).isRunning dep = true := by
    obtain ⟨b, hb, hname, hrun⟩ := isRunning_iff.mp h
    refine isRunning_iff.mpr ⟨_, List.mem_map.mpr ⟨b, hb, rfl⟩, ?_⟩
    split
    · exact ⟨hname, rfl⟩
    · exact ⟨hname, hrun⟩
  refine ⟨?_, by rw [names_setState]; exact hm.names⟩
  intro e he hrun dep hdep
  obtain ⟨a, ha, rfl⟩ := List.mem_map.mp he
  apply hkeeps
  split_ifs at hrun hdep with hkey
  · rw [eq_of_key ha (mem_of_get hget) hkey] at hdep
    exact hdeps dep hdep
  · exact hm.closed a ha hrun dep hdep

theorem Coherent.remove_iff (hm : Coherent m) : Coherent (m.remove moduleId) ↔ Free m moduleId := by
  have hmem {e : Word × ModuleInfo} :
      e ∈ (m.remove moduleId).modules ↔ e ∈ m.modules ∧ e.1 ≠ moduleId := by
    simp [ModuleManager.remove]
  constructor
  · intro h e he hkey hrun a ha hother harun hdep
    obtain ⟨b, hb, hname, -⟩ := isRunning_iff.mp (h.closed a (hmem.mpr ⟨ha, hother⟩) harun _ hdep)
    obtain ⟨hb, hbkey⟩ := hmem.mp hb
    rw [hm.eq_of_name hb he hname] at hbkey
    exact hbkey hkey
  · intro h
    refine ⟨?_, hm.names.sublist (List.filter_sublist.map _)⟩
    intro a ha harun dep hdep
    obtain ⟨ha, hother⟩ := hmem.mp ha
    obtain ⟨b, hb, rfl, hbrun⟩ := isRunning_iff.mp (hm.closed a ha harun dep hdep)
    refine isRunning_iff.mpr ⟨b, hmem.mpr ⟨hb, fun hkey => ?_⟩, rfl, hbrun⟩
    exact h b hb hkey hbrun a ha hother harun hdep

theorem insertNew_iff (hname : ∀ e ∈ m.modules, e.2.name ≠ name) :
    Coherent (m.insertNew name) ↔ Coherent (m.remove m.nextModuleId) := by
  have hrunning (dep : String) :
      (m.insertNew name).isRunning dep = (m.remove m.nextModuleId).isRunning dep := by
    simp [ModuleManager.isRunning, ModuleManager.insertNew, newModule]
  have hnew : name ∉ (m.remove m.nextModuleId).modules.map fun e => e.2.name := by
    intro hmem
    obtain ⟨e, he, heq⟩ := List.mem_map.mp hmem
    exact hname e (List.mem_of_mem_filter he) heq
  constructor
  · intro h
    refine ⟨fun e he hrun dep hdep => ?_, (List.nodup_cons.mp h.names).2⟩
    rw [← hrunning]
    exact h.closed e (List.mem_cons_of_mem _ he) hrun dep hdep
  · intro h
    refine ⟨fun e he hrun dep hdep => ?_, List.nodup_cons.mpr ⟨hnew, h.names⟩⟩
    rw [hrunning]
    obtain rfl | he := List.mem_cons.mp he
    · cases hrun
    · exact h.closed e he hrun dep hdep

theorem Coherent.loadModule_iff (hm : Coherent m) (name : String) :
    Coherent (m.loadModule name).2 ↔ Unneeded m (.loadModule name) := by
  rw [ModuleManager.loadModule]
  split_ifs with hany
  · refine iff_of_true hm fun hname => ?_
    obtain ⟨e, he, heq⟩ := List.any_eq_true.mp hany
    exact absurd (of_decide_eq_true heq) (hname e he)
  · have hname : ∀ e ∈ m.modules, e.2.name ≠ name := fun e he heq =>
      hany (List.any_eq_true.mpr ⟨e, he, decide_eq_true heq⟩)
    exact (insertNew_iff hname).trans (hm.remove_iff.trans ⟨fun h _ => h, fun h => h hname⟩)

theorem Coherent.initModule (hm : Coherent m) (moduleId : Word) (initFn : Nat → Int) :
    Coherent (m.initModule moduleId initFn).2 := by
  rw [ModuleManager.initModule]
  cases hget : m.get moduleId with
  | none => exact hm
  | some info =>
    dsimp only
    split_ifs with hstate hdeps hfail
    · exact hm
    · exact hm
    · exact hm.fail hget (not_not.mp hstate)
    · refine hm.start hget fun dep hdep => ?_
      simpa using fun hfalse => hdeps (List.any_eq_true.mpr ⟨dep, hdep, hfalse⟩)

theorem Coherent.unloadModule_iff (hm : Coherent m) (moduleId : Word) :
    Coherent (m.unloadModule moduleId).2 ↔ Unneeded m (.unloadModule moduleId) := by
  have hunchanged (hidle : ∀ e ∈ m.modules, e.1 = moduleId → e.2.state ≠ .running) :
      Coherent m ↔ Unneeded m (.unloadModule moduleId) :=
    iff_of_true hm fun e he hkey hrun => absurd hrun (hidle e he hkey)
  rw [ModuleManager.unloadModule]
  cases hget : m.get moduleId with
  | none =>
    apply hunchanged
    intro e he hkey
    have hnone := List.find?_eq_none.mp (Option.map_eq_none_iff.mp hget) e he
    exact absurd (decide_eq_true hkey) hnone
  | some info =>
    dsimp only
    split_ifs with hstate
    · apply hunchanged
      intro e he hkey
      rw [eq_of_key he (mem_of_get hget) hkey]
      exact hstate.1
    · exact hm.remove_iff

theorem Coherent.step_iff (hm : Coherent m) (op : Op) : Coherent (step m op) ↔ Unneeded m op := by
  cases op with
  | loadModule name => exact hm.loadModule_iff name
  | initModule moduleId initFn => exact iff_of_true (hm.initModule moduleId initFn) trivial
  | unloadModule moduleId => exact hm.unloadModule_iff moduleId

/-- `init_module` keeps a coherent set of modules coherent; `unload_module` and `load_module` do
exactly when no other module needs the one they take away. So does a run of them. -/
theorem modules_coherent_iff (m : ModuleManager) (hm : Coherent m) :
    (∀ op, Coherent (step m op) ↔ Unneeded m op) ∧
      ∀ ops, Always step Coherent m ops ↔ Guarded step Unneeded m ops := by
  refine ⟨hm.step_iff, fun ops => ?_⟩
  apply always_iff_guarded (I := Coherent) (fun m h => h)
  · exact fun m op h hop => (h.step_iff op).mpr hop
  · exact fun m op h hnext => (h.step_iff op).mp hnext
  · exact hm

/-- Two running modules, of which the second depends on the first. -/
def coreAndNet : ModuleManager where
  modules := [(1, { newModule 1 "core" with state := .running }),
    (2, { newModule 2 "net" with state := .running, dependencies := ["core"] })]
  nextModuleId := 3
  distinct := by decide

theorem coreAndNet_coherent : Coherent coreAndNet := ⟨by decide, by decide⟩

theorem unloadNet_coherent : Coherent (step coreAndNet (.unloadModule 2)) :=
  ((modules_coherent_iff coreAndNet coreAndNet_coherent).1 (.unloadModule 2)).mpr
    (by unfold Unneeded Free; decide)

/-- The first is unloaded; and once the numbers have wrapped around, a third takes its place. -/
theorem unloadCore_dangles : Coherent coreAndNet ∧ (coreAndNet.unloadModule 1).1 = .ok () ∧
    ¬Coherent (step coreAndNet (.unloadModule 1)) ∧
    ¬Coherent (step { coreAndNet with nextModuleId := 1 } (.loadModule "disk")) := by
  refine ⟨coreAndNet_coherent, rfl, fun h => ?_, fun h => ?_⟩
  · have hclosed := h.closed
    revert hclosed
    decide
  · have hclosed := h.closed
    revert hclosed
    decide

end DeltaOS.Modules
