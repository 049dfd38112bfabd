import Mathlib

namespace DeltaOS.Locks

variable {κ σ α β : Type}

/-- Code that works on a state, and takes and releases locks. -/
inductive Prog (κ σ α : Type)
  | done (a : α)
  | read (k : σ → Prog κ σ α)
  | act (f : σ → σ) (k : Prog κ σ α)
  | lock (l : κ) (k : Prog κ σ α)
  | unlock (l : κ) (k : Prog κ σ α)

namespace Prog

def bind : Prog κ σ α → (α → Prog κ σ β) → Prog κ σ β
  | done a, g => g a
  | read k, g => read fun s => (k s).bind g
  | act f k, g => act f (k.bind g)
  | lock l k, g => lock l (k.bind g)
  | unlock l k, g => unlock l (k.bind g)

instance : Monad (Prog κ σ) where
  pure := done
  bind := bind

def get : Prog κ σ σ := read done

def modify (f : σ → σ) : Prog κ σ Unit := act f (done ())

/-- Work under a lock that is released at its end. -/
def critical (l : κ) (f : σ → β × σ) : Prog κ σ β :=
  lock l (read fun s => act (fun _ => (f s).2) (unlock l (done (f s).1)))

def foldCritical (f : β → κ → σ → β) (b : β) : List κ → Prog κ σ β
  | [] => done b
  | l :: ls => (critical l fun s => (f b l s, s)).bind fun b => foldCritical f b ls

/-- A loop over locks that ends with the first one that passes a test, and then works under it. -/
def findCritical (test : σ → κ → Bool) (f : κ → σ → β × σ) : List κ → Prog κ σ (Option β)
  | [] => done none
  | l :: ls => (critical l fun s => if test s l then ((f l s).map some id) else (none, s)).bind fun
    | some b => done (some b)
    | none => findCritical test f ls

end Prog

open Prog

variable [DecidableEq κ]

/-- The code by itself: what it returns, the state after it and the locks that are held then. There is
no result if it waits for a lock that is held. -/
def exec : Prog κ σ α → σ → List κ → Option (α × σ × List κ)
  | .done a, s, held => some (a, s, held)
  | .read k, s, held => exec (k s) s held
  | .act f k, s, held => exec k (f s) held
  | .lock l k, s, held => if l ∈ held then none else exec k s (l :: held)
  | .unlock l k, s, held => if l ∈ held then exec k s (held.erase l) else none

/-- The states before, between and after its steps, with the locks that are held. -/
def points : Prog κ σ α → σ → List κ → List (σ × List κ)
  | .done _, s, held => [(s, held)]
  | .read k, s, held => points (k s) s held
  | .act f k, s, held => (s, held) :: points k (f s) held
  | .lock l k, s, held => (s, held) :: if l ∈ held then [] else points k s (l :: held)
  | .unlock l k, s, held => (s, held) :: if l ∈ held then points k s (held.erase l) else []

def requests : Prog κ σ α → σ → List κ → List κ
  | .done _, _, _ => []
  | .read k, s, held => requests (k s) s held
  | .act f k, s, held => requests k (f s) held
  | .lock l k, s, held => l :: if l ∈ held then [] else requests k s (l :: held)
  | .unlock l k, s, held => if l ∈ held then requests k s (held.erase l) else []

variable {p : Prog κ σ α} {g : α → Prog κ σ β} {s s' : σ} {held held' : List κ} {a : α} {b : β} {l : κ}

theorem exec_bind (p : Prog κ σ α) (g : α → Prog κ σ β) (s : σ) (held : List κ) :
    exec (p.bind g) s held = (exec p s held).bind fun r => exec (g r.1) r.2.1 r.2.2 := by
  induction p generalizing s held with
  | done a => rfl
  | read k ih => exact ih s s held
  | act f k ih => exact ih (f s) held
  | lock l k ih =>
    simp only [Prog.bind, exec]
    split_ifs
    · rfl
    · exact ih s _
  | unlock l k ih =>
    simp only [Prog.bind, exec]
    split_ifs
    · exact ih s _
    · rfl

theorem mem_points_bind {c : σ × List κ} :
    c ∈ points (p.bind g) s held → c ∈ points p s held ∨
      ∃ a s' held', exec p s held = some (a, s', held') ∧ c ∈ points (g a) s' held' := by
  induction p generalizing s held with
  | done a => exact fun h => .inr ⟨a, s, held, rfl, h⟩
  | read k ih => exact ih s
  | act f k ih =>
    simp only [Prog.bind, points, List.mem_cons, exec]
    rintro (rfl | h)
    · exact .inl (.inl rfl)
    · exact (ih h).imp_left .inr
  | lock l k ih =>
    simp only [Prog.bind, points, List.mem_cons, exec]
    rintro (rfl | h)
    · exact .inl (.inl rfl)
    · split_ifs at h ⊢
      · cases h
      · exact (ih h).imp_left .inr
  | unlock l k ih =>
    simp only [Prog.bind, points, List.mem_cons, exec]
    rintro (rfl | h)
    · exact .inl (.inl rfl)
    · split_ifs at h ⊢
      · exact (ih h).imp_left .inr
      · cases h

theorem requests_bind_of_exec (h : exec p s held = some (a, s', held')) :
    requests (p.bind g) s held = requests p s held ++ requests (g a) s' held' := by
  induction p generalizing s held with
  | done b =>
    cases h
    rfl
  | read k ih => exact ih s h
  | act f k ih => exact ih h
  | lock l k ih =>
    simp only [exec] at h
    split_ifs at h with hl
    simp only [Prog.bind, requests, if_neg hl, ih h, List.cons_append]
  | unlock l k ih =>
    simp only [exec] at h
    split_ifs at h with hl
    simp only [Prog.bind, requests, if_pos hl, ih h]

theorem exec_under (h : exec p s held = some (a, s', held')) (others : List κ) :
    exec p s (held ++ others) =
      if ∃ l ∈ requests p s held, l ∈ others then none else some (a, s', held' ++ others) := by
  induction p generalizing s held with
  | done b =>
    cases h
    simp [exec, requests]
  | read k ih => exact ih s h
  | act f k ih => exact ih h
  | lock l k ih =>
    simp only [exec] at h ⊢
    split_ifs at h with hl
    by_cases ho : l ∈ others
    · simp [ho, requests]
    · have hboth : l ∉ held ++ others := by simp [hl, ho]
      have hrest := ih h
      rw [List.cons_append] at hrest
      simp only [if_neg hboth, hrest, requests, if_neg hl, List.mem_cons, exists_eq_or_imp, ho, false_or]
  | unlock l k ih =>
    simp only [exec] at h ⊢
    split_ifs at h with hl
    have hboth : l ∈ held ++ others := List.mem_append_left _ hl
    simp only [if_pos hboth, List.erase_append_left _ hl, ih h, requests, if_pos hl]

/-- The code runs by itself to its end, with at most one lock held at any point and none at the end. -/
structure Does (p : Prog κ σ α) (s : σ) (a : α) (s' : σ) : Prop where
  exec : exec p s [] = some (a, s', [])
  single : ∀ c ∈ points p s [], c.2.length ≤ 1

theorem does_done (a : α) (s : σ) : Does (.done a : Prog κ σ α) s a s := by
  refine ⟨rfl, fun c hc => ?_⟩
  rw [List.mem_singleton.mp hc]
  exact Nat.zero_le 1

theorem does_pure (a : α) (s : σ) : Does (pure a : Prog κ σ α) s a s := does_done a s

theorem does_get (s : σ) : Does (Prog.get : Prog κ σ σ) s s s := ⟨rfl, (does_done s s).single⟩

theorem does_modify (f : σ → σ) (s : σ) : Does (Prog.modify f : Prog κ σ Unit) s () (f s) := by
  refine ⟨rfl, fun c hc => ?_⟩
  simp only [Prog.modify, points, List.mem_cons, List.not_mem_nil, or_false] at hc
  obtain rfl | rfl := hc <;> exact Nat.zero_le 1

theorem does_critical (l : κ) (f : σ → β × σ) (s : σ) : Does (critical l f) s (f s).1 (f s).2 := by
  constructor
  · simp [critical, exec]
  · intro c hc
    simp only [critical, points, List.not_mem_nil, if_false, List.mem_cons, or_false, if_true] at hc
    obtain rfl | rfl | rfl | rfl := hc <;> simp

theorem Does.bind (hp : Does p s a s') {s'' : σ} (hg : Does (g a) s' b s'') :
    Does (p.bind g) s b s'' := by
  constructor
  · rw [exec_bind, hp.exec]
    exact hg.exec
  · intro c hc
    obtain hc | ⟨a₁, s₁, held₁, hexec, hc⟩ := mem_points_bind hc
    · exact hp.single c hc
    · rw [hp.exec] at hexec
      cases hexec
      exact hg.single c hc

theorem Does.requests_bind (hp : Does p s a s') (g : α → Prog κ σ β) :
    requests (p >>= g) s [] = requests p s [] ++ requests (g a) s' [] := requests_bind_of_exec hp.exec

theorem does_foldCritical (f : β → κ → σ → β) (b : β) (ls : List κ) (s : σ) :
    Does (foldCritical f b ls) s (ls.foldl (fun b l => f b l s) b) s := by
  induction ls generalizing b with
  | nil => exact does_done b s
  | cons l ls ih => exact (does_critical l (fun s => (f b l s, s)) s).bind (ih (f b l s))

theorem does_findCritical (test : σ → κ → Bool) (f : κ → σ → β × σ) (ls : List κ) (s : σ) :
    Does (findCritical test f ls) s ((ls.find? (test s)).map fun l => (f l s).1)
      (((ls.find? (test s)).map fun l => (f l s).2).getD s) := by
  induction ls with
  | nil => exact does_done none s
  | cons l ls ih =>
    have hhead := does_critical l (fun s => if test s l then ((f l s).map some id) else (none, s)) s
    rw [findCritical, List.find?_cons]
    cases ht : test s l with
    | true =>
      simp only [ht, if_true, Prod.map_fst, Prod.map_snd, id] at hhead
      exact hhead.bind (does_done _ _)
    | false =>
      simp only [ht, Bool.false_eq_true, if_false] at hhead
      exact hhead.bind ih

theorem requests_pure (a : α) (s : σ) : requests (pure a : Prog κ σ α) s [] = [] := rfl

theorem requests_get (s : σ) : requests (Prog.get : Prog κ σ σ) s [] = [] := rfl

theorem requests_modify (f : σ → σ) (s : σ) : requests (Prog.modify f : Prog κ σ Unit) s [] = [] := rfl

theorem requests_critical (l : κ) (f : σ → β × σ) (s : σ) : requests (critical l f) s [] = [l] := by
  simp [critical, requests]

theorem requests_foldCritical (f : β → κ → σ → β) (b : β) (ls : List κ) (s : σ) :
    requests (foldCritical f b ls) s [] = ls := by
  induction ls generalizing b with
  | nil => rfl
  | cons l ls ih =>
    rw [foldCritical, requests_bind_of_exec (does_critical l (fun s => (f b l s, s)) s).exec,
      requests_critical, ih]
    rfl

theorem self_mem_points (p : Prog κ σ α) (s : σ) (held : List κ) : (s, held) ∈ points p s held := by
  induction p with
  | done => exact List.mem_singleton_self _
  | read k ih => exact ih s
  | act | lock | unlock => exact List.mem_cons_self

theorem mem_points_bind_left (g : α → Prog κ σ β) {c : σ × List κ} (h : c ∈ points p s held) :
    c ∈ points (p.bind g) s held := by
  induction p generalizing s held with
  | done a =>
    rw [List.mem_singleton.mp h]
    exact self_mem_points _ _ _
  | read k ih => exact ih s h
  | act f k ih =>
    obtain rfl | h := List.mem_cons.mp h
    · exact List.mem_cons_self
    · exact List.mem_cons_of_mem _ (ih h)
  | lock l k ih =>
    simp only [Prog.bind, points, List.mem_cons] at h ⊢
    refine h.imp_right fun h => ?_
    split_ifs at h ⊢
    · exact h
    · exact ih h
  | unlock l k ih =>
    simp only [Prog.bind, points, List.mem_cons] at h ⊢
    refine h.imp_right fun h => ?_
    split_ifs at h ⊢
    · exact ih h
    · exact h

theorem mem_points_bind_right {c : σ × List κ} (hexec : exec p s held = some (a, s', held'))
    (h : c ∈ points (g a) s' held') : c ∈ points (p.bind g) s held := by
  induction p generalizing s held with
  | done b =>
    cases hexec
    exact h
  | read k ih => exact ih s hexec
  | act f k ih => exact List.mem_cons_of_mem _ (ih hexec)
  | lock l k ih =>
    simp only [exec] at hexec
    split_ifs at hexec with hl
    simp only [Prog.bind, points, if_neg hl]
    exact List.mem_cons_of_mem _ (ih hexec)
  | unlock l k ih =>
    simp only [exec] at hexec
    split_ifs at hexec with hl
    simp only [Prog.bind, points, if_pos hl]
    exact List.mem_cons_of_mem _ (ih hexec)

theorem mem_points_foldCritical (f : β → κ → σ → β) (b : β) {ls : List κ} (h : l ∈ ls) (s : σ) :
    (s, [l]) ∈ points (foldCritical f b ls) s [] := by
  induction ls generalizing b with
  | nil => cases h
  | cons q ls ih =>
    obtain rfl | h := List.mem_cons.mp h
    · refine mem_points_bind_left _ ?_
      simp [critical, points]
    · exact mem_points_bind_right (does_critical q (fun s => (f b q s, s)) s).exec (ih _ h)

end DeltaOS.Locks
