import Mathlib

namespace DeltaOS.Traces

open Relation

/-- A computation that leaves a trace of events and may stop without a value; what it left before it
stopped remains. -/
structure Traced (ε α : Type) where
  events : List ε
  value : Option α

variable {ε α β σ : Type}

instance : Monad (Traced ε) where
  pure a := ⟨[], some a⟩
  bind x f :=
    match x.value with
    | none => ⟨x.events, none⟩
    | some a => ⟨x.events ++ (f a).events, (f a).value⟩

def emit (e : ε) (a : α) : Traced ε α := ⟨[e], some a⟩

def ofOption (o : Option α) : Traced ε α := ⟨[], o⟩

def loop (pass : σ → Traced ε (σ ⊕ α)) : Nat → σ → Traced ε α
  | 0, _ => ⟨[], none⟩
  | fuel + 1, s => do
    match ← pass s with
    | .inl s => loop pass fuel s
    | .inr a => pure a

def Comes (pass : σ → Traced ε (σ ⊕ α)) : σ → σ → Prop :=
  ReflTransGen fun s s' => (pass s).value = some (.inl s')

/-- All events of the trace satisfy `P`. -/
def Only (P : ε → Prop) (x : Traced ε α) : Prop := ∀ e ∈ x.events, P e

variable {P : ε → Prop} {x : Traced ε α} {f : α → Traced ε β} {e : ε} {a : α}

@[simp] theorem value_pure : (pure a : Traced ε α).value = some a := rfl

@[simp] theorem value_emit : (emit e a).value = some a := rfl

@[simp] theorem value_ofOption {o : Option α} : (ofOption o : Traced ε α).value = o := rfl

@[simp] theorem value_bind : (x >>= f).value = x.value.bind fun a => (f a).value := by
  obtain ⟨events, value⟩ := x
  cases value <;> rfl

instance : LawfulMonad (Traced ε) := by
  refine LawfulMonad.mk' (Traced ε) ?_ ?_ ?_
  · rintro _ ⟨events, value⟩
    cases value <;> simp [Functor.map]
  · intro _ _ a f
    simp [bind, pure]
  · rintro _ _ _ ⟨events, value⟩ f g
    cases value with
    | none => rfl
    | some a => cases h : (f a).value <;> simp [bind, h]

theorem emit_bind {f : α → Traced ε β} : emit e a >>= f = ⟨e :: (f a).events, (f a).value⟩ := rfl

theorem events_bind_none (h : x.value = none) : (x >>= f).events = x.events := by
  obtain ⟨events, value⟩ := x
  cases h
  rfl

theorem events_bind_some (h : x.value = some a) : (x >>= f).events = x.events ++ (f a).events := by
  obtain ⟨events, value⟩ := x
  cases h
  rfl

@[simp] theorem only_pure : Only P (pure a : Traced ε α) := List.forall_mem_nil P

@[simp] theorem only_ofOption {o : Option α} : Only P (ofOption o : Traced ε α) := List.forall_mem_nil P

@[simp] theorem only_emit : Only P (emit e a) ↔ P e := List.forall_mem_singleton

@[simp] theorem only_bind : Only P (x >>= f) ↔ Only P x ∧ ∀ a, x.value = some a → Only P (f a) := by
  cases h : x.value with
  | none => simp [Only, events_bind_none h]
  | some a =>
    rw [Only, events_bind_some h, List.forall_mem_append]
    simp [Only]

@[simp] theorem value_map (g : α → β) : (g <$> x).value = x.value.map g := by
  rw [map_eq_pure_bind, value_bind]
  cases x.value <;> rfl

theorem events_map (g : α → β) : (g <$> x).events = x.events := by
  rw [map_eq_pure_bind]
  cases h : x.value with
  | none => exact events_bind_none h
  | some a => exact (events_bind_some h).trans (List.append_nil _)

@[simp] theorem only_map (g : α → β) : Only P (g <$> x) ↔ Only P x := by
  rw [map_eq_pure_bind, only_bind]
  exact and_iff_left fun a _ => only_pure

theorem comes_cases {pass : σ → Traced ε (σ ⊕ α)} {s t : σ} :
    Comes pass s t ↔ s = t ∨ ∃ r, (pass s).value = some (.inl r) ∧ Comes pass r t := by
  rw [Comes, ReflTransGen.cases_head_iff]

theorem only_loop {pass : σ → Traced ε (σ ⊕ α)} {left : σ → Nat}
    (hleft : ∀ {s s'}, (pass s).value = some (.inl s') → left s' < left s) {fuel : Nat} {s : σ}
    (hfuel : left s < fuel) : Only P (loop pass fuel s) ↔ ∀ t, Comes pass s t → Only P (pass t) := by
  induction fuel generalizing s with
  | zero => exact absurd hfuel (Nat.not_lt_zero _)
  | succ fuel ih =>
    rw [loop, only_bind]
    constructor
    · rintro ⟨hhere, hrest⟩ t ht
      obtain rfl | ⟨r, hr, ht⟩ := comes_cases.mp ht
      · exact hhere
      · exact (ih (Nat.lt_of_lt_of_le (hleft hr) (Nat.le_of_lt_succ hfuel))).mp (hrest _ hr) t ht
    · intro h
      refine ⟨h s .refl, fun next hnext => ?_⟩
      cases next with
      | inl r =>
        apply (ih (Nat.lt_of_lt_of_le (hleft hnext) (Nat.le_of_lt_succ hfuel))).mpr
        intro t ht
        exact h t (comes_cases.mpr (.inr ⟨r, hnext, ht⟩))
      | inr a => exact only_pure

theorem only_foldlM {step : σ → Nat → Traced ε σ} {s : σ} {n : Nat} :
    Only P ((List.range n).foldlM step s) ↔
      ∀ i < n, ∀ t, ((List.range i).foldlM step s).value = some t → Only P (step t i) := by
  induction n with
  | zero => simp
  | succ n ih =>
    rw [List.range_succ, List.foldlM_append, only_bind, ih]
    constructor
    · rintro ⟨hbefore, hlast⟩ i hi t ht
      obtain rfl | hi := Nat.eq_or_lt_of_le (Nat.le_of_lt_succ hi)
      · simpa using hlast t ht
      · exact hbefore i hi t ht
    · intro h
      refine ⟨fun i hi => h i (Nat.lt_succ_of_lt hi), fun t ht => ?_⟩
      simpa using h n n.lt_succ_self t ht

theorem countP_foldlM {step : σ → Nat → Traced ε σ} {s t : σ} {p : ε → Bool}
    (h : ∀ {s i t}, (step s i).value = some t → (step s i).events.countP p = 1) {is : List Nat}
    (ht : (is.foldlM step s).value = some t) : (is.foldlM step s).events.countP p = is.length := by
  induction is generalizing s with
  | nil => rfl
  | cons i is ih =>
    rw [List.foldlM_cons] at ht ⊢
    rw [value_bind, Option.bind_eq_some_iff] at ht
    obtain ⟨r, hr, ht⟩ := ht
    rw [events_bind_some hr, List.countP_append, h hr, ih ht, List.length_cons, Nat.add_comm]

theorem isSome_bind (hx : x.value.isSome) (hf : ∀ a, (f a).value.isSome) : (x >>= f).value.isSome := by
  obtain ⟨a, ha⟩ := Option.isSome_iff_exists.mp hx
  rw [value_bind, ha]
  exact hf a

theorem isSome_foldlM {ι : Type} {step : σ → ι → Traced ε σ}
    (h : ∀ s i, (step s i).value.isSome) (is : List ι) (s : σ) : (is.foldlM step s).value.isSome := by
  induction is generalizing s with
  | nil => rfl
  | cons i is ih => exact isSome_bind (h s i) ih

theorem isSome_loop {pass : σ → Traced ε (σ ⊕ α)} {left : σ → Nat}
    (hleft : ∀ {s s'}, (pass s).value = some (.inl s') → left s' < left s)
    (hpass : ∀ s, (pass s).value.isSome)
    {fuel : Nat} {s : σ} (hfuel : left s < fuel) : (loop pass fuel s).value.isSome := by
  induction fuel generalizing s with
  | zero => exact absurd hfuel (Nat.not_lt_zero _)
  | succ fuel ih =>
    obtain ⟨next, hnext⟩ := Option.isSome_iff_exists.mp (hpass s)
    rw [loop, value_bind, hnext, Option.bind_some]
    cases next with
    | inl s' => exact ih (Nat.lt_of_lt_of_le (hleft hnext) (Nat.le_of_lt_succ hfuel))
    | inr a => rfl

end DeltaOS.Traces
