import Mathlib

namespace DeltaOS.Cursor

open Relation

variable {ε α β : Type}

/-- The items a cursor takes on its way. A pass of the loop stops, or takes an item and moves on. -/
def collect (stuck : ε) (pass : Nat → Except ε (Option (α × Nat))) : Nat → Nat → Except ε (List α)
  | 0, _ => .error stuck
  | fuel + 1, pos => do
    match ← pass pos with
    | none => pure []
    | some (a, next) => do
      let rest ← collect stuck pass fuel next
      pure (a :: rest)

def Comes (next : Nat → Option Nat) : Nat → Nat → Prop := ReflTransGen fun p q => next p = some q

/-- A pass goes where `next` says, and fails exactly at the positions that are not fine. -/
structure Walks (stuck : ε) (pass : Nat → Except ε (Option (α × Nat))) (next : Nat → Option Nat)
    (Fine : Nat → Prop) (bound : Nat) : Prop where
  stops : ∀ {p}, Fine p → next p = none → pass p = .ok none
  moves : ∀ {p q}, Fine p → next p = some q → ∃ a, pass p = .ok (some (a, q))
  fails : ∀ {p}, ¬Fine p → ∃ e, e ≠ stuck ∧ pass p = .error e
  forward : ∀ {p q}, next p = some q → p < q ∧ q ≤ bound

variable {stuck : ε} {pass : Nat → Except ε (Option (α × Nat))} {next : Nat → Option Nat}
  {Fine : Nat → Prop} {bound fuel pos : Nat}

theorem collect_stop (h : pass pos = .ok none) : collect stuck pass (fuel + 1) pos = .ok [] := by
  rw [collect, h]
  rfl

theorem collect_fail {e : ε} (h : pass pos = .error e) :
    collect stuck pass (fuel + 1) pos = .error e := by
  rw [collect, h]
  rfl

theorem collect_move {a : α} {q : Nat} (h : pass pos = .ok (some (a, q))) :
    collect stuck pass (fuel + 1) pos = (a :: ·) <$> collect stuck pass fuel q := by
  rw [collect, h]
  rfl

theorem collect_eq_ok {l : List α} (h : collect stuck pass fuel pos = .ok l) :
    pass pos = .ok none ∧ l = [] ∨
      ∃ a q n rest, pass pos = .ok (some (a, q)) ∧ collect stuck pass n q = .ok rest ∧
        l = a :: rest := by
  cases fuel with
  | zero => cases h
  | succ fuel =>
    cases hpass : pass pos with
    | error e =>
      rw [collect_fail hpass] at h
      cases h
    | ok item =>
      cases item with
      | none =>
        rw [collect_stop hpass] at h
        exact .inl ⟨rfl, (Except.ok.inj h).symm⟩
      | some item =>
        obtain ⟨a, q⟩ := item
        rw [collect_move hpass] at h
        cases hrest : collect stuck pass fuel q with
        | error e =>
          rw [hrest] at h
          cases h
        | ok rest =>
          rw [hrest] at h
          exact .inr ⟨a, q, fuel, rest, rfl, hrest, (Except.ok.inj h).symm⟩

theorem comes_cases {p q : Nat} : Comes next p q ↔ p = q ∨ ∃ r, next p = some r ∧ Comes next r q := by
  rw [Comes, ReflTransGen.cases_head_iff]

theorem Walks.fuel_forward (w : Walks stuck pass next Fine bound) {q : Nat} (h : next pos = some q)
    (hfuel : bound - pos < fuel + 1) : bound - q < fuel := by
  have hq := w.forward h
  omega

theorem Walks.induction (w : Walks stuck pass next Fine bound) {motive : Nat → Except ε (List α) → Prop}
    (stop : ∀ p, Fine p → next p = none → motive p (.ok []))
    (move : ∀ p q a rest, Fine p → next p = some q → motive q rest → motive p ((a :: ·) <$> rest))
    (fail : ∀ p e, ¬Fine p → e ≠ stuck → motive p (.error e)) (hfuel : bound - pos < fuel) :
    motive pos (collect stuck pass fuel pos) := by
  induction fuel generalizing pos with
  | zero => exact absurd hfuel (Nat.not_lt_zero _)
  | succ fuel ih =>
    by_cases hfine : Fine pos
    · cases hnext : next pos with
      | none =>
        rw [collect_stop (w.stops hfine hnext)]
        exact stop pos hfine hnext
      | some q =>
        obtain ⟨a, ha⟩ := w.moves hfine hnext
        rw [collect_move ha]
        exact move pos q a _ hfine hnext (ih (w.fuel_forward hnext hfuel))
    · obtain ⟨e, he, hpass⟩ := w.fails hfine
      rw [collect_fail hpass]
      exact fail pos e hfine he

theorem Walks.collect_ne_stuck (w : Walks stuck pass next Fine bound) (hfuel : bound - pos < fuel) :
    collect stuck pass fuel pos ≠ .error stuck := by
  refine w.induction (motive := fun _ r => r ≠ .error stuck) ?_ ?_ ?_ hfuel
  · intro p hfine hnext h
    cases h
  · intro p q a rest hfine hnext hrest h
    cases rest with
    | ok l => cases h
    | error e => exact hrest (congrArg _ (Except.error.inj h))
  · intro p e hfine he h
    exact he (Except.error.inj h)

theorem exists_map_eq_ok_iff {a : α} {r : Except ε (List α)} :
    (∃ l, (a :: ·) <$> r = .ok l) ↔ ∃ l, r = .ok l := by
  cases r with
  | ok l => exact iff_of_true ⟨a :: l, rfl⟩ ⟨l, rfl⟩
  | error e =>
    constructor
    · rintro ⟨l, hl⟩
      cases hl
    · rintro ⟨l, hl⟩
      cases hl

theorem forall_comes_iff : (∀ q, Comes next pos q → Fine q) ↔
    Fine pos ∧ ∀ r, next pos = some r → ∀ q, Comes next r q → Fine q := by
  constructor
  · intro hall
    exact ⟨hall pos .refl, fun r hr q hq => hall q (comes_cases.mpr (.inr ⟨r, hr, hq⟩))⟩
  · rintro ⟨hfine, hrest⟩ q hq
    obtain rfl | ⟨r, hr, hq⟩ := comes_cases.mp hq
    · exact hfine
    · exact hrest r hr q hq

theorem Walks.collect_ok_iff (w : Walks stuck pass next Fine bound) (hfuel : bound - pos < fuel) :
    (∃ l, collect stuck pass fuel pos = .ok l) ↔ ∀ q, Comes next pos q → Fine q := by
  refine w.induction (motive := fun p r => (∃ l, r = .ok l) ↔ ∀ q, Comes next p q →
    Fine q) ?_ ?_ ?_ hfuel
  · intro p hfine hnext
    rw [forall_comes_iff, hnext]
    exact iff_of_true ⟨[], rfl⟩ ⟨hfine, fun r hr => by cases hr⟩
  · intro p q a rest hfine hnext hrest
    have hcomes : (∀ q, Comes next p q → Fine q) ↔ _ := forall_comes_iff
    rw [exists_map_eq_ok_iff, hrest, hcomes, hnext]
    exact ⟨fun hall => ⟨hfine, fun r hr => Option.some.inj hr ▸ hall⟩, fun hall => hall.2 q rfl⟩
  · intro p e hfine he
    rw [forall_comes_iff]
    refine iff_of_false ?_ fun hall => hfine hall.1
    rintro ⟨l, hl⟩
    cases hl

/-- The passes from `p` on give the values of `f` on a list, one after the other, and then stop. -/
inductive Chain (pass : Nat → Except ε (Option (α × Nat))) (f : β → Except ε α) : Nat → List β → Prop
  | stop {p : Nat} (h : pass p = .ok none) : Chain pass f p []
  | item {p q : Nat} {b : β} {bs : List β} (h : pass p = (fun a => some (a, q)) <$> f b)
      (rest : Chain pass f q bs) : Chain pass f p (b :: bs)

theorem Chain.collect_eq {f : β → Except ε α} {bs : List β} (h : Chain pass f pos bs)
    (hfuel : bs.length < fuel) : collect stuck pass fuel pos = bs.mapM f := by
  induction h generalizing fuel with
  | stop h =>
    obtain ⟨k, rfl⟩ := Nat.exists_eq_add_of_lt hfuel
    rw [collect_stop h]
    rfl
  | @item p q b bs h rest ih =>
    obtain ⟨k, rfl⟩ : ∃ k, fuel = k + 1 :=
      Nat.exists_eq_succ_of_ne_zero (Nat.ne_of_gt (Nat.zero_lt_of_lt hfuel))
    have hrest := ih (Nat.lt_of_succ_lt_succ hfuel)
    rw [List.mapM_cons]
    cases hf : f b with
    | ok a =>
      rw [hf] at h
      rw [collect_move h, hrest]
      rfl
    | error e =>
      rw [hf] at h
      rw [collect_fail h]
      rfl

end DeltaOS.Cursor
