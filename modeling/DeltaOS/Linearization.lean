import DeltaOS.Runs

namespace DeltaOS.Linearization

open Runs

variable {σ ι α κ ρ : Type*}

def history (step : σ → ι → σ) (commit : σ → ι → Option κ) : σ → List ι → List κ
  | _, [] => []
  | s, i :: is => (commit s i).toList ++ history step commit (step s i) is

/-- The operations one after the other, each at once, with what they return. -/
def replay (atomic : α → κ → Option ρ × α) : α → List κ → List ρ × α
  | a, [] => ([], a)
  | a, k :: ks =>
    let r := replay atomic (atomic a k).2 ks
    ((atomic a k).1.toList ++ r.1, r.2)

/-- A step that takes effect is one operation of the object behind the state, and the other steps do
not touch it. What the operations return is known when they take effect. -/
structure Linearizes (step : σ → ι → σ) (commit : σ → ι → Option κ)
    (atomic : α → κ → Option ρ × α) (abs : σ → α) (outcomes : σ → List ρ) (I : σ → Prop) : Prop where
  keeps : ∀ s i, I s → I (step s i)
  quiet : ∀ s i, I s → commit s i = none → abs (step s i) = abs s ∧ outcomes (step s i) = outcomes s
  commits : ∀ s i k, I s → commit s i = some k → abs (step s i) = (atomic (abs s) k).2 ∧
    outcomes (step s i) = outcomes s ++ (atomic (abs s) k).1.toList

variable {step : σ → ι → σ} {commit : σ → ι → Option κ} {atomic : α → κ → Option ρ × α} {abs : σ → α}
  {outcomes : σ → List ρ} {I : σ → Prop} {s : σ}

theorem history_quiet {i : ι} (h : commit s i = none) (is : List ι) :
    history step commit s (i :: is) = history step commit (step s i) is := by
  rw [history, h]
  rfl

theorem history_commit {i : ι} {k : κ} (h : commit s i = some k) (is : List ι) :
    history step commit s (i :: is) = k :: history step commit (step s i) is := by
  rw [history, h]
  rfl

theorem Linearizes.run_eq (h : Linearizes step commit atomic abs outcomes I) (hs : I s) (is : List ι) :
    outcomes (run step s is) = outcomes s ++ (replay atomic (abs s) (history step commit s is)).1 ∧
      abs (run step s is) = (replay atomic (abs s) (history step commit s is)).2 := by
  induction is generalizing s with
  | nil => exact ⟨(List.append_nil _).symm, rfl⟩
  | cons i is ih =>
    obtain ⟨hout, habs⟩ := ih (h.keeps s i hs)
    rw [run_cons, hout, habs]
    cases hc : commit s i with
    | none =>
      obtain ⟨habs₁, hout₁⟩ := h.quiet s i hs hc
      rw [history_quiet hc, habs₁, hout₁]
      exact ⟨rfl, rfl⟩
    | some k =>
      obtain ⟨habs₁, hout₁⟩ := h.commits s i k hs hc
      rw [history_commit hc, habs₁, hout₁, replay, List.append_assoc]
      exact ⟨rfl, rfl⟩

end DeltaOS.Linearization
