import Mathlib

namespace DeltaOS.Interleaving

variable {σ α ι ρ : Type}

/-- The calls of a run with their replies, if all of them return. -/
def trace (step : σ → ι → Option (ρ × σ)) : σ → List ι → Option (List (ι × ρ) × σ)
  | s, [] => some ([], s)
  | s, c :: cs => do
    let (r, s) ← step s c
    let (t, s) ← trace step s cs
    some ((c, r) :: t, s)

variable {step : σ → ι → Option (ρ × σ)} {alone : α → ι → Option (ρ × α)} {view : σ → α}
    {own : ι × ρ → Prop}
  {s s' : σ} {c : ι} {cs : List ι} {t : List (ι × ρ)}

theorem trace_nil (h : trace step s [] = some (t, s')) : t = [] ∧ s' = s := by
  cases h
  exact ⟨rfl, rfl⟩

theorem trace_cons (h : trace step s (c :: cs) = some (t, s')) :
    ∃ r s₁ t', step s c = some (r, s₁) ∧ trace step s₁ cs = some (t', s') ∧ t = (c, r) :: t' := by
  rw [trace] at h
  obtain ⟨⟨r, s₁⟩, hstep, h⟩ := Option.bind_eq_some_iff.mp h
  obtain ⟨⟨t', s₂⟩, htrace, heq⟩ := Option.bind_eq_some_iff.mp h
  cases heq
  exact ⟨r, s₁, t', hstep, htrace, rfl⟩

theorem trace_cons_eq {r : ρ} {s₁ : σ} (hstep : step s c = some (r, s₁))
    (htrace : trace step s₁ cs = some (t, s')) : trace step s (c :: cs) = some ((c, r) :: t, s') := by
  simp only [trace, hstep, htrace, Option.bind_eq_bind, Option.bind_some]

/-- A part of the state that changes with its own calls only, and with them as it would alone. -/
structure Separate (step : σ → ι → Option (ρ × σ)) (alone : α → ι → Option (ρ × α)) (view : σ → α)
    (own : ι × ρ → Prop) : Prop where
  own_call : ∀ {s s' c r}, step s c = some (r, s') → own (c, r) → alone (view s) c = some (r, view s')
  other_call : ∀ {s s' c r}, step s c = some (r, s') → ¬own (c, r) → view s' = view s

namespace Separate

variable [DecidablePred own]

theorem trace_own (h : Separate step alone view own) (htrace : trace step s cs = some (t, s')) :
    trace alone (view s) ((t.filter own).map Prod.fst) = some (t.filter own, view s') := by
  induction cs generalizing s t with
  | nil =>
    obtain ⟨rfl, rfl⟩ := trace_nil htrace
    rfl
  | cons c cs ih =>
    obtain ⟨r, s₁, t', hstep, hrest, rfl⟩ := trace_cons htrace
    rw [List.filter_cons]
    by_cases hown : own (c, r)
    · rw [if_pos (decide_eq_true hown), List.map_cons]
      exact trace_cons_eq (h.own_call hstep hown) (ih hrest)
    · rw [if_neg (by simpa using hown), ← h.other_call hstep hown]
      exact ih hrest

theorem own_congr (h : Separate step alone view own) {s₁ s₁' s₂ s₂' : σ} {cs₁ cs₂ : List ι}
    {t₁ t₂ : List (ι × ρ)}
    (h₁ : trace step s₁ cs₁ = some (t₁, s₁')) (h₂ : trace step s₂ cs₂ = some (t₂, s₂'))
    (hview : view s₁ = view s₂)
    (hcalls : (t₁.filter own).map Prod.fst = (t₂.filter own).map Prod.fst) :
    t₁.filter own = t₂.filter own := by
  have hfirst := h.trace_own h₁
  have hsecond := h.trace_own h₂
  rw [hview, hcalls, hsecond] at hfirst
  exact (congrArg Prod.fst (Option.some.inj hfirst)).symm

end Separate

end DeltaOS.Interleaving
