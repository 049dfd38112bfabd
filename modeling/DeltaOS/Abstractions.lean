import Mathlib

namespace DeltaOS.Abstractions

variable {σ τ α β ι : Type} {view : σ → τ} {Inv : σ → Prop}

/-- From a state with the invariant, a program does to the part of the state that is looked at what
another program does on that part alone. It fails where that one fails, and keeps the invariant. -/
structure Shows (view : σ → τ) (Inv : σ → Prop) (c : StateT σ Option α)
    (d : StateT τ Option α) : Prop where
  result : ∀ s, Inv s → (c s).map (Prod.map id view) = d (view s)
  keeps : ∀ s, Inv s → ∀ r, c s = some r → Inv r.2

namespace Shows

theorem pure (a : α) : Shows view Inv (Pure.pure a) (Pure.pure a) where
  result _ _ := rfl
  keeps s hs r hr := by
    cases hr
    exact hs

theorem bind {c : StateT σ Option α} {d : StateT τ Option α} {f : α → StateT σ Option β}
    {g : α → StateT τ Option β} (h : Shows view Inv c d) (hnext : ∀ a, Shows view Inv (f a) (g a)) :
    Shows view Inv (c >>= f) (d >>= g) := by
  constructor
  · intro s hs
    have hfirst := h.result s hs
    change ((c s).bind fun r => f r.1 r.2).map _ = (d (view s)).bind fun r => g r.1 r.2
    rw [← hfirst]
    cases hc : c s with
    | none => rfl
    | some r => exact (hnext r.1).result r.2 (h.keeps s hs r hc)
  · intro s hs r hr
    obtain ⟨q, hc, hf⟩ := Option.bind_eq_some_iff.mp hr
    exact (hnext q.1).keeps q.2 (h.keeps s hs q hc) r hf

theorem hidden {c : StateT σ Option Unit} {f : Unit → StateT σ Option β} {d : StateT τ Option β}
    (h : Shows view Inv c (Pure.pure ())) (hnext : Shows view Inv (f ()) d) :
    Shows view Inv (c >>= f) d := by
  have hd : d = Pure.pure () >>= fun _ => d := (pure_bind () fun _ => d).symm
  rw [hd]
  exact h.bind fun _ => hnext

theorem bind_fails {c : StateT σ Option α} {f : α → StateT σ Option β}
    (h : Shows view Inv c fun _ => none) :
    Shows view Inv (c >>= f) (fun _ => none : StateT τ Option β) := by
  have hnone : ∀ s, Inv s → (c >>= f) s = none := by
    intro s hs
    have hc : c s = none := Option.map_eq_none_iff.mp (h.result s hs)
    change (c s).bind (fun r => f r.1 r.2) = none
    rw [hc]
    rfl
  constructor
  · intro s hs
    rw [hnone s hs]
    rfl
  · intro s hs r hr
    rw [hnone s hs] at hr
    cases hr

end Shows

theorem foldlM_shows {step : σ → ι → Option σ} {spec : τ → ι → Option τ}
    (hstep : ∀ s i, Inv s → (step s i).map view = spec (view s) i)
    (hkeeps : ∀ s i s', Inv s → step s i = some s' → Inv s')
    (is : List ι) {s : σ} (hs : Inv s) : (is.foldlM step s).map view = is.foldlM spec (view s) := by
  induction is generalizing s with
  | nil => rfl
  | cons i is ih =>
    rw [List.foldlM_cons, List.foldlM_cons, ← hstep s i hs]
    cases hi : step s i with
    | none => rfl
    | some s' => exact ih (hkeeps s i s' hs hi)

end DeltaOS.Abstractions
