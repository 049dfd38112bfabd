import Mathlib

namespace DeltaOS.Processes

variable {R A σ τ α β γ δ : Type}

/-- Why a run of a process ends: a request has no answer yet, or the process cannot go on. -/
inductive Stop
  | waiting
  | stuck
deriving DecidableEq, Repr

/-- A process in a run: how many more of its requests are answered, what it has asked for, and its
memory. -/
structure World (R σ : Type) where
  budget : Nat
  trace : List R
  mem : σ

def Proc (R A σ α : Type) := (List R → A) → World R σ → Except Stop α × World R σ

namespace Proc

instance : Monad (Proc R A σ) where
  pure a := fun _ w => (.ok a, w)
  bind p f := fun kernel w =>
    match p kernel w with
    | (.ok a, w) => f a kernel w
    | (.error e, w) => (.error e, w)

instance : LawfulMonad (Proc R A σ) := LawfulMonad.mk' _
  (fun p => by
    funext kernel w
    simp only [Functor.map]
    rcases h : p kernel w with ⟨_ | _, w'⟩ <;> rfl)
  (fun a f => rfl)
  (fun p f g => by
    funext kernel w
    simp only [bind]
    rcases h : p kernel w with ⟨_ | _, w'⟩ <;> rfl)

def call (r : R) : Proc R A σ A := fun kernel w =>
  match w.budget with
  | 0 => (.error .waiting, { w with trace := w.trace ++ [r] })
  | n + 1 => (.ok (kernel (w.trace ++ [r])), ⟨n, w.trace ++ [r], w.mem⟩)

/-- A value from the memory. Without one the process is stuck. -/
def eval (f : σ → Option α) : Proc R A σ α := fun _ w =>
  match f w.mem with
  | some a => (.ok a, w)
  | none => (.error .stuck, w)

def update (f : σ → Option σ) : Proc R A σ Unit := fun _ w =>
  match f w.mem with
  | some m => (.ok (), { w with mem := m })
  | none => (.error .stuck, w)

/-- At most `n` rounds of a loop with a local state; the body leaves the loop with `none`. -/
def rounds (body : γ → Proc R A σ (Option γ)) : Nat → γ → Proc R A σ Unit
  | 0, _ => fun _ w => (.error .stuck, w)
  | n + 1, c => do
    match ← body c with
    | some c => rounds body n c
    | none => pure ()

/-- A loop whose rounds all make a request: the run is over before there are not enough rounds. -/
def loop (body : γ → Proc R A σ (Option γ)) (c : γ) : Proc R A σ Unit := fun kernel w =>
  rounds body (w.budget + 1) c kernel w

def guardedRound (cond : σ → Bool) (body : Proc R A σ Unit) :
    Unit → Proc R A σ (Option Unit) := fun _ => do
  body
  let goesOn ← eval fun m => some (cond m)
  if goesOn then pure (some ()) else pure none

def whileLoop (cond : σ → Bool) (body : Proc R A σ Unit) : Proc R A σ Unit := do
  let starts ← eval fun m => some (cond m)
  if starts then loop (guardedRound cond body) () else pure ()

def forever (body : Proc R A σ Unit) : Proc R A σ Unit := whileLoop (fun _ => true) body

end Proc

open Proc

/-- The kernel keeps to a contract. -/
def Honest (Ok : R → A → Prop) (kernel : List R → A) : Prop := ∀ trace r, Ok r (kernel (trace ++ [r]))

structure Linked (w : World R σ) (v : World R τ) : Prop where
  budget : w.budget = v.budget
  trace : w.trace = v.trace

/-- How the results of two runs fit: both are done, with at least `k` requests made, or both wait. -/
inductive Fits (E : σ → τ → Prop) (k budget : Nat) (Q : α → β → σ → τ → Prop) :
    Except Stop α × World R σ → Except Stop β × World R τ → Prop
  | done {a : α} {b : β} {w : World R σ} {v : World R τ} (hlink : Linked w v)
    (hbudget : v.budget + k ≤ budget)
      (hpost : Q a b w.mem v.mem) : Fits E k budget Q (.ok a, w) (.ok b, v)
  | waiting {w : World R σ} {v : World R τ} (hlink : Linked w v) (hwait : E w.mem v.mem) :
      Fits E k budget Q (.error .waiting, w) (.error .waiting, v)

/-- The first process makes the requests of the second one, at least `k`, and neither gets stuck. The
memories are related by `P` before, by `Q` and the results after, and by `E` while the processes wait.
-/
def Refines (Ok : R → A → Prop) (E P : σ → τ → Prop) (k : Nat) (p : Proc R A σ α) (q : Proc R A τ β)
    (Q : α → β → σ → τ → Prop) : Prop :=
  ∀ kernel, Honest Ok kernel → ∀ w v, Linked w v → P w.mem v.mem →
    Fits E k v.budget Q (p kernel w) (q kernel v)

variable {Ok : R → A → Prop} {E P P' : σ → τ → Prop} {k l : Nat}
  {p : Proc R A σ α} {q : Proc R A τ β} {Q Q' : α → β → σ → τ → Prop}

theorem Fits.mono {budget budget' : Nat} {x : Except Stop α × World R σ} {y : Except Stop β × World R τ}
    (h : Fits E k budget Q x y) (hle : budget + l ≤ budget' + k)
    (hpost : ∀ a b m s, Q a b m s → Q' a b m s) : Fits E l budget' Q' x y := by
  cases h with
  | done hlink hbudget hq => exact .done hlink (by omega) (hpost _ _ _ _ hq)
  | waiting hlink hwait => exact .waiting hlink hwait

theorem Refines.conseq (h : Refines Ok E P k p q Q) (hle : l ≤ k) (hpre : ∀ m s, P' m s → P m s)
    (hpost : ∀ a b m s, Q a b m s → Q' a b m s) : Refines Ok E P' l p q Q' :=
  fun kernel hk w v hlink hp => (h kernel hk w v hlink (hpre _ _ hp)).mono
    (Nat.add_le_add_left hle _) hpost

theorem Refines.any (h : Refines Ok E P k p q Q) : Refines Ok E P 0 p q Q :=
  h.conseq (Nat.zero_le _) (fun _ _ hp => hp) fun _ _ _ _ hq => hq

theorem Refines.pure {a : α} {b : β} (h : ∀ m s, P m s → Q a b m s) :
    Refines Ok E P 0 (pure a : Proc R A σ α) (pure b : Proc R A τ β) Q :=
  fun _ _ w v hlink hpre => .done hlink (Nat.le_refl _) (h w.mem v.mem hpre)

theorem Refines.bind {f : α → Proc R A σ γ} {g : β → Proc R A τ δ} {S : γ → δ → σ → τ → Prop}
    (h : Refines Ok E P k p q Q) (hnext : ∀ a b, Refines Ok E (Q a b) l (f a) (g b) S) :
    Refines Ok E P (k + l) (p >>= f) (q >>= g) S := by
  intro kernel hk w v hlink hpre
  have hfirst := h kernel hk w v hlink hpre
  simp only [Bind.bind]
  generalize p kernel w = x at hfirst ⊢
  generalize q kernel v = y at hfirst ⊢
  cases hfirst with
  | done hlink' hbudget hpost =>
    exact (hnext _ _ kernel hk _ _ hlink' hpost).mono (by omega) fun _ _ _ _ hs => hs
  | waiting hlink' hwait => exact .waiting hlink' hwait

theorem Refines.seq {f : α → Proc R A σ γ} {g : β → Proc R A τ δ} {S : γ → δ → σ → τ → Prop}
    (h : Refines Ok E P k p q Q) (hnext : ∀ a b, Refines Ok E (Q a b) 0 (f a) (g b) S) :
    Refines Ok E P k (p >>= f) (q >>= g) S :=
  h.bind hnext

theorem Refines.bind_of_false {f : α → Proc R A σ γ} {S : γ → β → σ → τ → Prop}
    (h : Refines Ok E P k p q fun _ _ _ _ => False) : Refines Ok E P k (p >>= f) q S := by
  intro kernel hk w v hlink hpre
  have hfirst := h kernel hk w v hlink hpre
  simp only [Bind.bind]
  generalize p kernel w = x at hfirst ⊢
  generalize q kernel v = y at hfirst ⊢
  cases hfirst with
  | done _ _ hpost => exact hpost.elim
  | waiting hlink' hwait => exact .waiting hlink' hwait

theorem Refines.call (r : R) (h : ∀ m s, P m s → E m s) :
    Refines Ok E P 1 (call r : Proc R A σ A) (call r : Proc R A τ A) fun a b m s => a = b ∧
      Ok r b ∧ P m s := by
  rintro kernel hk ⟨n, trace, m⟩ ⟨n', trace', s⟩ ⟨rfl, rfl⟩ hpre
  cases n with
  | zero => exact .waiting ⟨rfl, rfl⟩ (h m s hpre)
  | succ n => exact .done ⟨rfl, rfl⟩ (Nat.le_refl _) ⟨rfl, hk trace r, hpre⟩

theorem Refines.eval_left {f : σ → Option γ} {g : γ → Proc R A σ α} {V : γ → σ → τ → Prop}
    (h : ∀ m s, P m s → ∃ c, f m = some c ∧ V c m s) (hnext : ∀ c, Refines Ok E (V c) k (g c) q Q) :
    Refines Ok E P k (eval f >>= g) q Q := by
  intro kernel hk w v hlink hpre
  obtain ⟨c, hc, hv⟩ := h _ _ hpre
  have hrun : (eval f >>= g) kernel w = g c kernel w := by
    simp only [Bind.bind, eval, hc]
  rw [hrun]
  exact hnext c kernel hk w v hlink hv

theorem Refines.eval_pure {f : σ → Option α} {b : β} (h : ∀ m s, P m s → ∃ a, f m = some a ∧ Q a b m s) :
    Refines Ok E P 0 (eval f : Proc R A σ α) (Pure.pure b : Proc R A τ β) Q := by
  intro kernel hk w v hlink hpre
  obtain ⟨a, ha, hq⟩ := h _ _ hpre
  simp only [eval, ha]
  exact .done hlink (Nat.le_refl _) hq

theorem Refines.update_left {f : σ → Option σ} {g : Unit → Proc R A σ α} {V : σ → τ → Prop}
    (h : ∀ m s, P m s → ∃ m', f m = some m' ∧ V m' s) (hnext : Refines Ok E V k (g ()) q Q) :
    Refines Ok E P k (update f >>= g) q Q := by
  intro kernel hk w v hlink hpre
  obtain ⟨m, hm, hv⟩ := h _ _ hpre
  have hrun : (update f >>= g) kernel w = g () kernel { w with mem := m } := by
    simp only [Bind.bind, update, hm]
  rw [hrun]
  exact hnext kernel hk { w with mem := m } v ⟨hlink.budget, hlink.trace⟩ hv

theorem Refines.eval_right {f : τ → Option γ} {g : γ → Proc R A τ β} {V : γ → σ → τ → Prop}
    (h : ∀ m s, P m s → ∃ c, f s = some c ∧ V c m s) (hnext : ∀ c, Refines Ok E (V c) k p (g c) Q) :
    Refines Ok E P k p (eval f >>= g) Q := by
  intro kernel hk w v hlink hpre
  obtain ⟨c, hc, hv⟩ := h _ _ hpre
  have hrun : (eval f >>= g) kernel v = g c kernel v := by
    simp only [Bind.bind, eval, hc]
  rw [hrun]
  exact hnext c kernel hk w v hlink hv

theorem Refines.update {f : σ → Option σ} {g : τ → Option τ} {V : σ → τ → Prop}
    (h : ∀ m s, P m s → ∃ m' s', f m = some m' ∧ g s = some s' ∧ V m' s') :
    Refines Ok E P 0 (update f : Proc R A σ Unit) (update g : Proc R A τ Unit) fun _ _ => V := by
  intro kernel hk w v hlink hpre
  obtain ⟨m, s, hm, hs, hv⟩ := h _ _ hpre
  simp only [Proc.update, hm, hs]
  exact .done ⟨hlink.budget, hlink.trace⟩ (Nat.le_refl _) hv

theorem Refines.of_pre {c : Prop} (hc : ∀ m s, P m s → c) (h : c → Refines Ok E P k p q Q) :
    Refines Ok E P k p q Q :=
  fun kernel hk w v hlink hpre => h (hc _ _ hpre) kernel hk w v hlink hpre

section loops

/-- How a round of two loops ends: both go on, or both leave. -/
def Round (I : γ → δ → σ → τ → Prop) (L : σ → τ → Prop) : Option γ → Option δ → σ → τ → Prop
  | some c, some d => I c d
  | none, none => L
  | _, _ => fun _ _ => False

variable {body : γ → Proc R A σ (Option γ)} {body' : δ → Proc R A τ (Option δ)}
    {I : γ → δ → σ → τ → Prop}
  {L : σ → τ → Prop}

theorem fits_rounds (h : ∀ c d, Refines Ok E (I c d) 1 (body c) (body' d) (Round I L))
    {kernel : List R → A}
    (hk : Honest Ok kernel) {n : Nat} {c : γ} {d : δ} {w : World R σ} {v : World R τ}
    (hlink : Linked w v) (hpre : I c d w.mem v.mem) (hn : v.budget < n) :
    Fits E 1 v.budget (fun _ _ => L) (rounds body n c kernel w) (rounds body' n d kernel v) := by
  -- a round uses up a part of the budget, so there are rounds left as long as there is budget
  induction n generalizing c d w v with
  | zero => exact absurd hn (Nat.not_lt_zero _)
  | succ n ih =>
    have hround := h c d kernel hk w v hlink hpre
    simp only [rounds, Bind.bind]
    generalize body c kernel w = x at hround ⊢
    generalize body' d kernel v = y at hround ⊢
    cases hround with
    | waiting hlink' hwait => exact .waiting hlink' hwait
    | @done a b w' v' hlink' hbudget hpost =>
      cases a with
      | none =>
        cases b with
        | none => exact .done hlink' hbudget hpost
        | some d' => exact hpost.elim
      | some c' =>
        cases b with
        | none => exact hpost.elim
        | some d' => exact (ih hlink' hpost (by omega)).mono (by omega) fun _ _ _ _ hs => hs

theorem Refines.loop (h : ∀ c d, Refines Ok E (I c d) 1 (body c) (body' d) (Round I L)) (c : γ) (d : δ) :
    Refines Ok E (I c d) 1 (loop body c) (loop body' d) fun _ _ => L := by
  intro kernel hk w v hlink hpre
  rw [Proc.loop, Proc.loop, hlink.budget]
  exact fits_rounds h hk hlink hpre (Nat.lt_succ_self _)

end loops

theorem Refines.whileLoop {cond : σ → Bool} {cond' : τ → Bool} {body : Proc R A σ Unit}
    {body' : Proc R A τ Unit} (hcond : ∀ m s, P m s → cond m = cond' s)
    (h : Refines Ok E (fun m s => P m s ∧ cond m = true) 1 body body' fun _ _ => P) :
    Refines Ok E P 0 (whileLoop cond body) (whileLoop cond' body') fun _ _ m s => P m s ∧
      cond m = false := by
  have hround : ∀ c d, Refines Ok E (fun m s => P m s ∧ cond m = true) 1 (guardedRound cond body c)
      (guardedRound cond' body' d) (Round (fun _ _ m s => P m s ∧ cond m = true) fun m s => P m s ∧
        cond m = false) := by
    intro c d
    refine Refines.bind (l := 0) h fun _ _ => ?_
    refine Refines.eval_left (V := fun b m s => P m s ∧ cond m = b)
      (fun m s hp => ⟨_, rfl, hp, rfl⟩) fun b => ?_
    refine Refines.eval_right (V := fun b' m s => (P m s ∧ cond m = b) ∧ b' = b)
      (fun m s hp => ⟨_, rfl, hp, (hcond m s hp.1).symm.trans hp.2⟩) fun b' => ?_
    refine Refines.of_pre (fun m s hp => hp.2) ?_
    rintro rfl
    cases b' with
    | true => exact Refines.pure fun m s hp => hp.1
    | false => exact Refines.pure fun m s hp => hp.1
  refine Refines.eval_left (V := fun b m s => P m s ∧ cond m = b)
    (fun m s hp => ⟨_, rfl, hp, rfl⟩) fun b => ?_
  refine Refines.eval_right (V := fun b' m s => (P m s ∧ cond m = b) ∧ b' = b)
    (fun m s hp => ⟨_, rfl, hp, (hcond m s hp.1).symm.trans hp.2⟩) fun b' => ?_
  refine Refines.of_pre (fun m s hp => hp.2) ?_
  rintro rfl
  cases b' with
  | true =>
    exact (Refines.loop hround () ()).conseq (Nat.zero_le _) (fun m s hp => hp.1)
      fun _ _ _ _ hs => hs
  | false => exact Refines.pure fun m s hp => hp.1

theorem Refines.whileLoop_skip {cond : σ → Bool} {body : Proc R A σ Unit}
    (h : ∀ m s, P m s → cond m = false) :
    Refines Ok E P 0 (Proc.whileLoop cond body) (Pure.pure () : Proc R A τ Unit) fun _ _ => P := by
  refine Refines.eval_left (V := fun b m s => P m s ∧ b = false)
    (fun m s hp => ⟨_, rfl, hp, h m s hp⟩) fun b => ?_
  refine Refines.of_pre (fun m s hp => hp.2) ?_
  rintro rfl
  exact Refines.pure fun m s hp => hp.1

theorem Refines.forever {body : Proc R A σ Unit} {body' : Proc R A τ Unit}
    (h : Refines Ok E P 1 body body' fun _ _ => P) :
    Refines Ok E P 0 (forever body) (forever body') fun _ _ _ _ => False := by
  refine (Refines.whileLoop (fun m s _ => rfl)
    (h.conseq (Nat.le_refl _) (fun m s hp => hp.1) fun _ _ _ _ hs => hs)).conseq
    (Nat.le_refl _) (fun _ _ hp => hp) ?_
  rintro _ _ m s ⟨-, hfalse⟩
  exact absurd hfalse (by decide)

/-- A process whose requests are known: it makes them one after the other, and is done when all are
answered. -/
def Makes (Ok : R → A → Prop) (P : σ → Prop) (p : Proc R A σ α) (rs : List R)
    (Q : α → σ → Prop) : Prop :=
  ∀ kernel, Honest Ok kernel → ∀ n trace m, P m →
    (rs.length ≤ n → ∃ a m', p kernel ⟨n, trace, m⟩ = (.ok a, ⟨n - rs.length, trace ++ rs, m'⟩) ∧
      Q a m') ∧
    (n < rs.length → ∃ m', p kernel ⟨n, trace, m⟩ = (.error .waiting, ⟨0, trace ++ rs.take (n + 1), m'⟩))

section scripts

variable {P : σ → Prop} {rs rs' : List R} {Q : α → σ → Prop}

theorem Makes.conseq {P' : σ → Prop} {Q' : α → σ → Prop} (h : Makes Ok P p rs Q) (hpre : ∀ m, P' m → P m)
    (hpost : ∀ a m, Q a m → Q' a m) : Makes Ok P' p rs Q' := by
  intro kernel hk n trace m hp
  obtain ⟨hdone, hwait⟩ := h kernel hk n trace m (hpre m hp)
  refine ⟨fun hle => ?_, hwait⟩
  obtain ⟨a, m', hrun, hq⟩ := hdone hle
  exact ⟨a, m', hrun, hpost a m' hq⟩

theorem Makes.of_pre {c : Prop} (hc : ∀ m, P m → c) (h : c → Makes Ok P p rs Q) : Makes Ok P p rs Q :=
  fun kernel hk n trace m hp => h (hc m hp) kernel hk n trace m hp

theorem Makes.pure {a : α} (h : ∀ m, P m → Q a m) : Makes Ok P (pure a : Proc R A σ α) [] Q := by
  intro kernel hk n trace m hp
  refine ⟨fun _ => ⟨a, m, ?_, h m hp⟩, fun hlt => absurd hlt (Nat.not_lt_zero _)⟩
  rw [List.append_nil]
  rfl

theorem Makes.call {r : R} {T : A → σ → Prop} (h : ∀ a m, Ok r a → P m → T a m) :
    Makes Ok P (call r : Proc R A σ A) [r] T := by
  intro kernel hk n trace m hp
  cases n with
  | zero => exact ⟨fun hle => absurd hle (Nat.not_succ_le_zero 0), fun _ => ⟨m, rfl⟩⟩
  | succ n => exact ⟨fun _ => ⟨_, m, rfl, h _ m (hk trace r) hp⟩, fun hlt => absurd hlt (by simp)⟩

theorem Makes.bind {f : α → Proc R A σ β} {S : β → σ → Prop} (h : Makes Ok P p rs Q)
    (hnext : ∀ a, Makes Ok (Q a) (f a) rs' S) : Makes Ok P (p >>= f) (rs ++ rs') S := by
  intro kernel hk n trace m hp
  obtain ⟨hdone, hwait⟩ := h kernel hk n trace m hp
  simp only [Bind.bind]
  obtain hle | hlt := Nat.lt_or_ge n rs.length |>.symm
  · obtain ⟨a, m', hrun, hq⟩ := hdone hle
    obtain ⟨hdone', hwait'⟩ := hnext a kernel hk (n - rs.length) (trace ++ rs) m' hq
    rw [hrun]
    dsimp only
    rw [List.length_append]
    refine ⟨fun hall => ?_, fun hsome => ?_⟩
    · obtain ⟨b, m'', hrun', hs⟩ := hdone' (by omega)
      refine ⟨b, m'', ?_, hs⟩
      rw [hrun', List.append_assoc, Nat.sub_sub]
    · obtain ⟨m'', hrun'⟩ := hwait' (by omega)
      refine ⟨m'', ?_⟩
      have hrs : rs.take (n + 1) = rs := List.take_of_length_le (by omega)
      rw [hrun', List.append_assoc, List.take_append, hrs, Nat.sub_add_comm hle]
  · obtain ⟨m', hrun⟩ := hwait hlt
    rw [hrun]
    dsimp only
    rw [List.length_append]
    refine ⟨fun hall => absurd hall (by omega), fun _ => ⟨m', ?_⟩⟩
    rw [List.take_append_of_le_length hlt]

theorem Makes.cons {f : α → Proc R A σ β} {S : β → σ → Prop} {r : R} (h : Makes Ok P p [r] Q)
    (hnext : ∀ a, Makes Ok (Q a) (f a) rs S) : Makes Ok P (p >>= f) (r :: rs) S := h.bind hnext

theorem Makes.last {f : α → Proc R A σ β} {S : β → σ → Prop} (h : Makes Ok P p rs Q)
    (hnext : ∀ a, Makes Ok (Q a) (f a) [] S) : Makes Ok P (p >>= f) rs S := by
  rw [← List.append_nil rs]
  exact h.bind hnext

theorem Makes.eval {f : σ → Option α} {g : α → Proc R A σ β} {S : β → σ → Prop} {a : α}
    (h : ∀ m, P m → f m = some a) (hnext : Makes Ok P (g a) rs S) : Makes Ok P (eval f >>= g) rs S := by
  intro kernel hk n trace m hp
  have hrun : (Proc.eval f >>= g) kernel ⟨n, trace, m⟩ = g a kernel ⟨n, trace, m⟩ := by
    simp only [Bind.bind, Proc.eval, h m hp]
  rw [hrun]
  exact hnext kernel hk n trace m hp

def repeated (rs : List R) (n : Nat) : List R := ((List.replicate n rs).flatten).take n

theorem take_flatten_replicate (hpos : 0 < rs.length) {k n l : Nat} (hk : k ≤ n) (hn : n ≤ l) :
    ((List.replicate l rs).flatten).take k = ((List.replicate n rs).flatten).take k := by
  obtain ⟨d, rfl⟩ := Nat.exists_eq_add_of_le hn
  rw [List.replicate_add, List.flatten_append, List.take_append_of_le_length]
  rw [List.length_flatten, List.map_replicate, List.sum_replicate, smul_eq_mul]
  exact hk.trans (Nat.le_mul_of_pos_right n hpos)

theorem repeated_of_le (hpos : 0 < rs.length) {n : Nat} (h : rs.length ≤ n) :
    repeated rs n = rs ++ repeated rs (n - rs.length) := by
  obtain ⟨k, rfl⟩ : ∃ k, n = k + 1 := ⟨n - 1, by omega⟩
  rw [repeated, List.replicate_succ, List.flatten_cons, List.take_append,
    List.take_of_length_le h, repeated, take_flatten_replicate hpos (Nat.le_refl _) (by omega)]

theorem repeated_of_ge {n : Nat} (hn : 0 < n) (h : n ≤ rs.length) : repeated rs n = rs.take n := by
  obtain ⟨k, rfl⟩ : ∃ k, n = k + 1 := ⟨n - 1, by omega⟩
  rw [repeated, List.replicate_succ, List.flatten_cons, List.take_append_of_le_length h]

theorem Makes.endless {cond : σ → Bool} {body : Proc R A σ Unit} (hcond : ∀ m, P m → cond m = true)
    (h : Makes Ok P body rs fun _ => P) (hpos : 0 < rs.length) {kernel : List R → A}
    (hk : Honest Ok kernel) (n : Nat) (trace : List R) (m : σ) (hp : P m) :
    ∃ m', whileLoop cond body kernel ⟨n, trace, m⟩ =
      (.error .waiting, ⟨0, trace ++ repeated rs (n + 1), m'⟩) := by
  have hrounds : ∀ k n trace m, P m → n < k →
      ∃ m', rounds (guardedRound cond body) k () kernel ⟨n, trace, m⟩ =
      (.error .waiting, ⟨0, trace ++ repeated rs (n + 1), m'⟩) := by
    intro k
    induction k with
    | zero => exact fun n trace m _ hn => absurd hn (Nat.not_lt_zero _)
    | succ k ih =>
      intro n trace m hp hn
      obtain ⟨hdone, hwait⟩ := h kernel hk n trace m hp
      simp only [rounds, guardedRound, Bind.bind]
      obtain hle | hlt := Nat.lt_or_ge n rs.length |>.symm
      · obtain ⟨_, m', hrun, hp'⟩ := hdone hle
        obtain ⟨m'', hrest⟩ := ih (n - rs.length) (trace ++ rs) m' hp' (by omega)
        refine ⟨m'', ?_⟩
        rw [hrun]
        simp only [Proc.eval, hcond m' hp', if_true]
        rw [repeated_of_le hpos (by omega), ← List.append_assoc, Nat.sub_add_comm hle]
        exact hrest
      · obtain ⟨m', hrun⟩ := hwait hlt
        refine ⟨m', ?_⟩
        rw [hrun, repeated_of_ge (Nat.succ_pos n) hlt]
  simp only [whileLoop, loop, Bind.bind, Proc.eval, hcond m hp, if_true]
  exact hrounds (n + 1) n trace m hp (Nat.lt_succ_self n)

theorem take_repeated (hpos : 0 < rs.length) {k n : Nat} (h : k ≤ n) :
    (repeated rs n).take k = repeated rs k := by
  rw [repeated, List.take_take, Nat.min_eq_left h, repeated,
    take_flatten_replicate hpos (Nat.le_refl k) h]

theorem Makes.bind_endless {cond : σ → Bool} {body : Proc R A σ Unit} {S : σ → Prop}
    {f : Unit → Proc R A σ β} (h : Makes Ok P p rs fun _ => S) (hcond : ∀ m, S m → cond m = true)
    (hbody : Makes Ok S body rs' fun _ => S)
    (hpos : 0 < rs'.length) {kernel : List R → A} (hk : Honest Ok kernel) (n : Nat) {m : σ} (hp : P m) :
    ((p >>= fun _ => whileLoop cond body >>= f) kernel ⟨n, [], m⟩).2.trace =
      (rs ++ repeated rs' (n + 1)).take (n + 1) := by
  obtain ⟨hdone, hwait⟩ := h kernel hk n [] m hp
  simp only [Bind.bind]
  obtain hle | hlt := Nat.lt_or_ge n rs.length |>.symm
  · obtain ⟨a, m', hrun, hs⟩ := hdone hle
    obtain ⟨m'', hloop⟩ := Makes.endless hcond hbody hpos hk (n - rs.length) ([] ++ rs) m' hs
    have hrs : rs.take (n + 1) = rs := List.take_of_length_le (Nat.le_succ_of_le hle)
    rw [hrun]
    dsimp only
    rw [hloop, List.nil_append, List.take_append, hrs, take_repeated hpos (Nat.sub_le _ _),
      Nat.sub_add_comm hle]
  · obtain ⟨m', hrun⟩ := hwait hlt
    rw [hrun, List.nil_append, List.take_append_of_le_length hlt]

end scripts
end DeltaOS.Processes
