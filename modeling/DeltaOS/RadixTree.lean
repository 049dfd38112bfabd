import Mathlib

namespace DeltaOS.RadixTree

variable {N I : Type*} {child child' : N → I → Option N} {root a f : N} {depth : Nat}
  {p : List I} {i : I}

def walk (child : N → I → Option N) (root : N) (p : List I) : Option N := p.foldlM child root

theorem walk_nil (child : N → I → Option N) (root : N) : walk child root [] = some root := rfl

theorem walk_cons (child : N → I → Option N) (root : N) (i : I) (p : List I) :
    walk child root (i :: p) = (child root i).bind fun n => walk child n p := rfl

theorem walk_concat (child : N → I → Option N) (root : N) (p : List I) (i : I) :
    walk child root (p ++ [i]) = (walk child root p).bind fun n => child n i := by
  rw [walk, List.foldlM_append]
  exact congrArg _ (funext fun n => bind_pure (child n i))

theorem walk_concat_eq_some {n : N} :
    walk child root (p ++ [i]) = some n ↔ ∃ b, walk child root p = some b ∧ child b i = some n := by
  rw [walk_concat, Option.bind_eq_some_iff]

def Tree (child : N → I → Option N) (root : N) (depth : Nat) : Prop :=
  ∀ p q n, p.length ≤ depth → q.length ≤ depth →
    walk child root p = some n → walk child root q = some n → p = q

theorem walk_congr
    (hsame : ∀ q n j, q.length < depth → walk child root q = some n → child' n j = child n j)
    {q : List I} (hq : q.length ≤ depth) : walk child' root q = walk child root q := by
  induction q using List.reverseRecOn with
  | nil => rfl
  | append_singleton q j ih =>
    rw [List.length_append, List.length_singleton] at hq
    rw [walk_concat, walk_concat, ih (by omega)]
    cases hw : walk child root q with
    | none => rfl
    | some n => exact hsame q n j (by omega) hw

theorem Tree.congr (ht : Tree child root depth)
    (hsame : ∀ q n j, q.length < depth → walk child root q = some n → child' n j = child n j) :
    Tree child' root depth := by
  intro p q n hp hq hwp hwq
  rw [walk_congr hsame hp] at hwp
  rw [walk_congr hsame hq] at hwq
  exact ht p q n hp hq hwp hwq

/-- A childless node that no path reaches becomes the child of a node that is reached. -/
structure Attach (child child' : N → I → Option N) (root : N) (depth : Nat) (p : List I) (a : N)
    (i : I) (f : N) : Prop where
  parent : walk child root p = some a
  above : p.length < depth
  free : child a i = none
  fresh : ∀ q, q.length ≤ depth → walk child root q ≠ some f
  child_new : child' a i = some f
  childless : ∀ j, child' f j = none
  child_old : ∀ q n j, q.length < depth → walk child root q = some n → (n, j) ≠ (a, i) →
    child' n j = child n j

theorem Attach.walk_iff (h : Attach child child' root depth p a i f) (ht : Tree child root depth)
    {q : List I} (hq : q.length ≤ depth) {n : N} :
    walk child' root q = some n ↔ (q = p ++ [i] ∧ n = f) ∨ walk child root q = some n := by
  induction q using List.reverseRecOn generalizing n with
  | nil => simp [walk_nil]
  | append_singleton q j ih =>
    rw [List.length_append, List.length_singleton] at hq
    have hp := h.above
    have hsplit : q ++ [j] = p ++ [i] ↔ q = p ∧ j = i := by simp
    rw [walk_concat_eq_some, walk_concat_eq_some, hsplit]
    constructor
    · rintro ⟨b, hb, hc⟩
      obtain ⟨-, rfl⟩ | hb := (ih (by omega)).mp hb
      · rw [h.childless] at hc
        cases hc
      by_cases hbj : (b, j) = (a, i)
      · cases hbj
        have hqp : q = p := ht q p a (by omega) (by omega) hb h.parent
        rw [h.child_new, Option.some.injEq] at hc
        exact .inl ⟨⟨hqp, rfl⟩, hc.symm⟩
      · rw [h.child_old q b j (by omega) hb hbj] at hc
        exact .inr ⟨b, hb, hc⟩
    · rintro (⟨⟨rfl, rfl⟩, rfl⟩ | ⟨b, hb, hc⟩)
      · exact ⟨a, (ih (by omega)).mpr (.inr h.parent), h.child_new⟩
      · have hbj : (b, j) ≠ (a, i) := by
          rintro ⟨⟩
          rw [h.free] at hc
          cases hc
        exact ⟨b, (ih (by omega)).mpr (.inr hb), (h.child_old q b j (by omega) hb hbj).trans hc⟩

theorem Attach.tree (h : Attach child child' root depth p a i f) (ht : Tree child root depth) :
    Tree child' root depth := by
  intro q r n hq hr hwq hwr
  obtain ⟨hqp, hnf⟩ | hwq := (h.walk_iff ht hq).mp hwq
  · obtain ⟨hrp, -⟩ | hwr := (h.walk_iff ht hr).mp hwr
    · exact hqp.trans hrp.symm
    · exact absurd (hnf ▸ hwr) (h.fresh r hr)
  · obtain ⟨-, hnf⟩ | hwr := (h.walk_iff ht hr).mp hwr
    · exact absurd (hnf ▸ hwq) (h.fresh q hq)
    · exact ht q r n hq hr hwq hwr

end DeltaOS.RadixTree
