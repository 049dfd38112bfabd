import DeltaOS.CStrings

namespace DeltaOS.Tokenizer

open CStrings

def Blank (c : Byte) : Prop := c = 32 ∨ c = 9

instance (c : Byte) : Decidable (Blank c) := inferInstanceAs (Decidable (_ ∨ _))

/-- `while (*line == ' ' || *line == '\t') line++`. -/
def skipBlanks (n : Nat) (b : Buffer) (i : Nat) : Option Nat := scan (fun c => !decide (Blank c)) n b n i

/-- `while (*line && *line != ' ' && *line != '\t') line++`. -/
def skipToken (n : Nat) (b : Buffer) (i : Nat) : Option Nat :=
  scan (fun c => decide (c = 0 ∨ Blank c)) n b n i

/-- The main loop. The list holds the entries of `tokens` below `count`; the others are null. -/
def tokens (n : Nat) : Nat → Buffer → Nat → List Nat → Option (List Nat × Buffer)
  | 0, _, _, _ => none
  | fuel + 1, b, i, result => do
    let c ← load n b i
    if c ≠ 0 ∧ result.length < 16 then
      let result := result ++ [i]
      let j ← skipToken n b i
      let c ← load n b j
      if c ≠ 0 then
        let b ← store n b j 0
        let i ← skipBlanks n b (j + 1)
        tokens n fuel b i result
      else
        tokens n fuel b j result
    else
      some (result, b)

/-- `tokenize` on a line in a buffer of `n` bytes: the indices where the tokens start, and the buffer
after the call. There is no result if a byte outside of the buffer is read or written. -/
def tokenize (n : Nat) (b : Buffer) : Option (List Nat × Buffer) := do
  let i ← skipBlanks n b 0
  tokens n (n + 1) b i []

/-- A line of `len` characters and its terminator. -/
structure Line where
  bytes : Buffer
  len : Nat
  ne_zero : ∀ i < len, bytes i ≠ 0
  terminator : bytes len = 0

variable (l : Line) {lo hi i j m : Nat}

/-- The characters from `lo` on and before `hi` are a maximal block of characters that are not blank. -/
structure Block (lo hi : Nat) : Prop where
  nonempty : lo < hi
  inside : hi ≤ l.len
  solid : ∀ m < hi, lo ≤ m → ¬Blank (l.bytes m)
  left : lo = 0 ∨ Blank (l.bytes (lo - 1))
  right : hi = l.len ∨ Blank (l.bytes hi)

theorem block_iff : Block l lo hi ↔ lo < hi ∧ hi ≤ l.len ∧ (∀ m < hi, lo ≤ m → ¬Blank (l.bytes m)) ∧
    (lo = 0 ∨ Blank (l.bytes (lo - 1))) ∧ (hi = l.len ∨ Blank (l.bytes hi)) :=
  ⟨fun h => ⟨h.nonempty, h.inside, h.solid, h.left, h.right⟩,
    fun ⟨h₁, h₂, h₃, h₄, h₅⟩ => ⟨h₁, h₂, h₃, h₄, h₅⟩⟩

instance : Decidable (Block l lo hi) := decidable_of_iff' _ (block_iff l)

def startsBelow (i : Nat) : List Nat := (List.range i).filter fun lo => ∃ hi < l.len + 1, Block l lo hi

def starts : List Nat := startsBelow l l.len

/-- The line with the blanks behind the blocks that start at `result` replaced by terminators. -/
def cut (result : List Nat) : Buffer := fun m => if m < l.len ∧ ∃ lo ∈ result, Block l lo m then 0
    else l.bytes m

def chars (lo hi : Nat) : List Byte := (List.range' lo (hi - lo)).map l.bytes

structure Tokenized (result : List Nat) (after : Buffer) : Prop where
  first : result = (starts l).take 16
  token : ∀ lo ∈ result, ∃ hi, Block l lo hi ∧ text (l.len + 1) after lo = chars l lo hi ∧
    (∀ m, lo ≤ m → m < hi → after m ≠ 0) ∧ after hi = 0
  changed : ∀ m, after m ≠ l.bytes m → m < l.len ∧ Blank (l.bytes m) ∧ after m = 0

variable {l}

theorem Block.end_unique (h : Block l lo hi) (h' : Block l lo m) : hi = m := by
  have hle : ∀ {a c : Nat}, Block l lo a → Block l lo c → a ≤ c := by
    intro a c ha hc
    by_contra hlt
    obtain rfl | hblank := hc.right
    · exact hlt ha.inside
    · exact ha.solid c (not_le.mp hlt) hc.nonempty.le hblank
  exact Nat.le_antisymm (hle h h') (hle h' h)

/-- Where the main loop is at the head of a round: at a character that starts a block, or at the
terminator. -/
structure Ready (l : Line) (i : Nat) : Prop where
  le : i ≤ l.len
  solid : i < l.len → ¬Blank (l.bytes i)
  left : i = 0 ∨ Blank (l.bytes (i - 1)) ∨ i = l.len

theorem mem_startsBelow : lo ∈ startsBelow l i ↔ lo < i ∧ ∃ hi, Block l lo hi := by
  rw [startsBelow, List.mem_filter, List.mem_range, decide_eq_true_eq]
  refine and_congr_right fun _ => ⟨?_, ?_⟩
  · rintro ⟨hi, -, h⟩
    exact ⟨hi, h⟩
  · rintro ⟨hi, h⟩
    exact ⟨hi, Nat.lt_succ_of_le h.inside, h⟩

theorem startsBelow_succ_of_block (h : Block l i j) :
    startsBelow l (i + 1) = startsBelow l i ++ [i] := by
  have hstart : ∃ hi < l.len + 1, Block l i hi := ⟨j, Nat.lt_succ_of_le h.inside, h⟩
  rw [startsBelow, List.range_succ, List.filter_append, List.filter_singleton, decide_eq_true hstart]
  rfl

theorem startsBelow_eq_of_none (hle : i ≤ j) (hnone : ∀ m, i ≤ m → m < j → ∀ hi, ¬Block l m hi) :
    startsBelow l j = startsBelow l i := by
  induction j, hle using Nat.le_induction with
  | base => rfl
  | succ j hle ih =>
    have hj : ¬∃ hi < l.len + 1, Block l j hi := fun ⟨hi, _, h⟩ => hnone j hle (Nat.lt_succ_self j) hi h
    rw [startsBelow, List.range_succ, List.filter_append, List.filter_singleton, decide_eq_false hj]
    rw [← ih fun m him hmj => hnone m him (Nat.lt_succ_of_lt hmj)]
    exact List.append_nil _

theorem startsBelow_of_block (h : Block l i j) (hle : j ≤ m)
    (hblank : ∀ k, j ≤ k → k < m → Blank (l.bytes k)) : startsBelow l m = startsBelow l i ++ [i] := by
  rw [← startsBelow_succ_of_block h]
  refine startsBelow_eq_of_none (h.nonempty.trans_le hle) ?_
  intro k hik hkm hi hk
  obtain hkj | hjk := lt_or_ge k j
  · obtain rfl | hleft := hk.left
    · exact absurd hik (Nat.not_succ_le_zero i)
    · exact h.solid (k - 1) (by omega) (by omega) hleft
  · exact hk.solid k hk.nonempty le_rfl (hblank k hjk hkm)

theorem startsBelow_take (hle : i ≤ l.len) (hcount : (startsBelow l i).length = 16) :
    (starts l).take 16 = startsBelow l i := by
  have hrange : List.range l.len = List.range i ++ (List.range (l.len - i)).map (i + ·) := by
    rw [← List.range_add, Nat.add_sub_cancel' hle]
  rw [starts, startsBelow, hrange, List.filter_append, ← hcount]
  exact List.take_left

theorem cut_nil : cut l [] = l.bytes := by
  funext m
  exact if_neg fun h => by simp at h

theorem cut_block (result : List Nat) (h : Block l i j) (hj : j < l.len) :
    cut l (result ++ [i]) = Function.update (cut l result) j 0 := by
  funext m
  rw [Function.update_apply, cut]
  by_cases hm : m = j
  · rw [if_pos hm, if_pos ⟨hm ▸ hj, i, by simp, hm ▸ h⟩]
  · have hother : ¬Block l i m := fun h' => hm (h'.end_unique h)
    rw [if_neg hm, cut]
    refine if_congr ?_ rfl rfl
    simp [or_and_right, exists_or, hother]

theorem cut_last (result : List Nat) (h : Block l i l.len) : cut l (result ++ [i]) = cut l result := by
  funext m
  refine if_congr (and_congr_right fun hm => ?_) rfl rfl
  have hother : ¬Block l i m := fun h' => hm.ne (h'.end_unique h)
  simp [or_and_right, exists_or, hother]

theorem Ready.cut_eq (hr : Ready l i) (him : i ≤ m) : cut l (startsBelow l i) m = l.bytes m := by
  refine if_neg ?_
  rintro ⟨hm, lo, hlo, h⟩
  have hlt : lo < i := (mem_startsBelow.mp hlo).1
  obtain rfl | hblank | rfl := hr.left
  · exact absurd hlt (Nat.not_lt_zero lo)
  · exact h.solid (i - 1) (by omega) (by omega) hblank
  · exact absurd hm (not_lt.mpr him)

theorem skipBlanks_eq {b : Buffer} (hle : i ≤ l.len) (hb : ∀ m, i ≤ m → b m = l.bytes m) :
    ∃ j, skipBlanks (l.len + 1) b i = some j ∧ i ≤ j ∧ j ≤ l.len ∧ ¬Blank (l.bytes j) ∧
      ∀ m, i ≤ m → m < j → Blank (l.bytes m) := by
  have hend : (!decide (Blank (b l.len))) = true := by
    rw [hb _ hle, l.terminator]
    decide
  obtain ⟨j, hscan, hij, hj, hstop, hbefore⟩ :=
    scan_first (fun c => !decide (Blank c)) (l.len + 1) hle (Nat.lt_succ_self _) hend (by omega)
  refine ⟨j, hscan, hij, hj, ?_, ?_⟩
  · rw [hb j hij] at hstop
    simpa using hstop
  · intro m him hmj
    have hm := hbefore m him hmj
    rw [hb m him] at hm
    simpa using hm

theorem skipToken_eq {b : Buffer} (hr : Ready l i) (hlt : i < l.len)
    (hb : ∀ m, i ≤ m → b m = l.bytes m) : ∃ j, skipToken (l.len + 1) b i = some j ∧ Block l i j := by
  have hend : decide (b l.len = 0 ∨ Blank (b l.len)) = true := by
    rw [hb _ hlt.le, l.terminator]
    decide
  obtain ⟨j, hscan, hij, hj, hstop, hbefore⟩ :=
    scan_first (fun c => decide (c = 0 ∨ Blank c)) (l.len + 1) hlt.le
      (Nat.lt_succ_self _) hend (by omega)
  rw [hb j hij, decide_eq_true_eq] at hstop
  have hne : i ≠ j := by
    rintro rfl
    exact hstop.elim (l.ne_zero i hlt) (hr.solid hlt)
  refine ⟨j, hscan, lt_of_le_of_ne hij hne, hj, ?_, ?_, ?_⟩
  · intro m hmj him hblank
    refine hbefore m him hmj ?_
    rw [hb m him]
    exact decide_eq_true (.inr hblank)
  · obtain hzero | hblank | hlen := hr.left
    · exact .inl hzero
    · exact .inr hblank
    · exact absurd hlen hlt.ne
  · refine hstop.imp_left fun hzero => ?_
    by_contra hj'
    exact l.ne_zero j (lt_of_le_of_ne hj hj') hzero

theorem ready_len (l : Line) : Ready l l.len :=
  ⟨le_rfl, fun h => absurd h (lt_irrefl _), .inr (.inr rfl)⟩

theorem tokens_done {fuel : Nat} {b : Buffer} {result : List Nat} {n : Nat} (hi : i < n)
    (hstop : b i = 0 ∨ result.length = 16) : tokens n (fuel + 1) b i result = some (result, b) := by
  rw [tokens, load_eq hi]
  refine if_neg ?_
  rintro ⟨hne, hlt⟩
  obtain h | h := hstop
  · exact hne h
  · exact absurd h hlt.ne

theorem tokens_step {fuel n : Nat} {b : Buffer} {result : List Nat} (hi : i < n) (hne : b i ≠ 0)
    (hcount : result.length < 16) (hskip : skipToken n b i = some j) (hj : j < n) :
    tokens n (fuel + 1) b i result =
      if b j ≠ 0 then
        (skipBlanks n (Function.update b j 0) (j + 1)).bind fun m =>
          tokens n fuel (Function.update b j 0) m (result ++ [i])
      else tokens n fuel b j (result ++ [i]) := by
  rw [tokens, load_eq hi]
  simp only [Option.bind_eq_bind, Option.bind_some]
  rw [if_pos ⟨hne, hcount⟩, hskip, Option.bind_some, load_eq hj, Option.bind_some, store_eq hj,
    Option.bind_some]

theorem tokens_round (fuel : Nat) (hr : Ready l i) (hlt : i < l.len)
    (hcount : (startsBelow l i).length < 16) :
    ∃ m, i < m ∧ Ready l m ∧ (startsBelow l m).length = (startsBelow l i).length + 1 ∧
      tokens (l.len + 1) (fuel + 1) (cut l (startsBelow l i)) i (startsBelow l i) =
        tokens (l.len + 1) fuel (cut l (startsBelow l m)) m (startsBelow l m) := by
  have hne : cut l (startsBelow l i) i ≠ 0 := by
    rw [hr.cut_eq le_rfl]
    exact l.ne_zero i hlt
  obtain ⟨j, hskip, hblock⟩ := skipToken_eq hr hlt fun m hm => hr.cut_eq hm
  have hij := hblock.nonempty
  have hcutj : cut l (startsBelow l i) j = l.bytes j := hr.cut_eq hij.le
  obtain hj | hj := hblock.inside.lt_or_eq
  · have hbytes : ∀ m, j + 1 ≤ m → Function.update (cut l (startsBelow l i)) j 0 m = l.bytes m := by
      intro m hm
      rw [Function.update_of_ne (by omega), hr.cut_eq (by omega)]
    obtain ⟨m, hskip', hjm, hm, hsolid, hbefore⟩ := skipBlanks_eq hj hbytes
    have hblanks : ∀ k, j ≤ k → k < m → Blank (l.bytes k) := by
      intro k hjk hkm
      obtain rfl | hlt' := hjk.eq_or_lt
      · exact hblock.right.resolve_left hj.ne
      · exact hbefore k hlt' hkm
    have hstarts := startsBelow_of_block hblock (Nat.le_of_succ_le hjm) hblanks
    refine ⟨m, by omega, ⟨hm, fun _ => hsolid,
      .inr (.inl (hblanks (m - 1) (by omega) (by omega)))⟩, ?_, ?_⟩
    · rw [hstarts, List.length_append, List.length_singleton]
    · rw [tokens_step (by omega) hne hcount hskip (by omega), hcutj, if_pos (l.ne_zero j hj), hskip',
        Option.bind_some, hstarts, cut_block _ hblock hj]
  · subst hj
    have hstarts := startsBelow_of_block hblock le_rfl fun k hjk hkm => absurd hkm (not_lt.mpr hjk)
    refine ⟨l.len, hij, ready_len l, ?_, ?_⟩
    · rw [hstarts, List.length_append, List.length_singleton]
    · rw [tokens_step (by omega) hne hcount hskip (by omega), hcutj,
        if_neg (not_not.mpr l.terminator), hstarts, cut_last _ hblock]

theorem tokens_eq (fuel : Nat) (hr : Ready l i) (hcount : (startsBelow l i).length ≤ 16)
    (hfuel : l.len - i < fuel) : tokens (l.len + 1) fuel (cut l (startsBelow l i)) i (startsBelow l i) =
      some ((starts l).take 16, cut l ((starts l).take 16)) := by
  induction fuel generalizing i with
  | zero => exact absurd hfuel (Nat.not_lt_zero _)
  | succ fuel ih =>
    obtain hlt | rfl := hr.le.lt_or_eq
    · obtain hcount | hfull := hcount.lt_or_eq
      · obtain ⟨m, him, hm, hlen, heq⟩ := tokens_round fuel hr hlt hcount
        rw [heq]
        exact ih hm (by omega) (by omega)
      · rw [startsBelow_take hr.le hfull]
        exact tokens_done (by omega) (.inr hfull)
    · rw [starts, List.take_of_length_le hcount]
      refine tokens_done (Nat.lt_succ_self _) (.inl ?_)
      rw [hr.cut_eq le_rfl, l.terminator]

theorem tokenize_eq (l : Line) :
    tokenize (l.len + 1) l.bytes = some ((starts l).take 16, cut l ((starts l).take 16)) := by
  obtain ⟨i, hskip, -, hi, hsolid, hbefore⟩ := skipBlanks_eq (Nat.zero_le l.len) fun m _ => rfl
  have hnone : startsBelow l i = [] :=
    startsBelow_eq_of_none (Nat.zero_le i) fun m _ hm hi hblock =>
      hblock.solid m hblock.nonempty le_rfl (hbefore m (Nat.zero_le m) hm)
  have hleft : i = 0 ∨ Blank (l.bytes (i - 1)) ∨ i = l.len := by
    obtain rfl | hpos := Nat.eq_zero_or_pos i
    · exact .inl rfl
    · exact .inr (.inl (hbefore (i - 1) (Nat.zero_le _) (by omega)))
  have hrun := tokens_eq (l.len + 1 + 1) ⟨hi, fun _ => hsolid, hleft⟩ (by rw [hnone]; decide) (by omega)
  rw [hnone, cut_nil] at hrun
  rw [tokenize, hskip]
  exact hrun

-- "ls  a\t" has two tokens, each with a terminator behind it.
example : (tokenize 7 fun i => [108, 115, 32, 32, 97, 9].getD i 0).map
    (fun r => (r.1, (List.range 7).map r.2)) = some ([0, 4], [108, 115, 0, 32, 97, 0, 0]) := by
  decide +kernel

theorem cut_ne {result : List Nat} (hne : cut l result m ≠ l.bytes m) :
    m < l.len ∧ Blank (l.bytes m) ∧ cut l result m = 0 := by
  by_cases hcond : m < l.len ∧ ∃ lo ∈ result, Block l lo m
  · have ⟨hm, lo, _, hblock⟩ := hcond
    exact ⟨hm, hblock.right.resolve_left hm.ne, if_pos hcond⟩
  · exact absurd (if_neg hcond) hne

theorem cut_inside {result : List Nat} (h : Block l lo hi) (hlo : lo ≤ m) (hm : m < hi) :
    cut l result m = l.bytes m := by
  by_contra hne
  exact h.solid m hm hlo (cut_ne hne).2.1

theorem cut_end {result : List Nat} (h : Block l lo hi) (hlo : lo ∈ result) : cut l result hi = 0 := by
  obtain hlt | rfl := h.inside.lt_or_eq
  · exact if_pos ⟨hlt, lo, hlo, h⟩
  · exact (if_neg fun hcond => lt_irrefl _ hcond.1).trans l.terminator

theorem text_cut {result : List Nat} (h : Block l lo hi) (hlo : lo ∈ result) :
    text (l.len + 1) (cut l result) lo = chars l lo hi := by
  have hlen : (chars l lo hi).length = hi - lo := by simp [chars]
  have hsum : lo + (hi - lo) = hi := Nat.add_sub_cancel' h.nonempty.le
  have hinside := h.inside
  apply text_eq
  · omega
  · intro k hk
    have hget : (chars l lo hi).getD k 0 = l.bytes (lo + k) := by
      rw [List.getD_eq_getElem _ _ hk]
      simp [chars]
    rw [hget, cut_inside h (Nat.le_add_right lo k) (by omega)]
  · intro hzero
    obtain ⟨k, hk, hbyte⟩ := List.mem_map.mp hzero
    rw [List.mem_range'_1] at hk
    exact l.ne_zero k (by omega) hbyte
  · rw [hlen, hsum]
    exact cut_end h hlo

theorem tokenize_correct (l : Line) :
    ∃ result after, tokenize (l.len + 1) l.bytes = some (result, after) ∧ Tokenized l result after := by
  refine ⟨_, _, tokenize_eq l, rfl, ?_, fun m hne => cut_ne hne⟩
  intro lo hlo
  obtain ⟨-, hi, hblock⟩ := mem_startsBelow.mp (List.mem_of_mem_take hlo)
  refine ⟨hi, hblock, text_cut hblock hlo, ?_, cut_end hblock hlo⟩
  intro m hlom hm
  rw [cut_inside hblock hlom hm]
  exact l.ne_zero m (hm.trans_le hblock.inside)

end DeltaOS.Tokenizer
