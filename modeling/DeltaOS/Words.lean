import DeltaOS.CStringOps
import DeltaOS.Tokenizer

namespace DeltaOS.Words

open CStrings Tokenizer

def words (line : List Byte) : List (List Byte) :=
  (line.splitOnP fun c => decide (Blank c)).filter (· ≠ [])

variable {w rest : List Byte} {c : Byte}

theorem words_blank (hc : Blank c) : words (c :: rest) = words rest := by
  rw [words, List.splitOnP_cons_eq_if_modifyHead, if_pos (decide_eq_true hc),
    List.filter_cons_of_neg (by simp)]
  rfl

theorem words_blanks {blanks : List Byte} (h : ∀ c ∈ blanks, Blank c) :
    words (blanks ++ rest) = words rest := by
  induction blanks with
  | nil => rfl
  | cons c blanks ih =>
    rw [List.cons_append, words_blank (h c List.mem_cons_self)]
    exact ih fun c hc => h c (List.mem_cons_of_mem _ hc)

theorem words_solid (hne : w ≠ []) (hw : ∀ c ∈ w, ¬Blank c) : words w = [w] := by
  rw [words, List.splitOnP_eq_singleton (by simpa using hw),
    List.filter_cons_of_pos (by simpa using hne)]
  rfl

theorem words_append (hne : w ≠ []) (hw : ∀ c ∈ w, ¬Blank c) (hc : Blank c) :
    words (w ++ c :: rest) = w :: words rest := by
  rw [words, List.splitOnP_append_cons_of_forall_mem (by simpa using hw) c (decide_eq_true hc),
    List.filter_cons_of_pos (by simpa using hne)]
  rfl

theorem ne_nil_of_mem_words {line : List Byte} (h : w ∈ words line) : w ≠ [] := by
  simpa using (List.mem_filter.mp h).2

section blocks

variable {l : Line} {i j lo hi m : Nat}

def suffix (l : Line) (i : Nat) : List Byte := chars l i l.len

def word (l : Line) (lo : Nat) : List Byte := (suffix l lo).takeWhile fun c => !decide (Blank c)

def startsFrom (l : Line) (i : Nat) : List Nat :=
  (List.range' i (l.len - i)).filter fun lo => ∃ hi < l.len + 1, Block l lo hi

theorem mem_chars : c ∈ chars l lo hi ↔ ∃ m, lo ≤ m ∧ m < hi ∧ l.bytes m = c := by
  rw [chars, List.mem_map]
  refine ⟨?_, ?_⟩
  · rintro ⟨m, hm, rfl⟩
    rw [List.mem_range'_1] at hm
    exact ⟨m, hm.1, by omega, rfl⟩
  · rintro ⟨m, hlo, hhi, rfl⟩
    exact ⟨m, List.mem_range'_1.mpr ⟨hlo, by omega⟩, rfl⟩

theorem chars_append (hij : i ≤ j) (hjm : j ≤ m) : chars l i m = chars l i j ++ chars l j m := by
  rw [chars, chars, chars, ← List.map_append]
  congr 1
  rw [show m - i = (j - i) + (m - j) by omega, ← List.range'_append_1, show i + (j - i) = j by omega]

theorem chars_succ (hij : i < j) : chars l i j = l.bytes i :: chars l (i + 1) j := by
  rw [chars, show j - i = (j - (i + 1)) + 1 by omega, List.range'_succ, List.map_cons]
  rfl

theorem chars_ne_nil (h : Block l lo hi) : chars l lo hi ≠ [] := by
  rw [chars_succ h.nonempty]
  exact List.cons_ne_nil _ _

theorem not_blank_of_mem_chars (h : Block l lo hi) : ∀ c ∈ chars l lo hi, ¬Blank c := by
  intro c hc
  obtain ⟨m, hlo, hhi, rfl⟩ := mem_chars.mp hc
  exact h.solid m hhi hlo

theorem chars_self (l : Line) (i : Nat) : chars l i i = [] := by
  rw [chars, Nat.sub_self]
  rfl

theorem word_eq (h : Block l lo hi) : word l lo = chars l lo hi := by
  have hsolid : ∀ c ∈ chars l lo hi, (!decide (Blank c)) = true :=
    by simpa using not_blank_of_mem_chars h
  rw [word, suffix, chars_append h.nonempty.le h.inside, List.takeWhile_append_of_pos hsolid]
  -- behind the block there is a blank or nothing
  obtain hlt | rfl := h.inside.lt_or_eq
  · have hblank := h.right.resolve_left hlt.ne
    rw [chars_succ hlt, List.takeWhile_cons_of_neg (by simpa using hblank), List.append_nil]
  · rw [chars_self, List.takeWhile_nil, List.append_nil]

theorem startsBelow_append (hij : i ≤ l.len) : starts l = startsBelow l i ++ startsFrom l i := by
  rw [starts, startsBelow, startsBelow, startsFrom, ← List.filter_append, List.range_eq_range',
    List.range_eq_range']
  congr 1
  rw [show l.len = i + (l.len - i)
    by omega, ← List.range'_append_1, Nat.zero_add, Nat.add_sub_cancel_left]

theorem startsFrom_len (l : Line) : startsFrom l l.len = [] := by
  rw [startsFrom, Nat.sub_self]
  rfl

theorem startsFrom_of_block (h : Block l i j) (hle : j ≤ m) (hm : m ≤ l.len)
    (hblank : ∀ k, j ≤ k → k < m → Blank (l.bytes k)) : startsFrom l i = i :: startsFrom l m := by
  have hi : i ≤ l.len := h.nonempty.le.trans h.inside
  have hsplit := (startsBelow_append hi).symm.trans (startsBelow_append hm)
  rw [startsBelow_of_block h hle hblank, List.append_assoc] at hsplit
  exact List.append_cancel_left hsplit

theorem map_startsFrom (hr : Ready l i) : (startsFrom l i).map (word l) = words (suffix l i) := by
  induction hn : l.len - i using Nat.strong_induction_on generalizing i with
  | _ n ih =>
    obtain hlt | rfl := hr.le.lt_or_eq
    · obtain ⟨j, -, hblock⟩ := skipToken_eq (b := l.bytes) hr hlt fun m _ => rfl
      have hij := hblock.nonempty
      have hne := chars_ne_nil hblock
      have hsolid := not_blank_of_mem_chars hblock
      obtain hj | rfl := hblock.inside.lt_or_eq
      · obtain ⟨m, -, hjm, hm, hmsolid, hblanks⟩ :=
          skipBlanks_eq (b := l.bytes) hblock.inside fun m _ => rfl
        have hbj : Blank (l.bytes j) := hblock.right.resolve_left hj.ne
        have hne' : j ≠ m := by
          rintro rfl
          exact hmsolid hbj
        have hready : Ready l m := ⟨hm, fun _ => hmsolid,
          .inr (.inl (hblanks (m - 1) (by omega) (by omega)))⟩
        have hrest : words (chars l (j + 1) m ++ suffix l m) = words (suffix l m) := by
          refine words_blanks fun c hc => ?_
          obtain ⟨k, hk, hkm, rfl⟩ := mem_chars.mp hc
          exact hblanks k (by omega) hkm
        have hsuffix : suffix l i = chars l i j ++ l.bytes j :: (chars l (j + 1) m ++ suffix l m) := by
          rw [suffix, suffix, ← chars_append (by omega) hm, ← chars_succ hj,
            ← chars_append hij.le hblock.inside]
        rw [startsFrom_of_block hblock hjm hm hblanks, List.map_cons, word_eq hblock,
          ih _ (by omega) hready rfl, hsuffix, words_append hne hsolid hbj, hrest]
      · rw [startsFrom_of_block hblock (Nat.le_refl _) (Nat.le_refl _) fun k hk hk' =>
          absurd hk' (not_lt.mpr hk),
          startsFrom_len, suffix, words_solid hne hsolid, List.map_singleton, word_eq hblock]
    · rw [startsFrom_len, suffix, chars_self]
      rfl

theorem map_starts (l : Line) : (starts l).map (word l) = words (suffix l 0) := by
  obtain ⟨i, -, -, hi, hsolid, hblanks⟩ :=
    skipBlanks_eq (b := l.bytes) (Nat.zero_le l.len) fun m _ => rfl
  have hleft : i = 0 ∨ Blank (l.bytes (i - 1)) ∨ i = l.len := by
    obtain rfl | hpos := Nat.eq_zero_or_pos i
    · exact .inl rfl
    · exact .inr (.inl (hblanks (i - 1) (Nat.zero_le _) (by omega)))
  have hnone : startsBelow l i = [] :=
    startsBelow_eq_of_none (Nat.zero_le i) fun m _ hm hi hblock =>
      hblock.solid m hblock.nonempty le_rfl (hblanks m (Nat.zero_le m) hm)
  have hskip : words (chars l 0 i ++ suffix l i) = words (suffix l i) := by
    refine words_blanks fun c hc => ?_
    obtain ⟨k, hk, hki, rfl⟩ := mem_chars.mp hc
    exact hblanks k hk hki
  rw [startsBelow_append hi, hnone, List.nil_append, map_startsFrom ⟨hi, fun _ => hsolid, hleft⟩,
    suffix, suffix, chars_append (Nat.zero_le i) hi]
  exact hskip.symm

end blocks

section larger

variable {α β : Type} {n n' fuel fuel' : Nat} {b : Buffer}

theorem mem_bind_of_le {x x' : Option α} {f f' : α → Option β} (hx : ∀ a ∈ x, a ∈ x')
    (hf : ∀ a, ∀ c ∈ f a, c ∈ f' a) : ∀ c ∈ x.bind f, c ∈ x'.bind f' := by
  intro c hc
  obtain ⟨a, ha, hfa⟩ := Option.bind_eq_some_iff.mp hc
  exact Option.bind_eq_some_iff.mpr ⟨a, hx a ha, hf a c hfa⟩

theorem load_of_le (hn : n ≤ n') (i : Nat) : ∀ c ∈ load n b i, c ∈ load n' b i := by
  intro c hc
  obtain ⟨hi, hc⟩ := Option.ite_none_right_eq_some.mp hc
  exact (load_eq (hi.trans_le hn)).trans hc

theorem store_of_le (hn : n ≤ n') (i : Nat) (c : Byte) : ∀ b' ∈ store n b i c, b' ∈ store n' b i c := by
  intro b' hb
  obtain ⟨hi, hb⟩ := Option.ite_none_right_eq_some.mp hb
  exact (store_eq (hi.trans_le hn)).trans hb

theorem scan_of_le (stop : Byte → Bool) (hn : n ≤ n') (hfuel : fuel ≤ fuel') (i : Nat) :
    ∀ j ∈ scan stop n b fuel i, j ∈ scan stop n' b fuel' i := by
  induction fuel generalizing fuel' i with
  | zero => exact fun j hj => by cases hj
  | succ fuel ih =>
    obtain ⟨fuel', rfl⟩ := Nat.exists_eq_succ_of_ne_zero (Nat.ne_zero_of_lt hfuel)
    refine mem_bind_of_le (load_of_le hn i) fun c j hj => ?_
    split_ifs at hj ⊢
    · exact hj
    · exact ih (Nat.le_of_succ_le_succ hfuel) (i + 1) j hj

theorem tokens_of_le (hn : n ≤ n') (hfuel : fuel ≤ fuel') (b : Buffer) (i : Nat) (result : List Nat) :
    ∀ r ∈ tokens n fuel b i result, r ∈ tokens n' fuel' b i result := by
  induction fuel generalizing fuel' b i result with
  | zero => exact fun r hr => by cases hr
  | succ fuel ih =>
    obtain ⟨fuel', rfl⟩ := Nat.exists_eq_succ_of_ne_zero (Nat.ne_zero_of_lt hfuel)
    have ih := fun b i result => ih (Nat.le_of_succ_le_succ hfuel) b i result
    refine mem_bind_of_le (load_of_le hn i) fun c r hr => ?_
    split_ifs at hr ⊢
    · refine mem_bind_of_le (scan_of_le _ hn hn i) (fun j r hr => ?_) r hr
      refine mem_bind_of_le (load_of_le hn j) (fun c r hr => ?_) r hr
      split_ifs at hr ⊢
      · refine mem_bind_of_le (store_of_le hn j 0) (fun b r hr => ?_) r hr
        exact mem_bind_of_le (scan_of_le _ hn hn (j + 1)) (fun m => ih b m _) r hr
      · exact ih b j _ r hr
    · exact hr

theorem tokenize_of_le (hn : n ≤ n') (b : Buffer) : ∀ r ∈ tokenize n b, r ∈ tokenize n' b :=
  mem_bind_of_le (scan_of_le _ hn hn 0) fun i => tokens_of_le hn (Nat.succ_le_succ hn) b i []

end larger

section lines

variable {n : Nat} {b : Buffer} {line : List Byte}

theorem char_eq (h : Str.Is ⟨n, b, 0⟩ line) {i : Nat} (hi : i ≤ line.length) : b i = line.getD i 0 := by
  have hchar := h.at hi
  rwa [Nat.zero_add] at hchar

def lineOf (h : Str.Is ⟨n, b, 0⟩ line) : Line where
  bytes := b
  len := line.length
  ne_zero _ hi hzero := hi.ne ((h.getD_eq_zero_iff hi.le).mp ((char_eq h hi.le).symm.trans hzero))
  terminator := (char_eq h (Nat.le_refl _)).trans ((h.getD_eq_zero_iff (Nat.le_refl _)).mpr rfl)

theorem suffix_lineOf (h : Str.Is ⟨n, b, 0⟩ line) : suffix (lineOf h) 0 = line := by
  refine List.ext_getElem (by simp [suffix, chars, lineOf]) fun i hi hi' => ?_
  have hchar := char_eq h hi'.le
  rw [List.getD_eq_getElem _ _ hi'] at hchar
  simpa [suffix, chars, lineOf] using hchar

theorem tokenize_words (h : Str.Is ⟨n, b, 0⟩ line) :
    ∃ result after, tokenize n b = some (result, after) ∧
      List.Forall₂ (fun lo w => Str.Is ⟨n, after, lo⟩ w) result ((words line).take 16) := by
  have hfits : line.length + 1 ≤ n := by
    have hfits := h.fits
    rwa [Nat.zero_add] at hfits
  have hrun := tokenize_of_le hfits b _ (tokenize_eq (lineOf h))
  refine ⟨_, _, hrun, ?_⟩
  have hwords := congrArg (List.take 16) (map_starts (lineOf h))
  rw [suffix_lineOf, ← List.map_take] at hwords
  rw [← hwords, List.forall₂_map_right_iff, List.forall₂_same]
  intro lo hlo
  obtain ⟨-, hi, hblock⟩ := mem_startsBelow.mp (List.mem_of_mem_take hlo)
  have hlen : (chars (lineOf h) lo hi).length = hi - lo := by simp [chars]
  have hsum : lo + (hi - lo) = hi := Nat.add_sub_cancel' hblock.nonempty.le
  have hinside : hi ≤ line.length := hblock.inside
  rw [word_eq hblock]
  refine ⟨?_, ?_, ?_, ?_⟩
  · rw [hlen]
    change lo + (hi - lo) < n
    omega
  · intro i hi'
    rw [List.getD_eq_getElem _ _ hi']
    rw [hlen] at hi'
    change Tokenizer.cut (lineOf h) _ (lo + i) = _
    rw [cut_inside hblock (Nat.le_add_right lo i) (by omega)]
    simp [chars]
  · rw [hlen]
    change Tokenizer.cut (lineOf h) _ (lo + (hi - lo)) = 0
    rw [hsum]
    exact cut_end hblock hlo
  · intro hzero
    obtain ⟨m, -, hm, hbyte⟩ := mem_chars.mp hzero
    exact (lineOf h).ne_zero m (hm.trans_le hinside) hbyte

end lines

end DeltaOS.Words
