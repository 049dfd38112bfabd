import DeltaOS.CStrings
import DeltaOS.Overflow

namespace DeltaOS.PidText

open Overflow CStrings

/-- `'0' + d`. -/
def digitByte (d : Nat) : Byte := 48 + BitVec.ofNat 8 d

/-- The loop that writes the digits from the end of the buffer on; `room` is `i + 1`. -/
def putDigits : Nat → Buffer → Nat → Option (Nat × Buffer)
  | 0, buf, _ => some (0, buf)
  | room + 1, buf, p =>
    if p > 0 then do
      let buf ← store 16 buf room (digitByte (p % 10))
      putDigits room buf (p / 10)
    else
      some (room + 1, buf)

/-- A round of the loop that moves the digits to the front. The two copies differ in which cell they
clear. -/
def moveDigit (cleared shift : Nat) (buf : Buffer) (j : Nat) : Option Buffer := do
  let c ← load 16 buf (j + shift)
  let buf ← store 16 buf j c
  store 16 buf (j + shift + cleared) 0

def pidText (cleared pid : Nat) : Option Buffer :=
  let buf : Buffer := fun _ => 0
  if pid = 0 then
    store 16 buf 0 (digitByte 0)
  else do
    let (shift, buf) ← putDigits 15 buf pid
    (List.range (14 - shift)).foldlM (moveDigit cleared shift) buf

/-- The buffer `pid_buf` of `cmd_sysinfo`. -/
def sysinfoPid (pid : Nat) : Option Buffer := pidText 1 pid

/-- The buffer `pid_str` of `init_main`. -/
def initPid (pid : Nat) : Option Buffer := pidText 0 pid

def digits (p : Nat) : List Byte := (Nat.digits 10 p).reverse.map digitByte

def decimal (pid : Nat) : List Byte := if pid = 0 then [digitByte 0] else digits pid

/-- The conversion stays in the buffer and leaves the number in it, with a terminator. -/
def Renders (pid : Nat) (after : Option Buffer) : Prop :=
  ∃ buf, after = some buf ∧ text 16 buf 0 = decimal pid ∧ Terminated 16 buf 0

variable {pid p room shift : Nat} {buf : Buffer}

theorem digits_of_pos (hp : 0 < p) : digits p = digits (p / 10) ++ [digitByte (p % 10)] := by
  rw [digits, Nat.digits_def' (by decide) hp, List.reverse_cons, List.map_append]
  rfl

theorem zero_notMem_digits (p : Nat) : 0 ∉ digits p := by
  intro h
  obtain ⟨d, hd, hzero⟩ := List.mem_map.mp h
  have hlt : d < 10 := Nat.digits_lt_base (by decide) (List.mem_reverse.mp hd)
  have hne : ∀ d < 10, digitByte d ≠ 0 := by decide
  exact hne d hlt hzero

theorem length_digits (hp : p < 10 ^ 15) : (digits p).length ≤ 15 := by
  rw [digits, List.length_map, List.length_reverse]
  exact (Nat.digits_length_le_iff (by decide) p).mpr hp

theorem length_digits_pos (hp : 0 < p) : 0 < (digits p).length := by
  rw [digits_of_pos hp, List.length_append]
  exact Nat.succ_pos _

def placed (buf : Buffer) (start : Nat) (s : List Byte) : Buffer := fun q =>
  if start ≤ q ∧ q < start + s.length then s.getD (q - start) 0 else buf q

theorem placed_nil (buf : Buffer) (start : Nat) : placed buf start [] = buf := by
  funext q
  exact if_neg (by simp)

theorem placed_update (buf : Buffer) (start : Nat) (s : List Byte) (c : Byte) :
    placed (Function.update buf (start + s.length) c) start s = placed buf start (s ++ [c]) := by
  funext q
  simp only [placed, List.length_append, List.length_singleton]
  obtain rfl | hne := eq_or_ne q (start + s.length)
  · rw [if_neg (by omega), if_pos (by omega), Function.update_self, Nat.add_sub_cancel_left,
      List.getD_append_right _ _ _ _ (Nat.le_refl _), Nat.sub_self]
    rfl
  · by_cases hin : start ≤ q ∧ q < start + s.length
    · rw [if_pos hin, if_pos (by omega), List.getD_append _ _ _ _ (by omega)]
    · rw [if_neg hin, if_neg (by omega), Function.update_of_ne hne]

theorem putDigits_eq (hroom : room ≤ 15) (hlen : (digits p).length ≤ room) :
    putDigits room buf p = some (room - (digits p).length, placed buf (room - (digits p).length)
      (digits p)) := by
  have hzero : digits 0 = [] := rfl
  induction room generalizing buf p with
  | zero =>
    obtain rfl : p = 0 := by
      by_contra hne
      have := length_digits_pos (Nat.pos_of_ne_zero hne)
      omega
    rw [putDigits, hzero, placed_nil]
    rfl
  | succ room ih =>
    obtain rfl | hp := Nat.eq_zero_or_pos p
    · rw [putDigits, if_neg (Nat.lt_irrefl 0), hzero, placed_nil]
      rfl
    · have hlast := digits_of_pos hp
      have hlen' : (digits p).length = (digits (p / 10)).length + 1 := by
        rw [hlast, List.length_append, List.length_singleton]
      have hroom' : room = room - (digits (p / 10)).length + (digits (p / 10)).length := by omega
      rw [putDigits, if_pos hp, store_eq (by omega), Option.bind_eq_bind, Option.bind_some,
        ih (by omega) (by omega), hlen', Nat.add_sub_add_right, hlast, ← placed_update, ← hroom']

section moving

variable {b : Buffer} {k : Nat}

theorem moveDigit_eq {cleared j : Nat} (hcleared : cleared ≤ 1) (hj : j + shift < 15) :
    moveDigit cleared shift b j =
    some (Function.update (Function.update b j (b (j + shift))) (j + shift + cleared) 0) := by
  rw [moveDigit, load_eq (by omega), Option.bind_eq_bind, Option.bind_some, store_eq (by omega),
    Option.bind_eq_bind, Option.bind_some, store_eq (by omega)]

/-- The buffer after `k` rounds in `cmd_sysinfo`: the second digit has been cleared before it could be
moved. -/
def sysinfoMoved (b : Buffer) (shift k : Nat) : Buffer := fun q =>
  if q < k then if q = 0 then b shift else 0
  else if shift < q ∧ q < shift + 1 + k then 0 else b q

theorem sysinfoMoved_eq (hk : shift + k ≤ 14) :
    (List.range k).foldlM (moveDigit 1 shift) b = some (sysinfoMoved b shift k) := by
  rw [List.range_eq_range']
  refine foldlM_range' (sysinfoMoved b shift) ?_ fun j hj => ?_
  · funext q
    simp [sysinfoMoved]
  · have hread : sysinfoMoved b shift j (j + shift) = if j = 0 then b shift else 0 := by
      obtain rfl | hj0 := Nat.eq_zero_or_pos j
      · rw [sysinfoMoved, if_neg (by omega), if_neg (by omega), if_pos rfl, Nat.zero_add]
      · rw [sysinfoMoved, if_neg (by omega), if_pos (by omega), if_neg (by omega)]
    rw [Nat.zero_add, moveDigit_eq (by omega) (by omega), hread]
    congr 1
    funext q
    simp only [Function.update_apply, sysinfoMoved]
    split_ifs <;> first | rfl | omega

/-- The buffer after `k` rounds in `init_main`. -/
def initMoved (b : Buffer) (shift k : Nat) : Buffer := fun q =>
  if q < k then b (q + shift) else if shift ≤ q ∧ q < shift + k then 0 else b q

theorem initMoved_eq (hshift : 0 < shift) (hk : shift + k ≤ 14) :
    (List.range k).foldlM (moveDigit 0 shift) b = some (initMoved b shift k) := by
  rw [List.range_eq_range']
  refine foldlM_range' (initMoved b shift) ?_ fun j hj => ?_
  · funext q
    simp [initMoved]
  · have hread : initMoved b shift j (j + shift) = b (j + shift) := by
      rw [initMoved, if_neg (by omega), if_neg (by omega)]
    rw [Nat.zero_add, moveDigit_eq (by omega) (by omega), hread]
    congr 1
    funext q
    simp only [Function.update_apply, initMoved]
    split_ifs <;> first | rfl | omega | (congr 1; omega)

theorem initMoved_zero (hk : k ≤ 14) :
    (List.range k).foldlM (moveDigit 0 0) b = some fun q => if q < k then 0 else b q := by
  rw [List.range_eq_range']
  refine foldlM_range' (fun k q => if q < k then 0 else b q) ?_ fun j hj => ?_
  · funext q
    simp
  · rw [Nat.zero_add, moveDigit_eq (by omega) (by omega)]
    congr 1
    funext q
    simp only [Function.update_apply]
    split_ifs <;> first | rfl | omega

end moving

theorem pidText_eq (cleared : Nat) (hpos : pid ≠ 0) (hpid : pid < 10 ^ 15) : pidText cleared pid =
    (List.range ((digits pid).length - 1)).foldlM (moveDigit cleared (15 - (digits pid).length))
      (placed (fun _ => 0) (15 - (digits pid).length) (digits pid)) := by
  have hlen := length_digits hpid
  have hsome := length_digits_pos (Nat.pos_of_ne_zero hpos)
  have hrounds : 14 - (15 - (digits pid).length) = (digits pid).length - 1 := by omega
  rw [pidText, if_neg hpos, putDigits_eq (le_refl 15) hlen, Option.bind_eq_bind, Option.bind_some]
  dsimp only
  rw [hrounds]

section shown

variable {ds : List Byte}

theorem text_sysinfoMoved (hzero : 0 ∉ ds) (hpos : 0 < ds.length) (hlen : ds.length ≤ 15) :
    text 16 (sysinfoMoved (placed (fun _ => 0) (15 - ds.length) ds) (15 - ds.length) (ds.length - 1)) 0 =
      ds.take (min 1 (ds.length - 1)) := by
  have hlength : (ds.take (min 1 (ds.length - 1))).length = min 1 (ds.length - 1) := by
    rw [List.length_take]
    omega
  apply text_eq
  · rw [hlength]
    omega
  · intro i hi
    rw [hlength] at hi
    obtain rfl : i = 0 := by omega
    rw [sysinfoMoved, if_pos (by omega), if_pos rfl, placed, if_pos (by omega), Nat.sub_self,
      List.getD_eq_getElem?_getD, List.getD_eq_getElem?_getD, List.getElem?_take_of_lt hi]
  · exact fun hmem => hzero (List.mem_of_mem_take hmem)
  · rw [hlength, sysinfoMoved]
    simp only [placed]
    split_ifs <;> first | rfl | omega

theorem text_initMoved (hzero : 0 ∉ ds) (hpos : 0 < ds.length) (hlen : ds.length < 15) :
    text 16 (initMoved (placed (fun _ => 0) (15 - ds.length) ds) (15 - ds.length) (ds.length - 1)) 0 =
      ds.dropLast := by
  have hlength : ds.dropLast.length = ds.length - 1 := List.length_dropLast
  apply text_eq
  · rw [hlength]
    omega
  · intro i hi
    rw [hlength] at hi
    rw [Nat.zero_add, initMoved, if_pos hi, placed, if_pos (by omega), Nat.add_sub_cancel,
      List.getD_eq_getElem?_getD, List.getD_eq_getElem?_getD, List.dropLast_eq_take,
        List.getElem?_take_of_lt hi]
  · exact fun hmem => hzero (List.dropLast_subset ds hmem)
  · rw [hlength, initMoved]
    simp only [placed]
    split_ifs <;> first | rfl | omega

end shown

theorem sysinfoPid_text (hpos : pid ≠ 0) (hpid : pid < 10 ^ 15) : ∃ buf, sysinfoPid pid = some buf ∧
    text 16 buf 0 = (digits pid).take (min 1 ((digits pid).length - 1)) := by
  have hlen := length_digits hpid
  have hsome := length_digits_pos (Nat.pos_of_ne_zero hpos)
  refine ⟨_, ?_, text_sysinfoMoved (zero_notMem_digits pid) hsome hlen⟩
  rw [sysinfoPid, pidText_eq 1 hpos hpid, sysinfoMoved_eq (by omega)]

theorem initPid_text (hpos : pid ≠ 0) (hpid : pid < 10 ^ 15) : ∃ buf, initPid pid = some buf ∧
    text 16 buf 0 = if (digits pid).length = 15 then [] else (digits pid).dropLast := by
  have hlen := length_digits hpid
  have hsome := length_digits_pos (Nat.pos_of_ne_zero hpos)
  by_cases hfull : (digits pid).length = 15
  · refine ⟨_, by rw [initPid, pidText_eq 0 hpos hpid, hfull, initMoved_zero (by omega)], ?_⟩
    rw [if_pos hfull]
    exact text_of_zero (if_pos (by decide))
  · refine ⟨_, by rw [initPid, pidText_eq 0 hpos hpid, initMoved_eq (by omega) (by omega)], ?_⟩
    rw [if_neg hfull]
    exact text_initMoved (zero_notMem_digits pid) hsome (by omega)

theorem renders_zero (cleared : Nat) : Renders 0 (pidText cleared 0) := by
  refine ⟨Function.update (fun _ => 0) 0 (digitByte 0), rfl, ?_, 1, by decide, by decide, rfl⟩
  exact text_eq (by decide) (by decide) (by decide) rfl

theorem not_renders {buf : Buffer} (hpos : pid ≠ 0) (h : (text 16 buf 0).length < (digits pid).length) :
    ¬Renders pid (some buf) := by
  rintro ⟨buf', hbuf, htext, -⟩
  obtain rfl := Option.some.inj hbuf
  rw [htext, decimal, if_neg hpos] at h
  exact Nat.lt_irrefl _ h

/-- Both conversions stay in the buffer, and both leave the number in it only when the number is zero. -/
theorem pidText_renders_iff (hpid : pid < 10 ^ 15) :
    (sysinfoPid pid ≠ none ∧ initPid pid ≠ none) ∧
    (Renders pid (sysinfoPid pid) ↔ pid = 0) ∧ (Renders pid (initPid pid) ↔ pid = 0) := by
  obtain rfl | hpos := eq_or_ne pid 0
  · have hzero := renders_zero
    refine ⟨⟨?_, ?_⟩, iff_of_true (hzero 1) rfl, iff_of_true (hzero 0) rfl⟩
    · obtain ⟨buf, hbuf, -⟩ := hzero 1
      exact Option.ne_none_iff_exists'.mpr ⟨buf, hbuf⟩
    · obtain ⟨buf, hbuf, -⟩ := hzero 0
      exact Option.ne_none_iff_exists'.mpr ⟨buf, hbuf⟩
  · have hsome := length_digits_pos (Nat.pos_of_ne_zero hpos)
    obtain ⟨buf₁, hbuf₁, htext₁⟩ := sysinfoPid_text hpos hpid
    obtain ⟨buf₂, hbuf₂, htext₂⟩ := initPid_text hpos hpid
    rw [hbuf₁, hbuf₂]
    refine ⟨⟨by simp, by simp⟩, iff_of_false (not_renders hpos ?_) hpos,
      iff_of_false (not_renders hpos ?_) hpos⟩
    · rw [htext₁, List.length_take]
      omega
    · rw [htext₂]
      split
      · exact hsome
      · rw [List.length_dropLast]
        omega

theorem zero_rendered : Renders 0 (sysinfoPid 0) ∧ Renders 0 (initPid 0) := by
  obtain ⟨-, hsysinfo, hinit⟩ := pidText_renders_iff (by decide : 0 < 10 ^ 15)
  exact ⟨hsysinfo.mpr rfl, hinit.mpr rfl⟩

/-- Of 7 nothing is shown; of 123 `cmd_sysinfo` shows `1` and `init_main` shows `12`. -/
theorem pidText_cut : (sysinfoPid 7).map (text 16 · 0) = some [] ∧
    (initPid 7).map (text 16 · 0) = some [] ∧
    (sysinfoPid 123).map (text 16 · 0) = some [0x31] ∧ (initPid 123).map (text 16 · 0) =
      some [0x31, 0x32] ∧
    decimal 7 = [0x37] ∧ decimal 123 = [0x31, 0x32, 0x33] := by
  refine ⟨by decide, by decide, by decide, by decide, ?_, ?_⟩
  · simp [decimal, digits, digitByte]
  · simp [decimal, digits, digitByte]

end DeltaOS.PidText
