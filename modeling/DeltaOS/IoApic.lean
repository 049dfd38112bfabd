import DeltaOS.Acpi

namespace DeltaOS.IoApic

open Overflow Acpi

/-- The IO APIC behind its two memory-mapped words: one selects a register, the other one is its
value. -/
structure Device where
  selected : Nat
  registers : Nat → BitVec 32

def regVersion : Nat := 0x01

def regRedirect : Nat := 0x10

def redirectMasked : BitVec 64 := 1 <<< 16

def redirectLevel : BitVec 64 := 1 <<< 15

def keyboardVector : BitVec 8 := 0x21

def lapicTimerVector : BitVec 8 := 0x20

namespace Device

def select (d : Device) (register : Nat) : Device := { d with selected := register }

def data (d : Device) : BitVec 32 := d.registers d.selected

def setData (d : Device) (value : BitVec 32) : Device :=
  { d with registers := Function.update d.registers d.selected value }

def read (d : Device) (register : Nat) : BitVec 32 × Device :=
  let d := d.select register
  (d.data, d)

def write (d : Device) (register : Nat) (value : BitVec 32) : Device := (d.select register).setData value

def writeRedirect (d : Device) (entry : BitVec 8) (value : BitVec 64) : Device :=
  let reg := regRedirect + entry.toNat * 2
  let d := d.write reg (value.setWidth 32)
  d.write (reg + 1) ((value >>> 32).setWidth 32)

def redirectValue (vector : BitVec 8) (levelTriggered : Bool) : BitVec 64 :=
  let entry := vector.setWidth 64
  if levelTriggered then entry ||| redirectLevel else entry

def setupIrq (d : Device) (irq vector : BitVec 8) (levelTriggered : Bool) : Device :=
  d.writeRedirect irq (redirectValue vector levelTriggered)

def maxEntries (version : BitVec 32) : Nat := ((version >>> 16) &&& 0xFF).toNat + 1

def maskAll (d : Device) (n : Nat) : Device :=
  (List.range n).foldl (fun d i => d.writeRedirect (BitVec.ofNat 8 i) redirectMasked) d

/-- What an override does in `init`: only those of IRQ 0 are looked at. -/
def route (d : Device) (o : IntOverride) : Device :=
  if o.irqSource = 0 then
    d.setupIrq (BitVec.ofNat 8 o.globalSystemInterrupt) lapicTimerVector (o.flags &&& 0x0A != 0)
  else d

/-- A round of the loop over the overrides, with a panic at an index behind the array. -/
def routeAt (info : AcpiInfo) (d : Device) (i : Nat) : Option Device := info.intOverrides[i]?.map d.route

def init (info : AcpiInfo) (d : Device) : Option Device :=
  if info.ioApicAddress = 0 then
    some d
  else
    let (version, d) := d.read regVersion
    let d := d.maskAll (maxEntries version)
    let d := d.setupIrq 1 keyboardVector false
    (List.range info.intOverrideCount).foldlM (routeAt info) d

def entry (d : Device) (pin : Nat) : BitVec 64 :=
  (d.registers (regRedirect + pin * 2 + 1)).setWidth 64 <<< 32 |||
    (d.registers (regRedirect + pin * 2)).setWidth 64

def pins (d : Device) : Nat := maxEntries (d.registers regVersion)

end Device

open Device

def Masked (e : BitVec 64) : Prop := e &&& redirectMasked ≠ 0

structure Unmasked (vector : BitVec 8) (e : BitVec 64) : Prop where
  mask : e &&& redirectMasked = 0
  vector : e.setWidth 8 = vector

variable (info : AcpiInfo)

def overrides : List IntOverride := info.intOverrides.toList.take info.intOverrideCount

def Overridden (irq : Nat) : Prop := ∃ o ∈ overrides info, o.irqSource = irq

def gsi (irq : Nat) : Nat := ((overrides info).find? (·.irqSource = irq)).elim irq
    (·.globalSystemInterrupt)

/-- The interrupts arrive as the firmware describes them: the keyboard's at its pin, the timer's at
its pin when it has an override, and no others. -/
structure Routed (d : Device) : Prop where
  keyboard : ∃ pin < d.pins, info.ioApicGsiBase + pin = gsi info 1 ∧
    Unmasked keyboardVector (d.entry pin)
  timer : Overridden info 0 →
    ∃ pin < d.pins, info.ioApicGsiBase + pin = gsi info 0 ∧ Unmasked lapicTimerVector (d.entry pin)
  others : ∀ pin < d.pins, info.ioApicGsiBase + pin ≠ gsi info 1 →
    (Overridden info 0 → info.ioApicGsiBase + pin ≠ gsi info 0) → Masked (d.entry pin)

def Takes (pin : Nat) (o : IntOverride) : Prop := o.irqSource = 0 ∧ o.globalSystemInterrupt % 256 = pin

def TimerPin (pin : Nat) : Prop := ∃ o ∈ overrides info, Takes pin o

/-- The firmware describes what `init` assumes: the keyboard is at pin 1, and of the pins given to the
timer only that of its interrupt exists. -/
structure Assumed (n : Nat) : Prop where
  keyboard : info.ioApicGsiBase + 1 = gsi info 1
  present : 1 < n
  apart : ¬TimerPin info 1
  timer : Overridden info 0 → ∃ pin < n, info.ioApicGsiBase + pin = gsi info 0 ∧ TimerPin info pin
  only : ∀ pin < n, TimerPin info pin → info.ioApicGsiBase + pin = gsi info 0

variable {info} {d : Device} {pin : Nat}

theorem halves_append (value : BitVec 64) :
    ((value >>> 32).setWidth 32).setWidth 64 <<< 32 ||| (value.setWidth 32).setWidth 64 = value := by
  ext i hi
  simp only [BitVec.getElem_or, BitVec.getElem_shiftLeft, BitVec.getElem_setWidth,
    BitVec.getLsbD_setWidth, BitVec.getLsbD_ushiftRight]
  by_cases hlow : i < 32
  · simp [hlow, BitVec.getLsbD_eq_getElem hi]
  · have hsum : 32 + (i - 32) = i := by omega
    have hhigh : i - 32 < 32 := by omega
    simp [hlow, hsum, hhigh, BitVec.getLsbD_eq_getElem hi]

theorem entry_writeRedirect (d : Device) (e : BitVec 8) (value : BitVec 64) :
    (d.writeRedirect e value).entry = Function.update d.entry e.toNat value := by
  funext pin
  obtain rfl | hne := eq_or_ne pin e.toNat
  · simp [Device.entry, writeRedirect, Device.write, select, setData, halves_append]
  · have hlow : regRedirect + pin * 2 ≠ regRedirect + e.toNat * 2 := by omega
    have hhigh : regRedirect + pin * 2 + 1 ≠ regRedirect + e.toNat * 2 := by omega
    have hlow' : regRedirect + pin * 2 ≠ regRedirect + e.toNat * 2 + 1 := by omega
    have hhigh' : regRedirect + pin * 2 + 1 ≠ regRedirect + e.toNat * 2 + 1 := by omega
    simp only [Device.entry, writeRedirect, Device.write, select, setData, Function.update_of_ne hne,
      Function.update_of_ne hlow, Function.update_of_ne hhigh, Function.update_of_ne hlow',
        Function.update_of_ne hhigh']

theorem pins_writeRedirect (d : Device) (e : BitVec 8) (value : BitVec 64) :
    (d.writeRedirect e value).pins = d.pins := by
  have hlow : regVersion ≠ regRedirect + e.toNat * 2 := by
    simp only [regVersion, regRedirect]
    omega
  have hhigh : regVersion ≠ regRedirect + e.toNat * 2 + 1 := by
    simp only [regVersion, regRedirect]
    omega
  simp only [pins, writeRedirect, Device.write, select, setData, Function.update_of_ne hlow,
    Function.update_of_ne hhigh]

theorem entry_maskAll {n : Nat} (hn : n ≤ 256) (hpin : pin < n) :
    (d.maskAll n).entry pin = redirectMasked := by
  induction n with
  | zero => exact absurd hpin (Nat.not_lt_zero pin)
  | succ n ih =>
    have hlast : (BitVec.ofNat 8 n).toNat = n := by
      rw [BitVec.toNat_ofNat]
      exact Nat.mod_eq_of_lt hn
    rw [maskAll, List.range_succ, List.foldl_append, List.foldl_cons, List.foldl_nil,
      entry_writeRedirect, hlast]
    obtain rfl | hne := eq_or_ne pin n
    · rw [Function.update_self]
    · rw [Function.update_of_ne hne]
      exact ih (by omega) (by omega)

theorem pins_maskAll (d : Device) (n : Nat) : (d.maskAll n).pins = d.pins := by
  induction n with
  | zero => rfl
  | succ n ih =>
    rw [maskAll, List.range_succ, List.foldl_append, List.foldl_cons, List.foldl_nil, pins_writeRedirect]
    exact ih

theorem pins_le (d : Device) : d.pins ≤ 256 := by
  have hlt : ((d.registers regVersion >>> 16) &&& 0xFF).toNat ≤ 255 := by
    rw [BitVec.toNat_and]
    exact Nat.and_le_right
  rw [pins, maxEntries]
  omega

theorem pins_route (d : Device) (o : IntOverride) : (d.route o).pins = d.pins := by
  rw [route]
  split
  · exact pins_writeRedirect ..
  · rfl

theorem unmasked_redirectValue (levelTriggered : Bool) :
    Unmasked lapicTimerVector (redirectValue lapicTimerVector levelTriggered) := by
  cases levelTriggered <;> exact ⟨by decide, by decide⟩

theorem entry_route_of_takes {o : IntOverride} (h : Takes pin o) :
    Unmasked lapicTimerVector ((d.route o).entry pin) := by
  obtain ⟨hirq, rfl⟩ := h
  rw [route, if_pos hirq, setupIrq, entry_writeRedirect, BitVec.toNat_ofNat, Function.update_self]
  exact unmasked_redirectValue _

theorem entry_route_of_not {o : IntOverride} (h : ¬Takes pin o) :
    (d.route o).entry pin = d.entry pin := by
  rw [route]
  split
  case isTrue hirq =>
    have hne : pin ≠ o.globalSystemInterrupt % 256 := fun hpin => h ⟨hirq, hpin.symm⟩
    rw [setupIrq, entry_writeRedirect, BitVec.toNat_ofNat, Function.update_of_ne hne]
  case isFalse => rfl

variable {os : List IntOverride}

theorem entry_routes_of_not (h : ∀ o ∈ os, ¬Takes pin o) :
    (os.foldl route d).entry pin = d.entry pin := by
  induction os generalizing d with
  | nil => rfl
  | cons o os ih =>
    rw [List.foldl_cons, ih fun o' ho' => h o' (List.mem_cons_of_mem o ho'),
      entry_route_of_not (h o List.mem_cons_self)]

theorem entry_routes_of_takes (h : ∃ o ∈ os, Takes pin o) :
    Unmasked lapicTimerVector ((os.foldl route d).entry pin) := by
  induction os generalizing d with
  | nil =>
    obtain ⟨o, ho, -⟩ := h
    cases ho
  | cons o os ih =>
    rw [List.foldl_cons]
    -- A later override may take the same pin; otherwise the entry stays as this one leaves it.
    by_cases hlater : ∃ o' ∈ os, Takes pin o'
    · exact ih hlater
    · rw [entry_routes_of_not fun o' ho' htakes => hlater ⟨o', ho', htakes⟩]
      obtain ⟨o', ho', htakes⟩ := h
      obtain rfl | ho' := List.mem_cons.mp ho'
      · exact entry_route_of_takes htakes
      · exact absurd ⟨o', ho', htakes⟩ hlater

theorem pins_routes (os : List IntOverride) (d : Device) : (os.foldl route d).pins = d.pins := by
  induction os generalizing d with
  | nil => rfl
  | cons o os ih => rw [List.foldl_cons, ih, pins_route]

theorem foldlM_routeAt (h : info.intOverrideCount ≤ 16) :
    (List.range info.intOverrideCount).foldlM (routeAt info) d =
      some ((overrides info).foldl route d) := by
  rw [List.range_eq_range', overrides]
  refine foldlM_range' (fun k => (info.intOverrides.toList.take k).foldl route d) rfl fun i hi => ?_
  have hlt : i < info.intOverrides.toList.length := by
    rw [Vector.length_toList]
    omega
  have hread : info.intOverrides[i]? = some info.intOverrides.toList[i] := by
    rw [← Vector.getElem?_toList, List.getElem?_eq_getElem hlt]
  rw [Nat.zero_add, routeAt, hread, List.take_succ_eq_append_getElem hlt, List.foldl_append]
  rfl

def prepared (d : Device) : Device :=
  ((d.read regVersion).2.maskAll d.pins).setupIrq 1 keyboardVector false

theorem init_eq (haddr : info.ioApicAddress ≠ 0) (hcount : info.intOverrideCount ≤ 16) :
    init info d = some ((overrides info).foldl route (prepared d)) := by
  rw [init, if_neg haddr]
  exact foldlM_routeAt hcount

theorem entry_prepared_one (d : Device) : (prepared d).entry 1 = redirectValue keyboardVector false := by
  rw [prepared, setupIrq, entry_writeRedirect]
  exact Function.update_self ..

theorem entry_prepared_of_ne (hne : pin ≠ 1) (hpin : pin < d.pins) :
    (prepared d).entry pin = redirectMasked := by
  rw [prepared, setupIrq, entry_writeRedirect]
  exact (Function.update_of_ne hne ..).trans (entry_maskAll (pins_le d) hpin)

theorem pins_prepared (d : Device) : (prepared d).pins = d.pins := by
  rw [prepared, setupIrq, pins_writeRedirect, pins_maskAll]
  rfl

/-- What the entries of the pins are after `init`. -/
structure Outcome (info : AcpiInfo) (n : Nat) (d : Device) : Prop where
  pins : d.pins = n
  taken : ∀ pin, TimerPin info pin → Unmasked lapicTimerVector (d.entry pin)
  keyboard : ¬TimerPin info 1 → Unmasked keyboardVector (d.entry 1)
  others : ∀ pin < n, ¬TimerPin info pin → pin ≠ 1 → Masked (d.entry pin)

theorem outcome_init (haddr : info.ioApicAddress ≠ 0) (hcount : info.intOverrideCount ≤ 16) :
    ∃ d', init info d = some d' ∧ Outcome info d.pins d' := by
  have hsame {pin : Nat} (h : ¬TimerPin info pin) :
      ((overrides info).foldl route (prepared d)).entry pin = (prepared d).entry pin :=
    entry_routes_of_not fun o ho htakes => h ⟨o, ho, htakes⟩
  refine ⟨_, init_eq haddr hcount, ?_, fun pin => entry_routes_of_takes, fun h => ?_,
    fun pin hpin h hne => ?_⟩
  · rw [pins_routes, pins_prepared]
  · rw [hsame h, entry_prepared_one]
    exact ⟨by decide, by decide⟩
  · rw [hsame h, entry_prepared_of_ne hne hpin, Masked]
    decide

theorem Unmasked.not_masked {vector : BitVec 8} {e : BitVec 64} (h : Unmasked vector e) : ¬Masked e :=
  fun hm => hm h.mask

theorem Outcome.routed_iff {n : Nat} (h : Outcome info n d) : Routed info d ↔ Assumed info n := by
  obtain ⟨rfl, htaken, hkeyboard, hothers⟩ := h
  constructor
  · rintro ⟨⟨pin, hpin, hgsi, hkey⟩, htimer, hmasked⟩
    have hfree : ¬TimerPin info pin := by
      intro htimer
      have hvector := (htaken pin htimer).vector
      rw [hkey.vector] at hvector
      exact absurd hvector (by decide)
    obtain rfl : pin = 1 := by
      by_contra hne
      exact hkey.not_masked (hothers pin hpin hfree hne)
    refine ⟨hgsi, hpin, hfree, fun hover => ?_, fun p hp htaken' => ?_⟩
    · obtain ⟨p, hp, hgsi0, hvector⟩ := htimer hover
      refine ⟨p, hp, hgsi0, ?_⟩
      by_contra hnot
      obtain rfl | hne := eq_or_ne p 1
      · have hboth := hvector.vector
        rw [(hkeyboard hfree).vector] at hboth
        exact absurd hboth (by decide)
      · exact hvector.not_masked (hothers p hp hnot hne)
    · by_contra hne
      have hnot1 : p ≠ 1 := fun h1 => hfree (h1 ▸ htaken')
      exact (htaken p htaken').not_masked (hmasked p hp (by omega) fun _ => hne)
  · rintro ⟨hgsi, hpresent, hfree, htimer, honly⟩
    refine ⟨⟨1, hpresent, hgsi, hkeyboard hfree⟩, fun hover => ?_, fun pin hpin hne1 hne0 => ?_⟩
    · obtain ⟨pin, hpin, hgsi0, hpin'⟩ := htimer hover
      exact ⟨pin, hpin, hgsi0, htaken pin hpin'⟩
    · have hnot : ¬TimerPin info pin := by
        intro htimer
        obtain ⟨o, ho, hirq, -⟩ := id htimer
        exact hne0 ⟨o, ho, hirq⟩ (honly pin hpin htimer)
      refine hothers pin hpin hnot ?_
      rintro rfl
      exact hne1 hgsi

theorem assumed_of_routed {d' : Device} (haddr : info.ioApicAddress ≠ 0)
    (hcount : info.intOverrideCount ≤ 16)
    (hinit : init info d = some d') (hrouted : Routed info d') : Assumed info d.pins := by
  obtain ⟨d'', hd'', houtcome⟩ := outcome_init (d := d) haddr hcount
  obtain rfl : d'' = d' := Option.some.inj (hd''.symm.trans hinit)
  exact houtcome.routed_iff.mp hrouted

/-- After `init`, the interrupts arrive as the firmware describes them exactly when it describes what
`init` assumes. -/
theorem init_routes_iff (haddr : info.ioApicAddress ≠ 0) (hcount : info.intOverrideCount ≤ 16) :
    (∃ d', init info d = some d' ∧ Routed info d') ↔ Assumed info d.pins := by
  constructor
  · rintro ⟨d', hinit, hrouted⟩
    exact assumed_of_routed haddr hcount hinit hrouted
  · intro hassumed
    obtain ⟨d', hinit, houtcome⟩ := outcome_init haddr hcount
    exact ⟨d', hinit, houtcome.routed_iff.mpr hassumed⟩

instance (pin : Nat) : DecidablePred (Takes pin) := fun _ => inferInstanceAs (Decidable (_ ∧ _))

instance : DecidablePred (TimerPin info) :=
  fun _ => inferInstanceAs (Decidable (∃ o ∈ overrides info, _))

def chip : Device := ⟨0, fun register => if register = regVersion then 0x00170011 else 0⟩

/-- A machine whose firmware describes these overrides. -/
def machine (gsiBase : Nat) (first second : IntOverride) : AcpiInfo :=
  { AcpiInfo.new with
    ioApicGsiBase := gsiBase
    intOverrides := (AcpiInfo.new.intOverrides.set 0 first).set 1 second
    intOverrideCount := 2 }

def usual : AcpiInfo := machine 0 ⟨0, 0, 2, 0⟩ ⟨0, 9, 9, 0xD⟩

theorem usual_routed : Assumed usual chip.pins ∧ ∃ d', init usual chip = some d' ∧ Routed usual d' := by
  have hassumed : Assumed usual chip.pins :=
    ⟨by decide, by decide, by decide, fun _ => ⟨2, by decide, by decide, by decide⟩, by decide⟩
  exact ⟨hassumed, (init_routes_iff (by decide) (by decide)).mpr hassumed⟩

def movedKeyboard : AcpiInfo := machine 0 ⟨0, 0, 2, 0⟩ ⟨0, 1, 9, 0⟩

/-- The only IO APIC serves the interrupts from 24 on, the keyboard at its pin 1 and the timer at its
pin 2. -/
def highBase : AcpiInfo := machine 24 ⟨0, 0, 26, 0⟩ ⟨0, 1, 25, 0⟩

theorem overrides_ignored : (¬∃ d', init movedKeyboard chip = some d' ∧ Routed movedKeyboard d') ∧
    ¬∃ d', init highBase chip = some d' ∧ Routed highBase d' := by
  refine ⟨?_, ?_⟩
  · rintro ⟨d', hinit, hrouted⟩
    have hassumed := assumed_of_routed (by decide) (by decide) hinit hrouted
    exact absurd hassumed.keyboard (by decide)
  · rintro ⟨d', hinit, hrouted⟩
    have hassumed := assumed_of_routed (by decide) (by decide) hinit hrouted
    obtain ⟨pin, -, hgsi, htaken⟩ := hassumed.timer ⟨⟨0, 0, 26, 0⟩, by decide, rfl⟩
    obtain rfl : pin = 2 := Nat.add_left_cancel hgsi
    exact absurd htaken (by decide)

end DeltaOS.IoApic
