import DeltaOS.Interrupts
import DeltaOS.Runs

namespace DeltaOS.InterruptDispatch

open Kernel Keyboard Interrupts Runs

theorem setWidth_and_mask16 (a : Word) : (a &&& 0xFFFF).setWidth 16 = a.setWidth 16 := by
  rw [BitVec.setWidth_and]
  exact BitVec.and_allOnes

theorem setWidth_and_mask32 (a : Word) : (a &&& 0xFFFFFFFF).setWidth 32 = a.setWidth 32 := by
  rw [BitVec.setWidth_and]
  exact BitVec.and_allOnes

theorem append_offsets (a : Word) :
    (a >>> 32).setWidth 32 ++ (a >>> 16).setWidth 16 ++ a.setWidth 16 = a := by
  ext i hi
  simp only [BitVec.getElem_append, BitVec.getElem_setWidth, BitVec.getLsbD_ushiftRight]
  split_ifs with hlow hmiddle
  · exact BitVec.getLsbD_eq_getElem hi
  · rw [show 16 + (i - 16) = i by omega]
    exact BitVec.getLsbD_eq_getElem hi
  · rw [show 32 + (i - 16 - 16) = i by omega]
    exact BitVec.getLsbD_eq_getElem hi

variable {idt : Idt} {v w : Nat} {addr : Word} {attributes : BitVec 8} {image : Image}

theorem handler_setHandler (hv : v < idtEntries) (hpresent : attributes &&& idtPresent ≠ 0) :
    (setHandler idt v addr attributes v).handler = some addr := by
  rw [setHandler, if_neg (not_le.mpr hv), Function.update_self, IdtEntry.handler]
  dsimp only
  rw [if_neg hpresent, setWidth_and_mask16, setWidth_and_mask16, setWidth_and_mask32, append_offsets]

theorem setHandler_of_ne (h : w ≠ v) : setHandler idt v addr attributes w = idt w := by
  rw [setHandler]
  split
  · rfl
  · rw [Function.update_of_ne h]

theorem setStubs_succ (image : Image) (idt : Idt) (first count shift : Nat) :
    setStubs image idt first (count + 1) shift =
      setStubs image (setHandler idt first (image.addr (isrStubTable.getD (first - shift) .spuriousIsr))
        (idtPresent ||| idtInterruptGate ||| idtDplKernel)) (first + 1) count shift := rfl

theorem setStubs_outside {first count shift : Nat} (h : v < first ∨ first + count ≤ v) :
    setStubs image idt first count shift v = idt v := by
  induction count generalizing idt first with
  | zero => rfl
  | succ count ih => rw [setStubs_succ, ih (by omega), setHandler_of_ne (by omega)]

theorem handler_setStubs {first count shift : Nat} (hlo : first ≤ v) (hhi : v < first + count)
    (hv : v < idtEntries) : (setStubs image idt first count shift v).handler =
      some (image.addr (isrStubTable.getD (v - shift) .spuriousIsr)) := by
  induction count generalizing idt first with
  | zero => omega
  | succ count ih =>
    rw [setStubs_succ]
    obtain rfl | hne := eq_or_ne v first
    · rw [setStubs_outside (by omega), handler_setHandler hv (by decide)]
    · exact ih (by omega) (by omega)

theorem irq_eq_zero_iff {i : Interrupt} : i.irq = 0 ↔ i.vector = 32 := by
  rw [Interrupt.vector, Fin.ext_iff]
  exact Nat.left_eq_add.symm.trans eq_comm

theorem handler_init (image : Image) (i : Interrupt) : (init image i.vector).handler =
    some (image.addr (if i.irq = 0 then .timerIsr else .isr (Fin.ofNat 48 (i.vector - 1)))) := by
  have hirq := i.irq.isLt
  have hvector : i.vector = 32 + i.irq := rfl
  have hsyscall : i.vector ≠ 0x80 := by omega
  have hspurious : i.vector ≠ 0xFF := by omega
  rw [init, setHandler_of_ne hspurious, setHandler_of_ne hsyscall]
  split_ifs with hzero
  · rw [irq_eq_zero_iff.mp hzero, setStubs_outside (by omega),
      handler_setHandler (by decide) (by decide)]
  · have hpos : (i.irq : Nat) ≠ 0 := fun h => hzero (Fin.ext h)
    have hentries : i.vector < idtEntries := by
      rw [show idtEntries = 256 from rfl]
      omega
    have hstub : isrStubTable.getD (i.vector - 1) .spuriousIsr = .isr (Fin.ofNat 48 (i.vector - 1)) := by
      have hlt : i.vector - 1 < 48 := by omega
      have hmod : Fin.ofNat 48 (i.vector - 1) = ⟨i.vector - 1, hlt⟩ := Fin.ext (Nat.mod_eq_of_lt hlt)
      rw [isrStubTable, List.getD_append _ _ _ _ (by simpa using hlt), hmod]
      simp [hlt]
    rw [handler_setStubs (by omega) (by omega) hentries, hstub]

theorem deliver_eq (image : Image) (syscall : Devices → Devices) (d : Devices) (i : Interrupt) :
    deliver image syscall d i =
      if i.irq = 0 then (rustTimerHandler d i.savedStatePtr).map fun r => ⟨r.1, r.2, i.cpu⟩
      else (rustIsrHandler syscall d (i.vector - 1) i).map fun r => ⟨r.1, i.savedStatePtr, r.2⟩ := by
  have hlt : i.vector - 1 < 48 := by
    have hirq := i.irq.isLt
    rw [Interrupt.vector]
    omega
  rw [deliver, handler_init, Option.bind_some, image.stubAt_addr]
  split_ifs with hzero
  · rfl
  · change (rustIsrHandler syscall d ((i.vector - 1) % 48) i).map _ = _
    rw [Nat.mod_eq_of_lt hlt]

theorem rustIsrHandler_other (syscall : Devices → Devices) (d : Devices) (i : Interrupt) (h8 : v ≠ 8)
    (h32 : v ≠ 32) (h33 : v ≠ 33) (h128 : v ≠ 128) : rustIsrHandler syscall d v i = some (d, i.cpu) := by
  rw [rustIsrHandler]
  exacts [h8, h32, h33, h128]

theorem onTimerTick_eq {t : Timer} (h : t.timerHz ≠ 0) :
    ∃ t', onTimerTick t = some t' ∧ t'.timerHz = t.timerHz ∧ t'.tickCount = t.tickCount + 1 := by
  rw [onTimerTick, if_neg h]
  exact ⟨_, rfl, rfl, rfl⟩

/-- What an interrupt leaves of the tick counter and the keyboard. -/
structure Leaves (d d' : Devices) (ticks : Word) (keyboard : KeyboardState) : Prop where
  timerHz : d'.timer.timerHz = d.timer.timerHz
  tickCount : d'.timer.tickCount = d.timer.tickCount + ticks
  keyboard : d'.keyboard = keyboard

theorem rustTimerHandler_leaves {d : Devices} (h : d.timer.timerHz ≠ 0) (rsp : Word) :
    ∃ r, rustTimerHandler d rsp = some r ∧ Leaves d r.1 1 d.keyboard := by
  obtain ⟨t, ht, hhz, hticks⟩ := onTimerTick_eq h
  rw [rustTimerHandler, ht, Option.map_some]
  refine ⟨_, rfl, ?_⟩
  dsimp only
  split
  · exact ⟨hhz, hticks, rfl⟩
  · split <;> exact ⟨hhz, hticks, rfl⟩

theorem schedulerTick_leaves (d : Devices) (cpu : Tasks.SavedRegisters) :
    (schedulerTick d cpu).1.timer = d.timer ∧ (schedulerTick d cpu).1.keyboard = d.keyboard := by
  rw [schedulerTick]
  split <;> exact ⟨rfl, rfl⟩

/-- The timer and the keyboard both count as a tick, and it is the line after the keyboard's whose
interrupts read a scancode. -/
theorem deliver_leaves (image : Image) (syscall : Devices → Devices) {d : Devices}
    (h : d.timer.timerHz ≠ 0) (i : Interrupt) : ∃ o, deliver image syscall d i = some o ∧
      Leaves d o.devices (if i.vector = 32 ∨ i.vector = 33 then 1 else 0)
        (if i.vector = 34 then handleKeyboardScancode d.keyboard i.port60 else d.keyboard) := by
  have hirq := i.irq.isLt
  have hvector : i.vector = 32 + i.irq := rfl
  have hcases : i.vector = 32 ∨ i.vector = 33 ∨ i.vector = 34 ∨ 35 ≤ i.vector := by omega
  rw [deliver_eq]
  obtain hv | hv | hv | hv := hcases
  · obtain ⟨r, hr, hleaves⟩ := rustTimerHandler_leaves h i.savedStatePtr
    rw [if_pos (irq_eq_zero_iff.mpr hv), hv, hr]
    exact ⟨_, rfl, hleaves⟩
  · have hzero : i.irq ≠ 0 := fun hirq => by rw [irq_eq_zero_iff.mp hirq] at hv; cases hv
    obtain ⟨t, ht, hhz, hticks⟩ := onTimerTick_eq h
    obtain ⟨htimer, hkeyboard⟩ := schedulerTick_leaves { d with timer := t } i.cpu
    rw [if_neg hzero, hv]
    simp only [rustIsrHandler, ht, Option.map_some]
    exact ⟨_, rfl, by rw [htimer, hhz], by rw [htimer, hticks]; rfl, hkeyboard⟩
  · have hzero : i.irq ≠ 0 := fun hirq => by rw [irq_eq_zero_iff.mp hirq] at hv; cases hv
    rw [if_neg hzero, hv]
    exact ⟨_, rfl, rfl, (BitVec.add_zero _).symm, rfl⟩
  · have hzero : i.irq ≠ 0 := fun hirq => by rw [irq_eq_zero_iff.mp hirq] at hv; omega
    rw [if_neg hzero, rustIsrHandler_other syscall d i (by omega) (by omega) (by omega) (by omega),
      if_neg (by omega), if_neg (by omega)]
    exact ⟨_, rfl, rfl, (BitVec.add_zero _).symm, rfl⟩

/-- A run of interrupts, beside what it should come to: the number of timer interrupts and the
keyboard after the scancodes of the keyboard interrupts. -/
structure Trace where
  devices : Option Devices
  timerInterrupts : Nat
  keyboard : KeyboardState

def Trace.start (d : Devices) : Trace := ⟨some d, 0, d.keyboard⟩

def step (image : Image) (syscall : Devices → Devices) (t : Trace) (i : Interrupt) : Trace where
  devices := t.devices.bind fun d => (deliver image syscall d i).map Outcome.devices
  timerInterrupts := if i.vector = 32 then t.timerInterrupts + 1 else t.timerInterrupts
  keyboard := if i.vector = 33 then handleKeyboardScancode t.keyboard i.port60 else t.keyboard

/-- Every timer interrupt has been counted, and the keyboard has seen its scancodes. -/
def Dispatched (tickCount : Word) (t : Trace) : Prop :=
  ∃ d, t.devices = some d ∧ d.timer.tickCount = tickCount + BitVec.ofNat 64 t.timerInterrupts ∧
    d.keyboard = t.keyboard

/-- It is no keyboard interrupt, and if it is one on the next line then the byte in port 0x60 means
nothing to the keyboard. -/
def Routed (t : Trace) (i : Interrupt) : Prop :=
  i.vector ≠ 33 ∧ (i.vector = 34 → handleKeyboardScancode t.keyboard i.port60 = t.keyboard)

structure Inv (tickCount : Word) (t : Trace) : Prop where
  dispatched : Dispatched tickCount t
  timerHz : ∀ d, t.devices = some d → d.timer.timerHz ≠ 0

section Run

variable {tickCount : Word} (image : Image) (syscall : Devices → Devices)

theorem Inv.step_devices {t : Trace} (h : Inv tickCount t) (i : Interrupt) : ∃ d d',
    t.devices = some d ∧ (step image syscall t i).devices = some d' ∧
      d.timer.tickCount = tickCount + BitVec.ofNat 64 t.timerInterrupts ∧ d.keyboard = t.keyboard ∧
      Leaves d d' (if i.vector = 32 ∨ i.vector = 33 then 1 else 0)
        (if i.vector = 34 then handleKeyboardScancode d.keyboard i.port60 else d.keyboard) := by
  obtain ⟨⟨d, hd, hticks, hkeyboard⟩, hhz⟩ := h
  obtain ⟨o, ho, hleaves⟩ := deliver_leaves image syscall (hhz d hd) i
  exact ⟨d, o.devices, hd, by rw [step, hd, Option.bind_some, ho]; rfl, hticks, hkeyboard, hleaves⟩

theorem inv_step {t : Trace} (h : Inv tickCount t) {i : Interrupt} (hr : Routed t i) :
    Inv tickCount (step image syscall t i) := by
  obtain ⟨d, d', hd, hd', hticks, hkeyboard, hleaves⟩ := h.step_devices image syscall i
  refine ⟨⟨d', hd', ?_, ?_⟩, fun e he => ?_⟩
  · rw [hleaves.tickCount, hticks]
    simp only [step, hr.1, or_false]
    split_ifs
    · rw [BitVec.ofNat_add, BitVec.add_assoc]
      rfl
    · exact BitVec.add_zero _
  · rw [hleaves.keyboard, hkeyboard]
    simp only [step, hr.1, if_false]
    split_ifs with hv
    · exact hr.2 hv
    · rfl
  · obtain rfl : d' = e := Option.some.inj (hd'.symm.trans he)
    rw [hleaves.timerHz]
    exact h.timerHz d hd

theorem routed_of_dispatched {t : Trace} (h : Inv tickCount t) {i : Interrupt}
    (hafter : Dispatched tickCount (step image syscall t i)) : Routed t i := by
  obtain ⟨d, d', hd, hd', hticks, hkeyboard, hleaves⟩ := h.step_devices image syscall i
  obtain ⟨e, he, heticks, hekeyboard⟩ := hafter
  obtain rfl : d' = e := Option.some.inj (hd'.symm.trans he)
  rw [hleaves.tickCount, hticks] at heticks
  rw [hleaves.keyboard, hkeyboard] at hekeyboard
  constructor
  · intro hv
    simp only [step, hv, or_true, if_true, Nat.reduceEqDiff, if_false] at heticks
    have hone : (1 : Word) = 0 := add_eq_left.mp heticks
    cases hone
  · intro hv
    simpa only [step, hv, if_true, Nat.reduceEqDiff, if_false] using hekeyboard

/-- The interrupts are dispatched as they should be exactly as long as there is none on the line of
the keyboard, and none on the next line with a scancode in the port. -/
theorem dispatched_iff (d : Devices) (h : d.timer.timerHz ≠ 0) (is : List Interrupt) :
    Always (step image syscall) (Dispatched d.timer.tickCount) (.start d) is ↔
      Guarded (step image syscall) Routed (.start d) is := by
  have h0 : Inv d.timer.tickCount (.start d) := by
    refine ⟨⟨d, rfl, ?_, rfl⟩, fun e he => ?_⟩
    · exact (BitVec.add_zero _).symm
    · obtain rfl : d = e := Option.some.inj he
      exact h
  exact always_iff_guarded (fun _ ht => ht.dispatched) (fun _ _ ht hr => inv_step image syscall ht hr)
    (fun _ _ ht hafter => routed_of_dispatched image syscall ht hafter) h0

end Run

/-- An image with the stubs sixteen bytes apart. -/
def sampleImage : Image where
  addr
    | .isr vector => BitVec.ofNat 64 (0x1000 + 16 * vector)
    | .isr128 => 0x2000
    | .timerIsr => 0x3000
    | .spuriousIsr => 0x4000
  stubAt a :=
    if a = 0x2000 then some .isr128 else if a = 0x3000 then some .timerIsr
    else if a = 0x4000 then some .spuriousIsr
    else some (.isr (Fin.ofNat 48 ((a.toNat - 0x1000) / 16)))
  stubAt_addr := by
    intro s
    cases s with
    | isr vector => revert vector; decide
    | isr128 => rfl
    | timerIsr => rfl
    | spuriousIsr => rfl

def sampleDevices : Devices := ⟨⟨0, 0, 100⟩, ⟨fun _ => 0, 0, 0, false, false⟩, none⟩

def timerInterrupt : Interrupt := ⟨0, 0, {}, 0⟩

def keyboardInterrupt (scancode : Byte) : Interrupt := ⟨1, scancode, {}, 0⟩

def nextLineInterrupt (scancode : Byte) : Interrupt := ⟨2, scancode, {}, 0⟩

theorem timer_dispatched : sampleDevices.timer.timerHz ≠ 0 ∧
    Always (step sampleImage id) (Dispatched 0) (.start sampleDevices)
    [timerInterrupt, timerInterrupt] :=
  ⟨by decide, (dispatched_iff sampleImage id sampleDevices (by decide) _).mpr
    ⟨⟨by decide, nofun⟩, ⟨by decide, nofun⟩, trivial⟩⟩

/-- A keyboard interrupt with the scancode of the letter a: it counts as a tick and the letter is
lost. -/
theorem keyboard_not_dispatched :
    (deliver sampleImage id sampleDevices (keyboardInterrupt 0x1E)).map
        (fun o => (o.devices.timer.tickCount, o.devices.keyboard.head)) = some (1, 0) ∧
      (handleKeyboardScancode sampleDevices.keyboard 0x1E).head = 1 ∧
      ¬Always (step sampleImage id) (Dispatched 0) (.start sampleDevices) [keyboardInterrupt 0x1E] := by
  have hafter : (deliver sampleImage id sampleDevices (keyboardInterrupt 0x1E)).map
      (fun o => (o.devices.timer.tickCount, o.devices.keyboard.head)) = some (1, 0) := by decide +kernel
  refine ⟨hafter, by decide +kernel, ?_⟩
  rintro ⟨-, d, hd, hticks, -⟩
  have hd : (deliver sampleImage id sampleDevices (keyboardInterrupt 0x1E)).map Outcome.devices =
      some d := hd
  obtain ⟨o, ho, rfl⟩ := Option.map_eq_some_iff.mp hd
  rw [ho] at hafter
  have hone : o.devices.timer.tickCount = 1 := congrArg Prod.fst (Option.some.inj hafter)
  rw [hone] at hticks
  revert hticks
  decide +kernel

end DeltaOS.InterruptDispatch
