import Console64.Proofs.DeviceCopy
import Console64.Proofs.DeviceSteps
import Console64.Proofs.FirstVisit
import Console64.Proofs.History

/-!
# Interrupts that are told in two places

A transfer that has ended shows in the status of its device and is pending in the interrupt
controller.  Serial transfers show exactly while they are pending.  With the cartridge there
is one exception: a program may reset the status without acknowledging, and then the
interrupt stays pending but does not show, until the next transfer ends or the program
acknowledges it.

## Key results

- `Bus.DeviceStep.pending_apply`: what a step does to the pending interrupts
- `Bus.DeviceStep.peripheralShown_apply` / `Bus.DeviceStep.serialShown_apply`: and to what
  the two devices show
- `Bus.serialShown_afterSteps`: the SI shows what is pending
- `Bus.hidden_iff`: what the PI does not show although it is pending
-/

namespace Console64

/-! ## Flags of a word -/

/-- A flag that is set is there, -/
theorem set_and_self (w flag : UInt32) : (w ||| flag) &&& flag = flag := by
  rw [← UInt32.toBitVec_inj]
  ext i hi
  simp only [UInt32.toBitVec_and, UInt32.toBitVec_or, BitVec.getElem_and, BitVec.getElem_or]
  cases flag.toBitVec[i] <;> simp

/-- and one that is cleared is not. -/
theorem clear_and_self (w flag : UInt32) : (w &&& ~~~flag) &&& flag = 0 := by
  rw [UInt32.and_assoc]
  simp

/-- Setting some bits leaves the others alone. -/
theorem set_and {bits flag : UInt32} (h : bits &&& flag = 0) (w : UInt32) :
    (w ||| bits) &&& flag = w &&& flag := by
  rw [← UInt32.toBitVec_inj] at h ⊢
  simp only [UInt32.toBitVec_and, UInt32.toBitVec_or, UInt32.toBitVec_zero] at h ⊢
  rw [BitVec.and_or_distrib_right, h, BitVec.or_zero]

/-- So does clearing some. -/
theorem clear_and {bits flag : UInt32} (h : bits &&& flag = 0) (w : UInt32) :
    (w &&& ~~~bits) &&& flag = w &&& flag := by
  have hkept : ~~~bits &&& flag = flag := by
    rw [← UInt32.toBitVec_inj] at h ⊢
    ext i hi
    have hbit := congrArg (fun v : BitVec 32 => v[i]) h
    simp only [UInt32.toBitVec_and, UInt32.toBitVec_not, UInt32.toBitVec_zero, BitVec.getElem_and,
      BitVec.getElem_not, BitVec.getElem_zero] at hbit ⊢
    grind
  rw [UInt32.and_assoc, hkept]

/-- Setting a flag and clearing it again comes to clearing it. -/
theorem set_clear (w flag : UInt32) : (w ||| flag) &&& ~~~flag = w &&& ~~~flag := by
  rw [← UInt32.toBitVec_inj]
  ext i hi
  simp only [UInt32.toBitVec_and, UInt32.toBitVec_or, UInt32.toBitVec_not, BitVec.getElem_and,
    BitVec.getElem_or, BitVec.getElem_not]
  cases flag.toBitVec[i] <;> simp

/-! ## The interrupt controller -/

/-- Each source has its own bit. -/
theorem Interrupt.bit_and_bit {source other : Interrupt} (h : source ≠ other) :
    source.bit &&& other.bit = 0 := by
  cases source <;> cases other <;> first | rfl | exact absurd rfl h

namespace MipsInterface

section
variable {m : MipsInterface} (h : m.registers.layout = initial.registers.layout)
include h

/-- Raising an interrupt sets its bit, -/
theorem pending_raise (source : Interrupt) :
    (m.raise source).pending = m.pending ||| source.bit :=
  RegisterMap.visible_publish (interruptSlot_layout h) (by decide) _

/-- and acknowledging it clears the bit. -/
private theorem pending_clear (source : Interrupt) :
    (m.clear source).pending = m.pending &&& ~~~source.bit :=
  RegisterMap.visible_publish (interruptSlot_layout h) (by decide) _

/-- Raising an interrupt concerns its own bit only. -/
theorem bit_raise (source other : Interrupt) :
    (m.raise source).pending &&& other.bit =
      if source = other then other.bit else m.pending &&& other.bit := by
  rw [pending_raise h]
  split
  case isTrue heq => rw [heq, set_and_self]
  case isFalse hne => rw [set_and (Interrupt.bit_and_bit hne)]

/-- So does acknowledging one. -/
private theorem bit_clear (source other : Interrupt) :
    (m.clear source).pending &&& other.bit =
      if source = other then 0 else m.pending &&& other.bit := by
  rw [pending_clear h]
  split
  case isTrue heq => rw [heq, clear_and_self]
  case isFalse hne => rw [clear_and (Interrupt.bit_and_bit hne)]

/-- Stores leave what is pending alone. -/
private theorem pending_store (offset : Nat) (data : List UInt8) :
    ({ registers := m.registers.store offset data } : MipsInterface).pending = m.pending :=
  RegisterMap.visible_store (interruptSlot_layout h) rfl offset data

/-- What a store sets off can acknowledge DP only. -/
private theorem pending_settleSlot {flag : UInt32} (hdp : Interrupt.dp.bit &&& flag = 0)
    (slot : Nat) : (m.settleSlot slot).pending &&& flag = m.pending &&& flag := by
  have hother : ∀ other, other ≠ interruptSlot → ∀ w,
      ({ registers := m.registers.publish other w } : MipsInterface).pending = m.pending :=
    fun other hne w => RegisterMap.visible_of_ne _ hne _
  have hcleared : ∀ w, (({ registers := m.registers.publish modeSlot w } : MipsInterface).clear
      .dp).pending &&& flag = m.pending &&& flag := by
    intro w
    have hlayout : ({ registers := m.registers.publish modeSlot w } :
        MipsInterface).registers.layout = initial.registers.layout :=
      (RegisterMap.layout_publish m.registers modeSlot w).trans h
    rw [pending_clear hlayout, hother _ (by decide), clear_and hdp]
  -- The mode may acknowledge DP and the mask only publishes itself; other registers set nothing off
  unfold settleSlot
  split
  · unfold writeMode
    dsimp only
    split
    · exact hcleared _
    · exact congrArg (· &&& flag) (hother _ (by decide) _)
  · unfold writeMask
    rw [hother _ (by decide)]
  · rfl

/-- Nor can any store, whatever registers it touches. -/
private theorem pending_settle {flag : UInt32} (hdp : Interrupt.dp.bit &&& flag = 0)
    (offset length : Nat) : (m.settle offset length).pending &&& flag = m.pending &&& flag := by
  unfold settle
  -- Induction on the registers that the store touches, whichever they are
  generalize m.registers.touched offset length = slots
  induction slots generalizing m with
  | nil => rfl
  | cons slot rest ih =>
    exact (ih ((layout_settleSlot m slot).trans h)).trans (pending_settleSlot h hdp slot)

/-- The signal processor raises and acknowledges its own interrupt only. -/
private theorem pending_commandedInterrupt {flag : UInt32} (hsp : Interrupt.sp.bit &&& flag = 0)
    (command : UInt32) (broke : Bool) :
    (SignalProcessor.commandedInterrupt command broke m).pending &&& flag = m.pending &&& flag := by
  -- The command may acknowledge first, and raise after that
  have hcleared : ∀ b : Bool, (if b then m.clear .sp else m).pending &&& flag = m.pending &&& flag ∧
      (if b then m.clear .sp else m).registers.layout = initial.registers.layout := by
    intro b
    split
    · exact ⟨by rw [pending_clear h, clear_and hsp], (RegisterMap.layout_publish _ _ _).trans h⟩
    · exact ⟨rfl, h⟩
  obtain ⟨hpending, hlayout⟩ := hcleared (command &&& 0x08 ≠ 0)
  simp only [decide_eq_true_eq] at hpending hlayout
  unfold SignalProcessor.commandedInterrupt
  dsimp only
  split
  · rw [pending_raise hlayout, set_and hsp, hpending]
  · exact hpending

end

end MipsInterface

/-! ## The two devices -/

namespace PeripheralInterface

section
variable {p : PeripheralInterface} (h : p.registers.layout = initial.registers.layout)
include h

/-- What is published in the status is its value. -/
theorem status_publishStatus (w : UInt32) : (p.publishStatus w).status = w :=
  RegisterMap.visible_publish (statusSlot_layout h) (by decide) w

/-- A store is not seen in it, -/
private theorem status_store (offset : Nat) (data : List UInt8) :
    ({ p with registers := p.registers.store offset data } : PeripheralInterface).status =
      p.status := RegisterMap.visible_store (statusSlot_layout h) rfl offset data

/-- a transfer that begins sets the busy flag, -/
theorem status_begin : p.begin.status = p.status ||| busyFlag :=
  status_publishStatus (by simp only [setAddresses, RegisterMap.layout_set, h]) _

/-- one that ends clears it and sets the interrupt flag, -/
theorem status_finish (dram cartridge : UInt32) (length : Nat) :
    (p.finish dram cartridge length).status = (p.status &&& ~~~busyFlag) ||| interruptFlag := by
  have hset : ∀ a b, (p.setAddresses a b).registers.layout = initial.registers.layout :=
    fun a b => by simp only [setAddresses, RegisterMap.layout_set, h]
  exact status_publishStatus (hset _ _) _

/-- and a reset clears all of it if it is asked to. -/
private theorem status_reset (command : UInt32) :
    (p.reset command).status = if command &&& 0x01 ≠ 0 then 0 else p.status := by
  unfold reset
  split
  · exact status_publishStatus h 0
  · rfl

end

end PeripheralInterface

namespace SerialInterface

section
variable {s : SerialInterface} (h : s.registers.layout = initial.registers.layout)
include h

/-- A store is not seen in the status of the SI, -/
private theorem status_store (offset : Nat) (data : List UInt8) :
    ({ s with registers := s.registers.store offset data } : SerialInterface).status = s.status :=
  RegisterMap.visible_store (statusSlot_layout h) rfl offset data

/-- a transfer that ends sets the interrupt flag, -/
private theorem status_finish (dram : UInt32) (direction : SerialTransfer) :
    (s.finish dram direction).status = s.status ||| interruptFlag :=
  RegisterMap.visible_publish (statusSlot_layout h) (by decide) _

/-- and an acknowledgement clears it. -/
private theorem status_acknowledge : s.acknowledge.status = s.status &&& ~~~interruptFlag :=
  RegisterMap.visible_publish (statusSlot_layout h) (by decide) _

end

end SerialInterface

/-! ## Steps -/

namespace Bus

/-- The status of the PI shows the interrupt. -/
def PeripheralShown (bus : Bus) : Prop := bus.pi.status &&& 0x08 ≠ 0

/-- The status of the SI shows the interrupt. -/
def SerialShown (bus : Bus) : Prop := bus.si.status &&& 0x1000 ≠ 0

/-- The interrupt is pending in the controller. -/
def Pending (bus : Bus) (source : Interrupt) : Prop := bus.mi.pending &&& source.bit ≠ 0

namespace DeviceStep

/-- The step is the end of a transfer, which raises the interrupt of the device. -/
def completes : DeviceStep → Interrupt → Bool
  | peripheralFinish _ _ _, .pi => true
  | serialFinish _ _, .si => true
  | _, _ => false

/-- The step acknowledges the interrupt of the device. -/
def acknowledges : DeviceStep → Interrupt → Bool
  | peripheralAcknowledge, .pi => true
  | serialAcknowledge, .si => true
  | _, _ => false

/-- The step is a store to the PI status that resets it. -/
def resetsStatus : DeviceStep → Bool
  | peripheralReset command => command &&& 0x01 ≠ 0
  | _ => false

/-- The two devices whose transfers raise interrupts at their end. -/
def transferSources : List Interrupt := [.pi, .si]

section
variable {bus : Bus} (h : bus.Wired)
include h

/-- What is pending of a device's interrupt changes by its own steps only. -/
private theorem pendingBit_apply {source : Interrupt} (hsource : source ∈ transferSources)
    (d : DeviceStep) :
    (d.apply bus).mi.pending &&& source.bit =
      if d.completes source then source.bit
      else if d.acknowledges source then 0
      else bus.mi.pending &&& source.bit := by
  have hraise := MipsInterface.bit_raise h.mi
  have hclear := MipsInterface.bit_clear h.mi
  -- The other four sources are raised and acknowledged by other steps
  obtain ⟨hdp, hsp, hvi, hai⟩ : source ≠ .dp ∧ source ≠ .sp ∧ source ≠ .vi ∧ source ≠ .ai := by
    revert source
    decide
  cases d with
  | load region offset length => cases region <;> rfl
  | store region offset data =>
    cases region with
    | mi => exact congrArg (· &&& source.bit) (MipsInterface.pending_store h.mi offset data)
    | _ => rfl
  | signalStatus command =>
    exact MipsInterface.pending_commandedInterrupt h.mi (Interrupt.bit_and_bit hsp.symm) command _
  | settleInterrupts offset length =>
    exact MipsInterface.pending_settle h.mi (Interrupt.bit_and_bit hdp.symm) offset length
  | videoAcknowledge => exact (hclear .vi source).trans (if_neg hvi.symm)
  | audioAcknowledge => exact (hclear .ai source).trans (if_neg hai.symm)
  | peripheralFinish dram cartridge length =>
    refine (hraise .pi source).trans ?_
    cases source <;> rfl
  | peripheralAcknowledge =>
    refine (hclear .pi source).trans ?_
    cases source <;> rfl
  | serialFinish dram direction =>
    refine (hraise .si source).trans ?_
    cases source <;> rfl
  | serialAcknowledge =>
    refine (hclear .si source).trans ?_
    cases source <;> rfl
  | _ => rfl

/-- What the PI shows after a step: its end of a transfer sets the flag, an acknowledgement and a
reset clear it, and nothing else does anything to it. -/
private theorem peripheralStatus_apply (d : DeviceStep) :
    (d.apply bus).pi.status &&& 0x08 =
      if d.completes .pi then 0x08
      else if d.acknowledges .pi || d.resetsStatus then 0
      else bus.pi.status &&& 0x08 := by
  have hbusy : PeripheralInterface.busyFlag &&& 0x08 = 0 := by decide
  -- The steps of the PI each publish a status; all others leave it alone
  have hpublish := @PeripheralInterface.status_publishStatus bus.pi h.pi
  cases d with
  | store region offset data =>
    cases region with
    | pi => exact congrArg (· &&& 0x08) (PeripheralInterface.status_store h.pi offset data)
    | _ => rfl
  | load region offset length => cases region <;> rfl
  | peripheralBegin =>
    exact (congrArg (· &&& 0x08) (PeripheralInterface.status_begin h.pi)).trans (set_and hbusy _)
  | peripheralFinish dram cartridge length =>
    exact (congrArg (· &&& 0x08) (PeripheralInterface.status_finish h.pi _ _ _)).trans
      (set_and_self _ _)
  | peripheralAbort => exact (congrArg (· &&& 0x08) (hpublish _)).trans (clear_and hbusy _)
  | peripheralReset command =>
    refine (congrArg (· &&& 0x08) (PeripheralInterface.status_reset h.pi command)).trans ?_
    by_cases hbit : command &&& 0x01 ≠ 0
    · simp [completes, acknowledges, resetsStatus, hbit]
    · simp [completes, acknowledges, resetsStatus, hbit]
  | peripheralAcknowledge =>
    exact (congrArg (· &&& 0x08) (hpublish _)).trans (clear_and_self _ _)
  | _ => rfl

/-- What the SI shows after a step: likewise, but there is no reset. -/
private theorem serialStatus_apply (d : DeviceStep) :
    (d.apply bus).si.status &&& 0x1000 =
      if d.completes .si then 0x1000
      else if d.acknowledges .si then 0
      else bus.si.status &&& 0x1000 := by
  -- Only a store to the interface itself and the end of its transfer reach the flag
  cases d with
  | store region offset data =>
    cases region with
    | si => exact congrArg (· &&& 0x1000) (SerialInterface.status_store h.si offset data)
    | _ => rfl
  | load region offset length => cases region <;> rfl
  | serialFinish dram direction =>
    exact (congrArg (· &&& 0x1000) (SerialInterface.status_finish h.si dram direction)).trans
      (set_and_self _ _)
  | serialAcknowledge =>
    exact (congrArg (· &&& 0x1000) (SerialInterface.status_acknowledge h.si)).trans
      (clear_and_self _ _)
  | _ => rfl

/-- The end of a transfer makes the interrupt pending, and it stays so until acknowledged. -/
theorem pending_apply {source : Interrupt} (hsource : source ∈ transferSources) (d : DeviceStep) :
    (d.apply bus).Pending source ↔
      d.completes source ∨ (bus.Pending source ∧ ¬d.acknowledges source) := by
  have hbit : source.bit ≠ 0 := by cases source <;> decide
  unfold Pending
  rw [pendingBit_apply h hsource]
  cases d.completes source <;> cases d.acknowledges source <;> simp [hbit]

/-- The PI shows it from then on until it is acknowledged or the status is reset. -/
theorem peripheralShown_apply (d : DeviceStep) :
    (d.apply bus).PeripheralShown ↔
      d.completes .pi ∨ (bus.PeripheralShown ∧ ¬d.acknowledges .pi ∧ ¬d.resetsStatus) := by
  unfold PeripheralShown
  rw [peripheralStatus_apply h]
  cases d.completes .pi <;> cases d.acknowledges .pi <;> cases d.resetsStatus <;> simp

/-- The SI shows it until it is acknowledged. -/
theorem serialShown_apply (d : DeviceStep) :
    (d.apply bus).SerialShown ↔
      d.completes .si ∨ (bus.SerialShown ∧ ¬d.acknowledges .si) := by
  unfold SerialShown
  rw [serialStatus_apply h]
  cases d.completes .si <;> cases d.acknowledges .si <;> simp

end

/-- A reset by itself neither ends a transfer nor acknowledges its interrupt. -/
theorem not_settles_of_resetsStatus {d : DeviceStep} (h : d.resetsStatus) :
    ¬(d.completes .pi ∨ d.acknowledges .pi) := by
  cases d <;> simp_all [resetsStatus, completes, acknowledges]

end DeviceStep

/-! ## Runs -/

section
variable (cartridge : Cartridge) (rdramSize : Nat)

/-- The bus after steps of its devices from power-on. -/
def afterSteps (ds : List DeviceStep) : Bus :=
  ds.foldl DeviceStep.apply (initial cartridge rdramSize)

/-- The status of the PI has been reset while its interrupt was pending, and since then no
transfer has ended and the interrupt has not been acknowledged. -/
def Hidden (ds : List DeviceStep) : Prop :=
  Since (fun before d => d.resetsStatus ∧ (afterSteps cartridge rdramSize before).Pending .pi)
    (fun d => d.completes .pi ∨ d.acknowledges .pi) ds

variable {cartridge : Cartridge} {rdramSize : Nat}

/-- One step more. -/
theorem afterSteps_append_singleton (ds : List DeviceStep) (d : DeviceStep) :
    afterSteps cartridge rdramSize (ds ++ [d]) = d.apply (afterSteps cartridge rdramSize ds) := by
  rw [afterSteps, List.foldl_append]
  rfl

/-- At power-on nothing is pending, and no device shows anything. -/
private theorem not_pending_initial (source : Interrupt) :
    ¬(initial cartridge rdramSize).Pending source := by
  have hpending : MipsInterface.initial.pending = 0 := by decide +kernel
  show ¬(MipsInterface.initial.pending &&& source.bit ≠ 0)
  simp [hpending]

/-- Neither of the two shows an interrupt then. -/
private theorem not_shown_initial : ¬(initial cartridge rdramSize).SerialShown ∧
    ¬(initial cartridge rdramSize).PeripheralShown := by
  show ¬(SerialInterface.initial.status &&& 0x1000 ≠ 0) ∧
    ¬(PeripheralInterface.initial.status &&& 0x08 ≠ 0)
  decide +kernel

/-- The registers are laid out as at power-on. -/
theorem wired_afterSteps (ds : List DeviceStep) : (afterSteps cartridge rdramSize ds).Wired :=
  (wired_initial cartridge rdramSize).steps ds

/-- After any steps the SI shows its interrupt exactly if it is pending. -/
theorem serialShown_afterSteps (ds : List DeviceStep) :
    (afterSteps cartridge rdramSize ds).SerialShown ↔
      (afterSteps cartridge rdramSize ds).Pending .si := by
  induction ds using List.reverseRecOn with
  | nil => exact iff_of_false not_shown_initial.1 (not_pending_initial .si)
  | append_singleton ds d ih =>
    have hwired : (afterSteps cartridge rdramSize ds).Wired := wired_afterSteps ds
    rw [afterSteps_append_singleton, DeviceStep.serialShown_apply hwired,
      DeviceStep.pending_apply hwired (by decide), ih]

/-- The PI shows its interrupt only if it is pending. -/
theorem pending_of_peripheralShown (ds : List DeviceStep) :
    (afterSteps cartridge rdramSize ds).PeripheralShown →
      (afterSteps cartridge rdramSize ds).Pending .pi := by
  induction ds using List.reverseRecOn with
  | nil => exact fun hshown => absurd hshown not_shown_initial.2
  | append_singleton ds d ih =>
    have hwired : (afterSteps cartridge rdramSize ds).Wired := wired_afterSteps ds
    rw [afterSteps_append_singleton, DeviceStep.peripheralShown_apply hwired,
      DeviceStep.pending_apply hwired (by decide)]
    exact Or.imp_right fun ⟨hshown, hack, _⟩ => ⟨ih hshown, hack⟩

/-- What is pending and the PI does not show has been hidden by a reset. -/
theorem hidden_iff (ds : List DeviceStep) :
    Hidden cartridge rdramSize ds ↔
      (afterSteps cartridge rdramSize ds).Pending .pi ∧
        ¬(afterSteps cartridge rdramSize ds).PeripheralShown := by
  induction ds using List.reverseRecOn with
  | nil => exact iff_of_false not_since_nil fun ⟨hpending, _⟩ => not_pending_initial .pi hpending
  | append_singleton ds d ih =>
    have hwired : (afterSteps cartridge rdramSize ds).Wired := wired_afterSteps ds
    have hshown := @pending_of_peripheralShown cartridge rdramSize ds
    have hreset := @DeviceStep.not_settles_of_resetsStatus d
    unfold Hidden at ih ⊢
    rw [since_append_singleton, ih, afterSteps_append_singleton,
      DeviceStep.peripheralShown_apply hwired, DeviceStep.pending_apply hwired (by decide)]
    -- By `hreset` what hides an interrupt does not settle it in the same step
    tauto

end

end Bus

end Console64
