import Console64.Bus.Transfer
import Console64.Proofs.RegisterLayout

/-!
# Work on the bus, one device at a time

A request to the bus may set off transfers, and those other transfers, but all that is ever done
is a sequence of steps of single devices.  What every step keeps is kept by all requests.  The
first such thing is the layout of the registers.

## Key results

- `Bus.DeviceStep.layouts_apply`: no device step moves a register
- `Bus.Wired.steps`: nor does any sequence of steps
-/

namespace Console64

namespace Bus

/-- What a device does by itself. -/
inductive DeviceStep where
  | load (region : Region) (offset length : Nat)
  | store (region : Region) (offset : Nat) (data : List UInt8)
  | videoAcknowledge
  | audioAcknowledge
  | peripheralBegin
  | peripheralFinish (dram cartridge : UInt32) (length : Nat)
  | peripheralAbort
  | peripheralReset (command : UInt32)
  | peripheralAcknowledge
  | serialFinish (dram : UInt32) (direction : SerialTransfer)
  | serialAcknowledge
  | signalBegin
  | signalFinish (direction : SignalTransfer) (bank register : UInt32)
    (position : SignalProcessor.Position)
  | signalStatus (command : UInt32)
  | releaseSemaphore
  | settleInterrupts (offset length : Nat)
  | settleCommands (offset length : Nat)
  deriving DecidableEq, Repr

/-- The bus after a step. -/
def DeviceStep.apply (bus : Bus) : DeviceStep → Bus
  | load region offset length => (bus.deviceLoad region offset length).2
  | store region offset data =>
    (bus.deviceStore region offset data).noteStore region offset data.length
  | videoAcknowledge => bus.acknowledge .vi
  | audioAcknowledge => bus.acknowledge .ai
  | peripheralBegin => { bus with pi := bus.pi.begin }
  | peripheralFinish dram cartridge length =>
    { bus with pi := bus.pi.finish dram cartridge length }.raise .pi
  | peripheralAbort => { bus with pi := bus.pi.abort }
  | peripheralReset command => { bus with pi := bus.pi.reset command }
  | peripheralAcknowledge => { bus with pi := bus.pi.acknowledge }.acknowledge .pi
  | serialFinish dram direction => { bus with si := bus.si.finish dram direction }.raise .si
  | serialAcknowledge => { bus with si := bus.si.acknowledge }.acknowledge .si
  | signalBegin => { bus with sp := bus.sp.begin }
  | signalFinish direction bank register position =>
    { bus with sp := bus.sp.finish direction bank register position }
  | signalStatus command =>
    { bus with
      sp := (bus.sp.writeStatus bus.mi command).1
      mi := (bus.sp.writeStatus bus.mi command).2 }
  | releaseSemaphore => { bus with sp := bus.sp.releaseSemaphore }
  | settleInterrupts offset length => { bus with mi := bus.mi.settle offset length }
  | settleCommands offset length => { bus with pif := bus.pif.settle offset length }

end Bus

/-! ## Registers stay where they are -/

namespace SignalProcessor

/-- A load from the semaphore takes it, but does not move it. -/
theorem layout_load (s : SignalProcessor) (offset length : Nat) :
    (s.load offset length).2.registers.layout = s.registers.layout := by
  unfold load
  split
  · rfl
  · split
    · exact RegisterMap.layout_publish _ _ _
    · rfl

/-- Stores to the memory window may run on into the registers, one byte after the other. -/
theorem layout_storeMemory (m : RegisterMap) (offset : Nat) (data : List UInt8) :
    (storeMemory m offset data).layout = m.layout := by
  induction data generalizing m offset with
  | nil => rfl
  | cons byte rest ih => exact (ih _ _).trans (RegisterMap.layout_storeByte _ _ _)

/-- Where a store begins decides whether it is one to the window. -/
theorem layout_store (s : SignalProcessor) (offset : Nat) (data : List UInt8) :
    (s.store offset data).registers.layout = s.registers.layout := by
  unfold store
  split
  · exact layout_storeMemory _ _ _
  · exact RegisterMap.layout_store _ _ _

/-- A command in the status may acknowledge the interrupt and raise it. -/
theorem layout_commandedInterrupt (command : UInt32) (broke : Bool) (m : MipsInterface) :
    (commandedInterrupt command broke m).registers.layout = m.registers.layout := by
  -- The two parts of the command, one after the other
  have hcleared : (if command &&& 0x08 ≠ 0 then m.clear .sp else m).registers.layout =
      m.registers.layout := by
    split
    · exact RegisterMap.layout_publish _ _ _
    · rfl
  unfold commandedInterrupt
  dsimp only
  split
  · exact (RegisterMap.layout_publish _ _ _).trans hcleared
  · exact hcleared

end SignalProcessor

namespace MipsInterface

/-- The register of pending interrupts is one word that programs cannot store to. -/
theorem interruptSlot_layout {m : MipsInterface}
    (h : m.registers.layout = initial.registers.layout) :
    m.registers.layout[interruptSlot]? = some ⟨0x08, 1, .single, .readOnly⟩ := by
  rw [h]
  decide +kernel

/-- The mode register may acknowledge DP, the mask register is set on its own. -/
theorem layout_settleSlot (m : MipsInterface) (slot : Nat) :
    (m.settleSlot slot).registers.layout = m.registers.layout := by
  unfold settleSlot
  split
  · unfold writeMode
    dsimp only
    split
    · exact (RegisterMap.layout_publish _ _ _).trans (RegisterMap.layout_publish _ _ _)
    · exact RegisterMap.layout_publish _ _ _
  · exact RegisterMap.layout_publish _ _ _
  · rfl

/-- So it is with all registers that a store touches. -/
theorem layout_settle (m : MipsInterface) (offset length : Nat) :
    (m.settle offset length).registers.layout = m.registers.layout := by
  unfold settle
  -- Induction on these registers, whichever they are
  generalize m.registers.touched offset length = slots
  induction slots generalizing m with
  | nil => rfl
  | cons slot rest ih => exact (ih _).trans (layout_settleSlot m slot)

end MipsInterface

/-- The status has a copy of its own for what programs store. -/
theorem PeripheralInterface.statusSlot_layout {p : PeripheralInterface}
    (h : p.registers.layout = initial.registers.layout) :
    p.registers.layout[statusSlot]? = some ⟨0x10, 1, .dual, .readWrite⟩ := by
  rw [h]
  decide +kernel

/-- So has this one. -/
theorem SerialInterface.statusSlot_layout {s : SerialInterface}
    (h : s.registers.layout = initial.registers.layout) :
    s.registers.layout[statusSlot]? = some ⟨0x18, 1, .dual, .readWrite⟩ := by
  rw [h]
  decide +kernel

namespace VideoInterface

/-- However many half-lines end, the registers stay where they are. -/
theorem layout_endLines (v : VideoInterface) (hit : Bool) :
    (v.endLines hit).1.registers.layout = v.registers.layout := by
  fun_induction endLines v hit with
  | case1 v hit hline next ih => exact ih.trans (RegisterMap.layout_publish _ _ _)
  | case2 v hit hline => rfl

end VideoInterface

namespace Bus

/-- Where the registers of the devices are. -/
structure Layouts where
  rdram : Array RegisterShape
  sp : Array RegisterShape
  dpCommand : Array RegisterShape
  dpSpan : Array RegisterShape
  mi : Array RegisterShape
  vi : Array RegisterShape
  ai : Array RegisterShape
  pi : Array RegisterShape
  ri : Array RegisterShape
  si : Array RegisterShape
  deriving DecidableEq, Repr

def layouts (bus : Bus) : Layouts where
  rdram := bus.rdramRegisters.layout
  sp := bus.sp.registers.layout
  dpCommand := bus.dpCommand.layout
  dpSpan := bus.dpSpan.layout
  mi := bus.mi.registers.layout
  vi := bus.vi.registers.layout
  ai := bus.ai.registers.layout
  pi := bus.pi.registers.layout
  ri := bus.ri.layout
  si := bus.si.registers.layout

/-- No device step moves a register. -/
theorem DeviceStep.layouts_apply (bus : Bus) (d : DeviceStep) :
    (d.apply bus).layouts = bus.layouts := by
  cases d with
  | load region offset length =>
    -- Of all loads, only one from the semaphore changes a register
    cases region with
    | sp => simp only [apply, deviceLoad, layouts, SignalProcessor.layout_load]
    | _ => rfl
  | store region offset data =>
    cases region with
    | sp => simp only [apply, deviceStore, noteStore, layouts, SignalProcessor.layout_store]
    | rdram => rfl
    | cartridge => rfl
    | pif => rfl
    | _ => simp only [apply, deviceStore, noteStore, layouts, RegisterMap.layout_store]
  | peripheralReset command =>
    simp only [apply, layouts, PeripheralInterface.reset]
    split
    · simp only [PeripheralInterface.publishStatus, RegisterMap.layout_publish]
    · rfl
  | signalStatus command =>
    simp only [apply, layouts, SignalProcessor.writeStatus, SignalProcessor.publishStatus,
      SignalProcessor.layout_commandedInterrupt, RegisterMap.layout_publish]
  | settleInterrupts offset length => simp only [apply, layouts, MipsInterface.layout_settle]
  | settleCommands offset length => rfl
  | signalFinish direction bank register position =>
    simp only [apply, layouts, SignalProcessor.finish, SignalProcessor.publishStatus,
      RegisterMap.layout_publish, RegisterMap.layout_set]
  | releaseSemaphore =>
    simp only [apply, layouts, SignalProcessor.releaseSemaphore, RegisterMap.layout_set]
  | signalBegin =>
    simp only [apply, layouts, SignalProcessor.begin, SignalProcessor.publishStatus,
      RegisterMap.layout_publish]
  | serialFinish dram direction =>
    simp only [apply, layouts, raise, MipsInterface.raise, SerialInterface.finish,
      SerialInterface.remember, RegisterMap.layout_publish]
  | serialAcknowledge =>
    simp only [apply, layouts, Bus.acknowledge, MipsInterface.clear, SerialInterface.acknowledge,
      RegisterMap.layout_publish]
  | videoAcknowledge | audioAcknowledge =>
    simp only [apply, layouts, Bus.acknowledge, MipsInterface.clear, RegisterMap.layout_publish]
  | _ =>
    simp only [apply, layouts, raise, MipsInterface.raise, Bus.acknowledge, MipsInterface.clear,
      PeripheralInterface.begin, PeripheralInterface.finish, PeripheralInterface.abort,
      PeripheralInterface.acknowledge, PeripheralInterface.publishStatus,
      PeripheralInterface.setAddresses, RegisterMap.layout_publish, RegisterMap.layout_set]

/-- The registers are where they are at power-on. -/
def Wired (bus : Bus) : Prop :=
  ∃ cartridge rdramSize, bus.layouts = (initial cartridge rdramSize).layouts

/-- At power-on they are in place. -/
theorem wired_initial (cartridge : Cartridge) (rdramSize : Nat) :
    (initial cartridge rdramSize).Wired := ⟨cartridge, rdramSize, rfl⟩

/-- What leaves the registers where they are. -/
theorem Wired.of_layouts_eq {s t : Bus} (hs : s.Wired) (h : t.layouts = s.layouts) : t.Wired := by
  obtain ⟨cartridge, rdramSize, heq⟩ := hs
  exact ⟨cartridge, rdramSize, h.trans heq⟩

/-- No step moves a register, so they stay in place. -/
theorem Wired.step {bus : Bus} (h : bus.Wired) (d : DeviceStep) : (d.apply bus).Wired :=
  h.of_layouts_eq (d.layouts_apply bus)

/-- After any steps the registers are where they were. -/
theorem Wired.steps {bus : Bus} (h : bus.Wired) (ds : List DeviceStep) :
    (ds.foldl DeviceStep.apply bus).Wired := by
  induction ds generalizing bus with
  | nil => exact h
  | cons d ds ih => exact ih (h.step d)

/-- Nor does time move them. -/
theorem Wired.advanceVideo {bus : Bus} (h : bus.Wired) (cycles : Nat) :
    (bus.advanceVideo cycles).Wired := by
  refine h.of_layouts_eq ?_
  have hvideo : (bus.vi.advance (UInt64.ofNat cycles)).1.registers.layout =
      bus.vi.registers.layout := VideoInterface.layout_endLines _ _
  unfold Bus.advanceVideo
  dsimp only
  split
  · simp only [layouts, raise, MipsInterface.raise, RegisterMap.layout_publish, hvideo]
  · simp only [layouts, hvideo]

/-- The registers of the SI are laid out as at power-on. -/
theorem Wired.si {bus : Bus} (h : bus.Wired) :
    bus.si.registers.layout = SerialInterface.initial.registers.layout := by
  obtain ⟨cartridge, rdramSize, heq⟩ := h
  exact congrArg Layouts.si heq

/-- So are those of the MI. -/
theorem Wired.mi {bus : Bus} (h : bus.Wired) :
    bus.mi.registers.layout = MipsInterface.initial.registers.layout := by
  obtain ⟨cartridge, rdramSize, heq⟩ := h
  exact congrArg Layouts.mi heq

/-- So are those of the SP. -/
theorem Wired.sp {bus : Bus} (h : bus.Wired) :
    bus.sp.registers.layout = SignalProcessor.initial.registers.layout := by
  obtain ⟨cartridge, rdramSize, heq⟩ := h
  exact congrArg Layouts.sp heq

/-- So are those of the PI. -/
theorem Wired.pi {bus : Bus} (h : bus.Wired) :
    bus.pi.registers.layout = PeripheralInterface.initial.registers.layout := by
  obtain ⟨cartridge, rdramSize, heq⟩ := h
  exact congrArg Layouts.pi heq

end Bus

end Console64
