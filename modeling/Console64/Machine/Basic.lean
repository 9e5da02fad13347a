import Console64.Bus.Transfer
import Console64.Cpu.Alu

/-! # CPU and bus together

Loads, stores and fetches by virtual address.  An access that raises an exception
answers `none` (or false) and leaves the condition noted in the CPU; a fault of
the bus is an error, and what was done before it stays done. -/

namespace Console64

/-- A CPU and the bus that it works on. -/
structure Machine where
  cpu : Cpu
  bus : Bus

/-- Work on a machine that may end in a bus fault. -/
abbrev MachineM := EStateM BusError Machine

namespace Machine

/-- Work on the bus alone. -/
@[inline] def onBus {α : Type} (x : BusM α) : MachineM α := fun ⟨cpu, bus⟩ =>
  match x bus with
  | .ok a bus => .ok a ⟨cpu, bus⟩
  | .error e bus => .error e ⟨cpu, bus⟩

/-- Work on the CPU alone. -/
@[inline] def onCpu {α : Type} (f : Cpu → α × Cpu) : MachineM α := fun ⟨cpu, bus⟩ =>
  let (a, cpu) := f cpu
  .ok a ⟨cpu, bus⟩

/-- Change the CPU. -/
@[inline] def modifyCpu (f : Cpu → Cpu) : MachineM Unit := fun ⟨cpu, bus⟩ => .ok () ⟨f cpu, bus⟩

/-- Look at the CPU. -/
@[inline] def withCpu {α : Type} (f : Cpu → α) : MachineM α := fun m => .ok (f m.cpu) m

/-- Fetch the instruction at `pc`. -/
def fetch (pc : UInt64) : MachineM (Option UInt32) := do
  match ← onCpu (·.translateAligned pc 4 .fetch) with
  | some physical => return some (← onBus (Bus.readWord physical))
  | none => return none

/-- Load `size` bytes as an unsigned number. -/
def load (a : UInt64) (size : Nat) : MachineM (Option UInt64) := do
  match ← onCpu (·.translateAligned a size .load) with
  | some physical => return some (← onBus (Bus.readValue physical size))
  | none => return none

/-- Store the low `size` bytes of a value; the answer tells whether it was done. -/
def store (a : UInt64) (size : Nat) (v : UInt64) : MachineM Bool := do
  match ← onCpu (·.translateAligned a size .store) with
  | some physical =>
    onBus (Bus.writeValue physical size v)
    return true
  | none => return false

/-- Store bytes that lie inside one aligned word or doubleword; the answer tells
whether it was done. -/
def storeBytes (a : UInt64) (bytes : List UInt8) : MachineM Bool := do
  match ← onCpu (·.translate a .store) with
  | some physical =>
    onBus (Bus.write physical bytes)
    return true
  | none => return false

end Machine

end Console64
