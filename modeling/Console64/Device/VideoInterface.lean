import Console64.Register.Map

/-! # VI: the video interface

Keeps the half-line counter.  `advance` moves it with time and tells whether a
line was reached that the program wants to be interrupted at. -/

namespace Console64

/-- Video registers, and the CPU cycles spent on the current half-line. -/
structure VideoInterface where
  registers : RegisterMap
  lineCycles : UInt64 := 0

namespace VideoInterface

/-- Slots of the register map. -/
abbrev originSlot : Nat := 1
abbrev interruptSlot : Nat := 3
abbrev currentSlot : Nat := 4
abbrev verticalSyncSlot : Nat := 6
abbrev horizontalStartSlot : Nat := 9
abbrev verticalStartSlot : Nat := 10
abbrev xScaleSlot : Nat := 12
abbrev yScaleSlot : Nat := 13

/-- CPU cycles in one half-line: 93.75 MHz, 60 fields, 525 half-lines. -/
def cyclesPerLine : Nat := 93750000 / 60 / 525

/-- Half-lines in a field when the program has not chosen a number. -/
def defaultLines : UInt32 := 525

/-- The counter can be read and its store acknowledges the interrupt; all other
registers just keep what was stored. -/
def initial : VideoInterface where
  registers := .ofWords "VI" 0x100000
    [.single "VI_CTRL" 1, .single "VI_ORIGIN" 1, .single "VI_WIDTH" 1, .single "VI_INTR" 1,
      .dual "VI_CURRENT" 1, .single "VI_BURST" 1, .single "VI_V_SYNC" 1, .single "VI_H_SYNC" 1,
      .single "VI_LEAP" 1, .single "VI_H_START" 1, .single "VI_V_START" 1,
      .single "VI_V_BURST" 1, .single "VI_X_SCALE" 1, .single "VI_Y_SCALE" 1]

/-- Address of the picture in main memory. -/
def origin (v : VideoInterface) : UInt32 := v.registers.visible originSlot &&& 0x00FFFFFF

/-- The half-line being drawn. -/
def currentLine (v : VideoInterface) : UInt32 := v.registers.visible currentSlot

/-- The half-line to be interrupted at. -/
def interruptLine (v : VideoInterface) : UInt32 := v.registers.visible interruptSlot &&& 0x3FF

/-- Half-lines in a field. -/
def fieldLines (v : VideoInterface) : UInt32 :=
  let lines := v.registers.visible verticalSyncSlot &&& 0x3FF
  if lines = 0 then defaultLines else lines

/-- Length of the visible part of a line or field: the span from start to end,
scaled; `default` while no scale is set. -/
def visibleSpan (startEnd scale : UInt32) (divisor default : Nat) : Nat :=
  let scale := (scale &&& 0xFFF).toNat
  if scale = 0 then default
  else
    let start := ((startEnd >>> 16) &&& 0x3FF).toNat
    let stop := (startEnd &&& 0x3FF).toNat
    (stop - start) * scale / divisor

/-- Visible width in pixels. -/
def displayWidth (v : VideoInterface) : Nat :=
  visibleSpan (v.registers.visible horizontalStartSlot) (v.registers.visible xScaleSlot) 0x400 320

/-- Visible height in lines. -/
def displayHeight (v : VideoInterface) : Nat :=
  visibleSpan (v.registers.visible verticalStartSlot) (v.registers.visible yScaleSlot) 0x800 240

/-- CPU cycles until the counter moves next. -/
def cyclesToNextLine (v : VideoInterface) : Nat := cyclesPerLine - v.lineCycles.toNat

/-- Move to the next half-line. -/
def nextLine (v : VideoInterface) : VideoInterface :=
  { v with registers := v.registers.publish currentSlot ((v.currentLine + 1) % v.fieldLines) }

/-- The cycles of a half-line can be taken off if there are that many. -/
theorem toNat_sub_cyclesPerLine {cycles : UInt64} (h : cyclesPerLine ≤ cycles.toNat) :
    (cycles - UInt64.ofNat cyclesPerLine).toNat = cycles.toNat - cyclesPerLine :=
  UInt64.toNat_sub_of_le _ _ (UInt64.le_iff_toNat_le.mpr h)

/-- A half-line takes some time. -/
theorem cyclesPerLine_pos : 0 < cyclesPerLine := by decide

/-- Take the half-lines that have ended off the cycles, one by one; the second
part tells whether one of those reached was the line to be interrupted at. -/
def endLines (v : VideoInterface) (hit : Bool) : VideoInterface × Bool :=
  if cyclesPerLine ≤ v.lineCycles.toNat then
    -- The line is compared after the move: it is hit when the counter comes to it
    let next := { v with lineCycles := v.lineCycles - UInt64.ofNat cyclesPerLine }.nextLine
    endLines next (hit || next.currentLine = next.interruptLine)
  else (v, hit)
termination_by v.lineCycles.toNat
decreasing_by
  show (v.lineCycles - UInt64.ofNat cyclesPerLine).toNat < v.lineCycles.toNat
  have hpos := cyclesPerLine_pos
  rw [toNat_sub_cyclesPerLine ‹_›]
  omega

/-- What is left is the part of a half-line that has not ended. -/
theorem toNat_lineCycles_endLines (v : VideoInterface) (hit : Bool) :
    (v.endLines hit).1.lineCycles.toNat = v.lineCycles.toNat % cyclesPerLine := by
  fun_induction v.endLines hit with
  | case1 v hit hended next ih =>
    have hleft : next.lineCycles.toNat = v.lineCycles.toNat - cyclesPerLine :=
      toNat_sub_cyclesPerLine hended
    rw [ih, hleft, ← Nat.mod_eq_sub_mod hended]
  | case2 v hit hrest => exact (Nat.mod_eq_of_lt (Nat.lt_of_not_le hrest)).symm

/-- Let `cycles` CPU cycles pass.  They are counted in 64 bits. -/
def advance (v : VideoInterface) (cycles : UInt64) : VideoInterface × Bool :=
  { v with lineCycles := v.lineCycles + cycles }.endLines false

/-- Cycles that fit are counted exactly. -/
theorem toNat_add_lineCycles {v : VideoInterface} {cycles : Nat}
    (hfits : v.lineCycles.toNat + cycles < UInt64.size) :
    (v.lineCycles + UInt64.ofNat cycles).toNat = v.lineCycles.toNat + cycles := by
  have hcycles : cycles < UInt64.size := by omega
  rw [UInt64.toNat_add, UInt64.toNat_ofNat_of_lt' hcycles, Nat.mod_eq_of_lt hfits]

/-- So the part of the current half-line that has passed is known without counting half-lines. -/
theorem toNat_lineCycles_advance {v : VideoInterface} {cycles : Nat}
    (hfits : v.lineCycles.toNat + cycles < UInt64.size) :
    (v.advance (UInt64.ofNat cycles)).1.lineCycles.toNat =
      (v.lineCycles.toNat + cycles) % cyclesPerLine := by
  rw [advance, toNat_lineCycles_endLines, toNat_add_lineCycles hfits]

end VideoInterface

end Console64
