import Console64.Register.Map

/-! # AI: the audio interface

Samples are not played.  The registers keep what was stored, the remaining
length always reads as drained, and a STATUS store acknowledges the interrupt. -/

namespace Console64

/-- The audio registers. -/
structure AudioInterface where
  registers : RegisterMap

namespace AudioInterface

/-- Slots of the register map. -/
abbrev statusSlot : Nat := 3
abbrev rateSlot : Nat := 4

/-- All registers zero. -/
def initial : AudioInterface where
  registers := .ofWords "AI" 0x100000
    [.single "AI_DRAM_ADDR" 1, .dual "AI_LEN" 1, .single "AI_CONTROL" 1, .dual "AI_STATUS" 1,
      .single "AI_DACRATE" 1, .single "AI_BITRATE" 1]

/-- Samples per second: the video clock over the divider, 32000 while no
divider is set. -/
def sampleRate (a : AudioInterface) : Nat :=
  let divider := (a.registers.stored rateSlot &&& 0x3FFF).toNat
  if divider = 0 then 32000 else 48681812 / (divider + 1)

end AudioInterface

end Console64
