/-! # Controllers

The host adds button presses at any time; a poll takes everything added since
the last one, so that a press shorter than the time between polls is still seen
once. -/

namespace Console64

/-- A button mask, in the bit order of the wire. -/
structure Buttons where
  bits : UInt16
  deriving DecidableEq, Repr, Inhabited

namespace Buttons

def none : Buttons := ⟨0⟩

def start : Buttons := ⟨0x1000⟩

def stickRight : Buttons := ⟨0x0100⟩

def stickLeft : Buttons := ⟨0x0200⟩

def stickDown : Buttons := ⟨0x0400⟩

def stickUp : Buttons := ⟨0x0800⟩

/-- Either mask. -/
def union (a b : Buttons) : Buttons := ⟨a.bits ||| b.bits⟩

instance : OrOp Buttons := ⟨union⟩

/-- Every bit of `b` is set in `a`. -/
def contains (a b : Buttons) : Bool := a.bits &&& b.bits = b.bits

/-- How far a direction bit pushes the stick. -/
def deflection : Int8 := 50

/-- One stick axis; of two opposite directions the positive one wins. -/
def axis (b positive negative : Buttons) : Int8 :=
  if b.contains positive then deflection
  else if b.contains negative then -deflection
  else 0

/-- Horizontal stick position. -/
def stickX (b : Buttons) : Int8 := b.axis stickRight stickLeft

/-- Vertical stick position. -/
def stickY (b : Buttons) : Int8 := b.axis stickUp stickDown

/-- The four bytes a poll answers: the mask, then the stick. -/
def report (b : Buttons) : List UInt8 :=
  [(b.bits >>> 8).toUInt8, b.bits.toUInt8, b.stickX.toUInt8, b.stickY.toUInt8]

end Buttons

/-- One controller: what was pressed since the last poll, and whether
anything was added since then. -/
structure Controller where
  pressed : Buttons := .none
  pending : Bool := false
  deriving DecidableEq, Repr, Inhabited

namespace Controller

/-- Add presses. -/
def append (c : Controller) (b : Buttons) : Controller :=
  { pressed := c.pressed ||| b, pending := true }

/-- A poll: what was pressed, and the controller with nothing pending. -/
def take (c : Controller) : Buttons × Controller := (c.pressed, {})

end Controller

end Console64
