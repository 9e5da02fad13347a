import Console64.Text.Hex

/-! # What can be wrong with a cartridge image -/

namespace Console64

/-- Why an image is refused. -/
inductive CartridgeError where
  /-- The host cannot read or write the image, for the reason given. -/
  | unreadable (reason : String)
  /-- The first word names no known byte order. -/
  | unknownFormat (magic : UInt32)
  /-- The image is shorter than what is to be read from it. -/
  | tooSmall (size : Nat)
  deriving DecidableEq, Repr, Inhabited

/-- The text shown for a refused image. -/
def CartridgeError.message : CartridgeError → String
  | .unreadable reason => "IO error: " ++ reason
  | .unknownFormat magic => s!"Unknown ROM format (magic " ++ Hex.word magic ++ ")"
  | .tooSmall size => s!"ROM too small (got {size} bytes)"

end Console64
