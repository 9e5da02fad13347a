/-! # The status and cause words

Decoded views of the two registers that the CPU consults all the time. -/

namespace Console64

/-- How much a program may do. -/
inductive Privilege where
  | kernel
  | supervisor
  | user
  deriving DecidableEq, Repr, Inhabited

/-- The status word, decoded. -/
structure StatusFlags where
  ie : Bool := false
  exl : Bool := false
  erl : Bool := false
  ksu : Privilege := .kernel
  ux : Bool := false
  sx : Bool := false
  kx : Bool := false
  im : UInt8 := 0
  de : Bool := false
  ce : Bool := false
  ts : Bool := false
  bev : Bool := false
  re : Bool := false
  fr : Bool := false
  rp : Bool := false
  cu : UInt8 := 0
  deriving DecidableEq, Repr, Inhabited

/-- Bit `n` of a word. -/
def testBit (word n : UInt32) : Bool := (word >>> n) &&& 1 = 1

namespace StatusFlags

/-- The privilege that two bits select; the reserved value is user. -/
def privilegeOf (bits : UInt32) : Privilege :=
  if bits = 0 then .kernel else if bits = 1 then .supervisor else .user

def decode (word : UInt32) : StatusFlags where
  ie := testBit word 0
  exl := testBit word 1
  erl := testBit word 2
  ksu := privilegeOf ((word >>> 3) &&& 3)
  ux := testBit word 5
  sx := testBit word 6
  kx := testBit word 7
  im := (word >>> 8).toUInt8
  de := testBit word 16
  ce := testBit word 17
  ts := testBit word 21
  bev := testBit word 22
  re := testBit word 25
  fr := testBit word 26
  rp := testBit word 27
  cu := (word >>> 28).toUInt8

/-- Coprocessor `unit` may be used. -/
def usable (s : StatusFlags) (unit : UInt8) : Bool := (s.cu >>> unit) &&& 1 = 1

end StatusFlags

/-- The cause word, decoded. -/
structure CauseFlags where
  code : UInt8 := 0
  ip : UInt8 := 0
  ce : UInt8 := 0
  bd : Bool := false
  deriving DecidableEq, Repr, Inhabited

def CauseFlags.decode (word : UInt32) : CauseFlags where
  code := ((word >>> 2) &&& 0x1F).toUInt8
  ip := (word >>> 8).toUInt8
  ce := ((word >>> 28) &&& 3).toUInt8
  bd := testBit word 31

end Console64
