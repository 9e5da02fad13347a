import Console64.Cpu.RegisterIndex

/-! # The TLB

Virtual to physical addresses: thirty-two entries, each of which maps a pair of
pages whose size it chooses. -/

namespace Console64

/-- One entry: the page mask, the virtual page pair with its address space, and
the frames of the even and the odd page. -/
structure TlbEntry where
  pageMask : UInt32 := 0
  hi : UInt64 := 0
  lo0 : UInt64 := 0
  lo1 : UInt64 := 0
  deriving DecidableEq, Repr, Inhabited

namespace TlbEntry

/-- The page mask bits that are kept. -/
def pageMaskBits : UInt32 := 0x01FFE000

/-- The address bits that can take part in a match. -/
def pageBits : UInt64 := 0xC00000FFFFFFE000

/-- The frame bits that are kept. -/
def frameBits : UInt64 := 0x3FFFFFFF

/-- The offset bits inside the pair of pages. -/
def mask (e : TlbEntry) : UInt64 := e.pageMask.toUInt64 ||| 0x1FFF

/-- The address bits that take part in a match. -/
def comparedBits (e : TlbEntry) : UInt64 := pageBits &&& ~~~e.mask

/-- The entry holds in every address space. -/
def isGlobal (e : TlbEntry) : Bool := e.lo0 &&& e.lo1 &&& 1 = 1

/-- The entry translates `address` in address space `space`. -/
def covers (e : TlbEntry) (address : UInt64) (space : UInt8) : Bool :=
  address &&& e.comparedBits = e.hi &&& e.comparedBits &&
    (e.isGlobal || e.hi.toUInt8 = space)

/-- What is kept of an entry when it is written. -/
def stored (e : TlbEntry) : TlbEntry :=
  let kept := { e with pageMask := e.pageMask &&& pageMaskBits }
  { kept with
    hi := (e.hi &&& kept.comparedBits) ||| (e.hi &&& 0xFF)
    lo0 := e.lo0 &&& frameBits
    lo1 := e.lo1 &&& frameBits }

/-- The frame of the page that holds `address`: the bit above the offset tells
odd from even. -/
def frameFor (e : TlbEntry) (address : UInt64) : UInt64 :=
  if address &&& ((e.mask + 1) >>> 1) ≠ 0 then e.lo1 else e.lo0

/-- The physical address, by the frame and the offset in the page. -/
def physical (e : TlbEntry) (frame address : UInt64) : UInt32 :=
  let offsetBits := e.mask >>> 1
  ((((frame >>> 6 &&& 0x00FFFFFF) <<< 12) &&& ~~~offsetBits) ||| (address &&& offsetBits)).toUInt32

end TlbEntry

/-- Why an address cannot be translated. -/
inductive TlbFault where
  /-- No entry covers it. -/
  | miss
  /-- The page is not valid. -/
  | invalid
  /-- A store to a page that may only be loaded from. -/
  | modified
  deriving DecidableEq, Repr

/-- The entries. -/
structure Tlb where
  entries : Vector TlbEntry 32

namespace Tlb

/-- Page pairs that no translated address can have. -/
def unusedPage : UInt64 := 0xC00000FF80000000

/-- Entries for page pairs that no translated address can have. -/
def initial : Tlb where
  entries := Vector.ofFn fun i => { hi := unusedPage ||| (UInt64.ofNat i.val <<< 13) }

def read (t : Tlb) (index : Fin 32) : TlbEntry := t.entries.get index

/-- Write an entry; bits that do not exist are dropped. -/
def write (t : Tlb) (index : Fin 32) (e : TlbEntry) : Tlb :=
  { entries := replaceAt t.entries index e.stored }

/-- The first entry that covers the address and address space in `hi`. -/
def probe (t : Tlb) (hi : UInt64) : Option (Fin 32) :=
  t.entries.findFinIdx? (·.covers hi hi.toUInt8)

/-- Translate an address by the first entry that covers it. -/
def translate (t : Tlb) (address : UInt64) (space : UInt8) (store : Bool) :
    Except TlbFault UInt32 :=
  match t.entries.find? (·.covers address space) with
  | none => .error .miss
  | some e =>
    -- Bit 1 of a frame makes it valid, and bit 2 lets stores in
    let frame := e.frameFor address
    if frame &&& 2 = 0 then .error .invalid
    else if store && frame &&& 4 = 0 then .error .modified
    else .ok (e.physical frame address)

end Tlb

end Console64
