import Console64.Cpu.Exception
import Console64.Cpu.Flags
import Console64.Cpu.Instruction

/-! # The system control coprocessor

Registers for address mapping, exceptions, interrupts and the timer.  The status and
cause words are kept twice: in the registers and as decoded views, which every
write to the words renews.

`recordCondition` notes what an instruction ran into; `service` takes the noted
condition, or else an interrupt, and gives the address to go on at. -/

namespace Console64

/-- The system control coprocessor. -/
structure Cop0 where
  registers : Vector UInt64 32
  status : StatusFlags := {}
  cause : CauseFlags := {}
  /-- What the current instruction ran into. -/
  pending : Option Condition := none
  /-- The counter moves on every second cycle. -/
  halfCycle : Bool := false
  /-- The timer raises interrupt line 7; otherwise it is a line of its own that
  is taken once. -/
  timerOnLine7 : Bool := true
  timerPending : Bool := false

namespace Cop0

@[match_pattern] abbrev index : RegisterIndex := 0
@[match_pattern] abbrev random : RegisterIndex := 1
@[match_pattern] abbrev entryLo0 : RegisterIndex := 2
@[match_pattern] abbrev entryLo1 : RegisterIndex := 3
@[match_pattern] abbrev context : RegisterIndex := 4
@[match_pattern] abbrev pageMask : RegisterIndex := 5
@[match_pattern] abbrev wired : RegisterIndex := 6
@[match_pattern] abbrev badAddress : RegisterIndex := 8
@[match_pattern] abbrev count : RegisterIndex := 9
@[match_pattern] abbrev entryHi : RegisterIndex := 10
@[match_pattern] abbrev compare : RegisterIndex := 11
@[match_pattern] abbrev statusWord : RegisterIndex := 12
@[match_pattern] abbrev causeWord : RegisterIndex := 13
@[match_pattern] abbrev epc : RegisterIndex := 14
@[match_pattern] abbrev processorId : RegisterIndex := 15
@[match_pattern] abbrev config : RegisterIndex := 16
@[match_pattern] abbrev linkAddress : RegisterIndex := 17
@[match_pattern] abbrev extendedContext : RegisterIndex := 20
@[match_pattern] abbrev errorEpc : RegisterIndex := 30

/-- The low 32 bits. -/
def low32 (v : UInt64) : UInt64 := v &&& 0xFFFFFFFF

/-- Status bit EXL: an exception is being handled. -/
def exlBit : UInt64 := 0x00000002

/-- Status bit ERL: an error is being handled. -/
def erlBit : UInt64 := 0x00000004

/-- Status bit BEV: exceptions go to the boot ROM. -/
def bevBit : UInt64 := 0x00400000

/-- Cause bit BD: the exception was taken in a delay slot. -/
def bdBit : UInt64 := 0x80000000

/-- Cause bit IP7: the timer. -/
def timerBit : UInt64 := 0x8000

/-- The cause bits that programs may write. -/
def softwareBits : UInt64 := 0x300

/-- The part of the context register that hardware owns, and what lies below. -/
def contextField : UInt64 := 0x007FFFFF

/-- The part of the extended context register that hardware owns, and what lies
below. -/
def extendedContextField : UInt64 := 0x1FFFFFFFF

/-- Where execution starts. -/
def resetVector : UInt64 := 0xFFFFFFFFBFC00000

/-- Power-on state. -/
def initial : Cop0 where
  registers :=
    replaceAt (replaceAt (replaceAt (Vector.replicate 32 0) config 0x0006E463) random 31)
      processorId 0x0B22

def get (c : Cop0) (r : RegisterIndex) : UInt64 := c.registers.get r

/-- Change a register and nothing else. -/
def put (c : Cop0) (r : RegisterIndex) (v : UInt64) : Cop0 :=
  { c with registers := replaceAt c.registers r v }

/-- The register that was changed has the value, and the others have theirs. -/
@[simp] theorem get_put (c : Cop0) (r s : RegisterIndex) (v : UInt64) :
    (c.put r v).get s = if r = s then v else c.get s := get_replaceAt c.registers r s v

/-- Change the status word and its view. -/
def setStatus (c : Cop0) (word : UInt64) : Cop0 :=
  { c.put statusWord (low32 word) with status := .decode word.toUInt32 }

/-- Change the cause word and its view. -/
def setCause (c : Cop0) (word : UInt64) : Cop0 :=
  { c.put causeWord (low32 word) with cause := .decode word.toUInt32 }

/-- Replace the bits of `old` outside `field` by those of `new`, except that the
low four bits are cleared. -/
def keepHardware (field old new : UInt64) : UInt64 :=
  (new &&& ~~~field) ||| (old &&& field &&& ~~~0xF)

/-- A program's write to a register. -/
def write (c : Cop0) (r : RegisterIndex) (v : UInt64) : Cop0 :=
  match r with
  | count => c.put count (low32 v)
  | compare =>
    -- A new compare value takes the interrupt of the old one back
    let c := (c.put compare (low32 v))
    { c.setCause (c.get causeWord &&& ~~~timerBit) with timerPending := false }
  | statusWord => c.setStatus v
  | causeWord => c.setCause ((c.get causeWord &&& ~~~softwareBits) ||| (v &&& softwareBits))
  | wired => (c.put wired (v &&& 0x3F)).put random 31
  | context => c.put context (keepHardware contextField (c.get context) v)
  | extendedContext =>
    c.put extendedContext (keepHardware extendedContextField (c.get extendedContext) v)
  | random | processorId | badAddress => c
  | pageMask => c.put pageMask (v &&& 0x01FFE000)
  | index => c.put index (v &&& 0x8000003F)
  | r => c.put r v

/-- The privilege in force: handling an exception or error is always kernel. -/
def privilege (c : Cop0) : Privilege :=
  if c.status.exl || c.status.erl then .kernel else c.status.ksu

/-- Addresses are 64 bits wide. -/
def wideAddresses (c : Cop0) : Bool :=
  match c.privilege with
  | .kernel => c.status.kx
  | .supervisor => c.status.sx
  | .user => c.status.ux

/-- 64-bit operations may be used. -/
def wideOperations (c : Cop0) : Bool := c.privilege = .kernel || c.wideAddresses

/-- The address space in use. -/
def addressSpace (c : Cop0) : UInt8 := (c.get entryHi).toUInt8

/-! ## Conditions -/

/-- Leave the address at fault where handlers look for it. -/
def recordFault (c : Cop0) (a : UInt64) : Cop0 :=
  let c := c.put badAddress a
  -- Entries map pairs of pages, so that tables are indexed by the pair
  let page := a >>> 13
  let c := c.put context
    ((c.get context &&& ~~~contextField) ||| ((page &&& 0x7FFFF) <<< 4))
  let c := c.put extendedContext
    ((c.get extendedContext &&& ~~~extendedContextField) ||| ((a >>> 62) <<< 31) |||
      ((page &&& 0x7FFFFFF) <<< 4))
  c.put entryHi ((a &&& 0xC00000FFFFFFE000) ||| (c.get entryHi &&& 0xFF))

/-- Note a condition, unless one of at least its priority is noted already. -/
def recordCondition (c : Cop0) (k : Condition) : Cop0 :=
  if c.pending.any fun p => k.priority ≤ p.priority then c
  else
    let c := match k.faultAddress with
      | some a => c.recordFault a
      | none => c
    { c with pending := some k }

/-! ## Interrupts and the timer -/

/-- Drive interrupt line `line`. -/
def driveLine (c : Cop0) (line : UInt64) (level : Bool) : Cop0 :=
  -- The lines are bits 8 to 15 of the cause word
  let bit : UInt64 := (1 : UInt64) <<< (8 + line)
  let old := c.get causeWord
  let new := if level then old ||| bit else old &&& ~~~bit
  if new = old then c else c.setCause new

/-- The counter has reached the compare value. -/
def timerExpired (c : Cop0) : Cop0 :=
  if c.timerOnLine7 then c.setCause (c.get causeWord ||| timerBit)
  else { c with timerPending := true }

/-- One cycle passes. -/
def tick (c : Cop0) : Cop0 :=
  let c := { c with halfCycle := !c.halfCycle }
  if c.halfCycle then c
  else
    -- Only a step onto the compare value counts, not being there
    let now := low32 (c.get count + 1)
    let c := c.put count now
    if now = low32 (c.get compare) then c.timerExpired else c

/-- The replacement index moves down, from the wired limit back to 31. -/
def stepRandom (c : Cop0) : Cop0 :=
  let limit := c.get wired &&& 0x1F
  let now := c.get random &&& 0x1F
  c.put random (if now ≤ limit then 31 else now - 1)

def interruptsEnabled (c : Cop0) : Bool := c.status.ie && !c.status.exl && !c.status.erl

/-- The lowest interrupt line that is asserted and let through. -/
def pendingLine (c : Cop0) : Option Nat :=
  let live := c.cause.ip &&& c.status.im
  (List.range 8).find? fun line => (live >>> UInt8.ofNat line) &&& 1 = 1

/-! ## Entering and leaving exceptions -/

/-- Where the handlers are, all but the one for cache errors. -/
def vectorBase (c : Cop0) : UInt64 :=
  if c.status.bev then 0xFFFFFFFFBFC00200 else 0xFFFFFFFF80000000

/-- Where the handler for cache errors is counted from. -/
def cacheVectorBase (c : Cop0) : UInt64 :=
  if c.status.bev then 0xFFFFFFFFBFC00200 else 0xFFFFFFFFA0000000

/-- The address to return to, unless one is kept already. -/
def saveReturn (c : Cop0) (site : ExceptionSite) : Cop0 :=
  if c.status.exl then c else c.put epc site.returnAddress

/-- The cause word on entry: delay slot (unless one exception is being handled
already), code and coprocessor. -/
def enteredCause (c : Cop0) (site : ExceptionSite) (code : ExceptionCode) (unit : UInt8) :
    UInt64 :=
  let word := c.get causeWord
  let word :=
    if c.status.exl then word
    else if site.delaySlot then word ||| bdBit
    else word &&& ~~~bdBit
  let word := (word &&& ~~~0x7C) ||| (code.number.toUInt64 <<< (2 : UInt64))
  (word &&& ~~~0x30000000) ||| ((unit &&& 3).toUInt64 <<< (28 : UInt64))

/-- Enter an exception. -/
def enter (c : Cop0) (site : ExceptionSite) (code : ExceptionCode) (unit : UInt8) : Cop0 :=
  let word := c.enteredCause site code unit
  let c := (c.saveReturn site).setCause word
  c.setStatus (c.get statusWord ||| exlBit)

/-- Take an interrupt, if one is enabled and asserted. -/
def serviceInterrupt (c : Cop0) (site : ExceptionSite) : Option UInt64 × Cop0 :=
  let target := c.vectorBase + 0x180
  if !c.interruptsEnabled then (none, c)
  else if c.pendingLine.isSome then (some target, c.enter site .interrupt 0)
  -- Off line 7 the timer waits until it is taken, and is taken once
  else if c.timerPending then
    (some target, { c with timerPending := false }.enter site .interrupt 0)
  else (none, c)

/-- Take a condition. -/
def serviceCondition (c : Cop0) (site : ExceptionSite) (k : Condition) : UInt64 × Cop0 :=
  let base := c.vectorBase
  match k with
  | .reset =>
    -- The instruction itself is kept, also where it sits in a delay slot
    (resetVector,
      (c.put errorEpc site.pc).setStatus (c.get statusWord ||| erlBit ||| bevBit))
  | .cacheError =>
    (c.cacheVectorBase + 0x100,
      (c.put errorEpc site.returnAddress).setStatus (c.get statusWord ||| erlBit))
  -- A miss in a handler goes to the general vector
  | .tlbRefill _ _ => (base + if c.status.exl then 0x180 else 0, c.enter site k.code 0)
  | .xtlbRefill _ _ => (base + if c.status.exl then 0x180 else 0x080, c.enter site k.code 0)
  | .coprocessorUnusable unit => (base + 0x180, c.enter site k.code unit)
  | .address _ _ | .general _ => (base + 0x180, c.enter site k.code 0)

/-- At the end of an instruction: take what it noted, or else an interrupt.  The
answer is where to go on, none when nothing is taken. -/
def service (c : Cop0) (site : ExceptionSite) : Option UInt64 × Cop0 :=
  match c.pending with
  | some k =>
    let (target, c) := { c with pending := none }.serviceCondition site k
    (some target, c)
  | none => c.serviceInterrupt site

/-- Leave an exception or error; the answer is where to go on. -/
def leave (c : Cop0) : UInt64 × Cop0 :=
  let word := c.get statusWord
  -- An error is left first, also out of an exception
  if c.status.erl then (c.get errorEpc, c.setStatus (word &&& ~~~erlBit))
  else (c.get epc, c.setStatus (word &&& ~~~exlBit))

end Cop0

end Console64
