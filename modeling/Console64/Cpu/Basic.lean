import Console64.Cpu.Cop0
import Console64.Cpu.Tlb
import Console64.Cpu.Trace
import Console64.Fpu.Basic

/-! # The CPU

Thirty-two general registers of 64 bits, a multiplier, two coprocessors and the
TLB.

A branch takes effect one instruction late.  `pc` is the instruction to be
carried out and `nextPc` the one after it; `begin` moves both on, a branch
changes `nextPc`, and `retire` ends the instruction, where exceptions and
interrupts are taken. -/

namespace Console64

/-- What an address is used for. -/
inductive Access where
  | fetch
  | load
  | store
  deriving DecidableEq, Repr, Inhabited

/-- The CPU. -/
structure Cpu where
  gpr : Vector UInt64 32 := Vector.replicate 32 0
  pc : UInt64 := Cop0.resetVector
  nextPc : UInt64 := Cop0.resetVector + 4
  hi : UInt64 := 0
  lo : UInt64 := 0
  cop0 : Cop0 := .initial
  fpu : Fpu := {}
  tlb : Tlb := .initial
  /-- The instruction being carried out sits in a delay slot. -/
  inDelaySlot : Bool := false
  /-- The next instruction sits in a delay slot. -/
  branchPending : Bool := false
  /-- A linked load has been made. -/
  linked : Bool := false
  trace : Option TraceLog := none
  /-- Address of the instruction being carried out. -/
  currentPc : UInt64 := 0
  /-- The instruction being carried out. -/
  currentWord : UInt32 := 0

namespace Cpu

/-! ## Registers -/

/-- A general register. -/
def reg (c : Cpu) (r : RegisterIndex) : UInt64 := c.gpr.get r

/-- Change a general register. -/
def setGpr (c : Cpu) (r : RegisterIndex) (v : UInt64) : Cpu := { c with gpr := replaceAt c.gpr r v }

/-- Only that register has changed. -/
@[simp] theorem reg_setGpr (c : Cpu) (r s : RegisterIndex) (v : UInt64) :
    (c.setGpr r v).reg s = if r = s then v else c.reg s := get_replaceAt c.gpr r s v

def setHi (c : Cpu) (v : UInt64) : Cpu := { c with hi := v }

def setLo (c : Cpu) (v : UInt64) : Cpu := { c with lo := v }

/-- Let the floating-point registers follow the status word. -/
def followStatus (c : Cpu) : Cpu :=
  let wide := c.cop0.status.fr
  { c with fpu.wide := wide }

/-- Write the status word. -/
def writeStatus (c : Cpu) (v : UInt64) : Cpu :=
  { c with cop0 := c.cop0.write Cop0.statusWord v }.followStatus

/-- A program's write to a coprocessor register. -/
def writeCop0 (c : Cpu) (r : RegisterIndex) (v : UInt64) : Cpu :=
  if r = Cop0.statusWord then c.writeStatus v else { c with cop0 := c.cop0.write r v }

/-- Power-on state: both coprocessors usable, all floating-point registers
independent. -/
def initial : Cpu := ({} : Cpu).writeStatus 0x34000000

/-- Note a condition of the instruction being carried out. -/
def recordCondition (c : Cpu) (k : Condition) : Cpu := { c with cop0 := c.cop0.recordCondition k }

/-- Note an exception of the instruction being carried out. -/
def raise (c : Cpu) (code : ExceptionCode) : Cpu := c.recordCondition (.general code)

/-! ## The flow of control -/

/-- Go on at `pc`, with no delay slot in between. -/
def jumpTo (c : Cpu) (pc : UInt64) : Cpu :=
  { c with pc, nextPc := pc + 4, branchPending := false }

/-- Start to carry out the instruction `word` at `pc`. -/
def begin (c : Cpu) (pc : UInt64) (word : UInt32) : Cpu :=
  { c with
    currentPc := pc
    currentWord := word
    inDelaySlot := c.branchPending
    branchPending := false
    pc := c.nextPc
    nextPc := c.nextPc + 4 }

/-- A branch; the instruction after it is a delay slot either way. -/
def branch (c : Cpu) (target : UInt64) (taken : Bool) : Cpu :=
  { c with nextPc := if taken then target else c.nextPc, branchPending := true }

/-- A branch that skips its delay slot when it is not taken. -/
def branchLikely (c : Cpu) (target : UInt64) (taken : Bool) : Cpu :=
  if taken then c.branch target true
  else { c with pc := c.nextPc, nextPc := c.nextPc + 4 }

/-- Where an exception taken now returns to.  What an instruction ran into
belongs to it; an interrupt belongs to the next one. -/
def exceptionSite (c : Cpu) : ExceptionSite :=
  if c.cop0.pending.isSome then ⟨c.currentPc, c.inDelaySlot⟩ else ⟨c.pc, c.branchPending⟩

/-- Add the instruction being carried out to the trace. -/
def traceCurrent (c : Cpu) : Cpu :=
  let entry : RetiredInstruction := ⟨c.currentPc, c.currentWord, c.inDelaySlot⟩
  { c with trace := c.trace.map (·.push entry) }

/-- Take an exception or interrupt, if there is one; the answer tells that there
was none. -/
def serviceExceptions (c : Cpu) : Cpu × Bool :=
  let site := c.exceptionSite
  match c.cop0.service site with
  -- The handler may find another register mode of the floating-point unit
  | (some target, cop0) => ({ c with cop0 }.followStatus.jumpTo target, false)
  | (none, cop0) => ({ c with cop0 }, true)

/-- End the instruction being carried out; the answer tells that execution goes
on where it left off. -/
def retire (c : Cpu) : Cpu × Bool :=
  -- Whatever the instruction has written to register zero is gone
  let c := c.setGpr 0 0
  let c := { c with cop0 := c.cop0.tick.stepRandom }
  c.traceCurrent.serviceExceptions

/-! ## Addresses -/

/-- What an address leads to. -/
inductive Segment where
  /-- Physical memory itself. -/
  | direct (physical : UInt32)
  /-- A page that the TLB maps. -/
  | mapped
  /-- Nothing that may be used. -/
  | forbidden
  deriving DecidableEq, Repr

/-- `a` lies between the two bounds, both included. -/
def within (least greatest a : UInt64) : Bool := least ≤ a && a ≤ greatest

/-- The segments of the 64-bit address space. -/
def wideSegment (privilege : Privilege) (a : UInt64) : Segment :=
  let kernel : Bool := privilege = .kernel
  let user : Bool := privilege = .user
  if within 0 0x000000FFFFFFFFFF a then .mapped
  else if within 0x4000000000000000 0x400000FFFFFFFFFF a && !user then .mapped
  else if within 0x8000000000000000 0xBFFFFFFFFFFFFFFF a && kernel then .direct a.toUInt32
  else if within 0xC000000000000000 0xC00000FF7FFFFFFF a && kernel then .mapped
  -- From here on the segments are those of the 32-bit address space
  else if within 0xFFFFFFFF80000000 0xFFFFFFFFBFFFFFFF a && kernel then
    .direct (a.toUInt32 &&& 0x1FFFFFFF)
  else if within 0xFFFFFFFFC0000000 0xFFFFFFFFDFFFFFFF a && !user then .mapped
  else if within 0xFFFFFFFFE0000000 0xFFFFFFFFFFFFFFFF a && kernel then .mapped
  else .forbidden

/-- The segments of the 32-bit address space; the upper half of the address does
not count. -/
def narrowSegment (privilege : Privilege) (a : UInt32) : Segment :=
  let kernel : Bool := privilege = .kernel
  let user : Bool := privilege = .user
  if a < 0x80000000 then .mapped
  else if a < 0xC0000000 then if kernel then .direct (a &&& 0x1FFFFFFF) else .forbidden
  else if a < 0xE0000000 then if user then .forbidden else .mapped
  else if kernel then .mapped
  else .forbidden

/-- The condition that a TLB fault leads to. -/
def tlbCondition (wide store : Bool) (a : UInt64) : TlbFault → Condition
  | .miss => if wide then .xtlbRefill store a else .tlbRefill store a
  | .invalid => .address (.tlb store) a
  | .modified => .address .tlbModification a

/-- The physical address behind `a`, or what stands in the way. -/
def resolve (c : Cpu) (a : UInt64) (access : Access) : Except Condition UInt32 :=
  let store : Bool := access = .store
  let wide := c.cop0.wideAddresses
  let privilege := c.cop0.privilege
  let segment := if wide then wideSegment privilege a else narrowSegment privilege a.toUInt32
  match segment with
  | .direct physical => .ok physical
  | .forbidden => .error (.address (.addressError store) a)
  | .mapped =>
    -- An address of 32 bits is looked up as its sign extension
    let page := if wide then a else signExtend32 a.toUInt32
    match c.tlb.translate page c.cop0.addressSpace store with
    | .ok physical => .ok physical
    | .error fault => .error (tlbCondition wide store a fault)

/-- `resolve`, noting what stands in the way. -/
def translate (c : Cpu) (a : UInt64) (access : Access) : Option UInt32 × Cpu :=
  match c.resolve a access with
  | .ok physical => (some physical, c)
  | .error k => (none, c.recordCondition k)

/-- `translate` for an access of `size` bytes, which has to be aligned. -/
def translateAligned (c : Cpu) (a : UInt64) (size : Nat) (access : Access) :
    Option UInt32 × Cpu :=
  if a % UInt64.ofNat size = 0 then c.translate a access
  else (none, c.recordCondition (.address (.addressError (access = .store)) a))

end Cpu

end Console64
