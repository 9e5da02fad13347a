/-! # Exceptions

What can interrupt the flow of a program.  A `Condition` is recorded by the
instruction that causes it and taken when that instruction retires. -/

namespace Console64

/-- The codes by which programs tell exceptions apart. -/
inductive ExceptionCode where
  | interrupt
  | tlbModification
  | tlbLoad
  | tlbStore
  | addressErrorLoad
  | addressErrorStore
  | busErrorInstruction
  | busErrorData
  | syscall
  | breakpoint
  | reservedInstruction
  | coprocessorUnusable
  | overflow
  | trap
  | floatingPoint
  | watch
  deriving DecidableEq, Repr, Inhabited

namespace ExceptionCode

/-- Every code. -/
def all : List ExceptionCode :=
  [interrupt, tlbModification, tlbLoad, tlbStore, addressErrorLoad, addressErrorStore,
    busErrorInstruction, busErrorData, syscall, breakpoint, reservedInstruction,
    coprocessorUnusable, overflow, trap, floatingPoint, watch]

/-- The number of a code. -/
def number : ExceptionCode → UInt8
  | interrupt => 0
  | tlbModification => 1
  | tlbLoad => 2
  | tlbStore => 3
  | addressErrorLoad => 4
  | addressErrorStore => 5
  | busErrorInstruction => 6
  | busErrorData => 7
  | syscall => 8
  | breakpoint => 9
  | reservedInstruction => 10
  | coprocessorUnusable => 11
  | overflow => 12
  | trap => 13
  | floatingPoint => 15
  | watch => 23

/-- The code with a given number. -/
def ofNumber? (n : UInt8) : Option ExceptionCode := all.find? (·.number = n)

/-- An address error, for a load or a store. -/
def addressError (store : Bool) : ExceptionCode :=
  if store then addressErrorStore else addressErrorLoad

/-- A TLB fault, for a load or a store. -/
def tlb (store : Bool) : ExceptionCode := if store then tlbStore else tlbLoad

end ExceptionCode

/-- Something that an instruction ran into. -/
inductive Condition where
  | reset
  /-- No entry translates the address. -/
  | tlbRefill (store : Bool) (address : UInt64)
  /-- The same under 64-bit addressing. -/
  | xtlbRefill (store : Bool) (address : UInt64)
  | cacheError
  /-- An address that may not be used in this way. -/
  | address (code : ExceptionCode) (address : UInt64)
  | coprocessorUnusable (unit : UInt8)
  | general (code : ExceptionCode)
  deriving DecidableEq, Repr, Inhabited

namespace Condition

/-- The code that the program will find. -/
def code : Condition → ExceptionCode
  | reset | cacheError => .interrupt
  | tlbRefill store _ | xtlbRefill store _ => .tlb store
  | address code _ => code
  | coprocessorUnusable _ => .coprocessorUnusable
  | general code => code

/-- Of several conditions of one instruction the one of highest priority is
taken, and of equals the first. -/
def priority : Condition → Nat
  | reset => 3
  | tlbRefill _ _ | xtlbRefill _ _ => 2
  | cacheError => 1
  | address _ _ | coprocessorUnusable _ | general _ => 0

/-- The address at fault. -/
def faultAddress : Condition → Option UInt64
  | tlbRefill _ a | xtlbRefill _ a | address _ a => some a
  | reset | cacheError | coprocessorUnusable _ | general _ => none

end Condition

/-- Where an exception is taken: the instruction to return to. -/
structure ExceptionSite where
  pc : UInt64
  /-- The instruction sits in a delay slot, so its branch is returned to. -/
  delaySlot : Bool
  deriving DecidableEq, Repr, Inhabited

/-- The address to return to. -/
def ExceptionSite.returnAddress (s : ExceptionSite) : UInt64 :=
  if s.delaySlot then s.pc - 4 else s.pc

end Console64
