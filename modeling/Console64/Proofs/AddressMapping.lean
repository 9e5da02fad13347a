import Console64.Machine.Interpreter

/-!
# What changes the address mapping

How an address is translated depends on the TLB, the status word and the address
space.  This file proves that of all instructions only those of the system control
coprocessor change one of them, and that the end of an instruction does so only by
taking an exception.

## Key results

- `Cpu.resolve_congr`: translation depends on the mapping alone
- `Cpu.mapping_perform`: instructions inside the CPU keep it, but for one opcode
- `Cpu.mapping_retire`: so does an instruction that ends without an exception
-/

namespace Console64

/-! ## The coprocessor -/

namespace Cop0

/-- What translation reads from the coprocessor. -/
def mapping (c : Cop0) : StatusFlags × UInt8 := (c.status, c.addressSpace)

/-- `put` keeps the mapping, unless it is the entry register that is written. -/
theorem mapping_put (c : Cop0) (r : RegisterIndex) (v : UInt64) (h : r ≠ entryHi) :
    (c.put r v).mapping = c.mapping := by
  simp only [mapping, addressSpace, get_put, if_neg h]
  rfl

/-- The low eight bits of the entry register are the address space. -/
private theorem mapping_put_entryHi (c : Cop0) (page : UInt64) (h : page.toUInt8 = 0) :
    (c.put entryHi (page ||| (c.get entryHi &&& 0xFF))).mapping = c.mapping := by
  -- The page has no bits where the address space is kept
  have hspace : (page ||| (c.get entryHi &&& 0xFF)).toUInt8 = (c.get entryHi).toUInt8 := by
    rw [UInt64.toUInt8_or, UInt64.toUInt8_and, h, show (0xFF : UInt64).toUInt8 = -1 from rfl,
      UInt8.and_neg_one, UInt8.zero_or]
  simp only [mapping, addressSpace, get_put, ↓reduceIte, hspace]
  rfl

/-- The interrupt lines in the cause are not part of the mapping. -/
@[simp] theorem mapping_setCause (c : Cop0) (word : UInt64) :
    (c.setCause word).mapping = c.mapping :=
  mapping_put c causeWord (low32 word) (by decide)

/-- The address of a fault replaces the page in the entry register, not the address
space. -/
@[simp] theorem mapping_recordFault (c : Cop0) (a : UInt64) :
    (c.recordFault a).mapping = c.mapping := by
  have hpage : (a &&& 0xC00000FFFFFFE000).toUInt8 = 0 := by
    rw [UInt64.toUInt8_and, show (0xC00000FFFFFFE000 : UInt64).toUInt8 = 0 from rfl,
      UInt8.and_zero]
  simp only [recordFault]
  rw [mapping_put_entryHi _ _ hpage, mapping_put _ _ _ (by decide), mapping_put _ _ _ (by decide),
    mapping_put _ _ _ (by decide)]

/-- A condition that is recorded may leave the address of its fault, which keeps the mapping. -/
@[simp] theorem mapping_recordCondition (c : Cop0) (k : Condition) :
    (c.recordCondition k).mapping = c.mapping := by
  simp only [recordCondition]
  split
  · rfl
  · cases k.faultAddress with
    | none => rfl
    | some a => exact mapping_recordFault c a

/-- `timerExpired` sets a line of the cause at most. -/
@[simp] theorem mapping_timerExpired (c : Cop0) : c.timerExpired.mapping = c.mapping := by
  simp only [timerExpired]
  split
  · exact mapping_setCause c _
  · rfl

/-- A tick moves the counter, and may set off the timer. -/
@[simp] theorem mapping_tick (c : Cop0) : c.tick.mapping = c.mapping := by
  simp only [tick]
  split
  · rfl
  · split
    · rw [mapping_timerExpired]
      exact mapping_put _ count _ (by decide)
    · exact mapping_put _ count _ (by decide)

/-- `stepRandom` moves the random index only. -/
@[simp] theorem mapping_stepRandom (c : Cop0) : c.stepRandom.mapping = c.mapping :=
  mapping_put c random _ (by decide)

/-- When nothing is taken, nothing changes. -/
theorem service_eq_none {c c' : Cop0} {site : ExceptionSite} (h : c.service site = (none, c')) :
    c' = c := by
  simp only [service] at h
  split at h
  case h_1 => exact nomatch h
  case h_2 =>
    simp only [serviceInterrupt] at h
    -- Each branch without an exception hands back what it was given
    repeat' split at h
    all_goals cases h
    all_goals rfl

end Cop0

/-! ## The CPU -/

namespace Cpu

/-- What translation reads from the CPU. -/
def mapping (c : Cpu) : Tlb × StatusFlags × UInt8 := (c.tlb, c.cop0.mapping)

/-- Translation depends on the mapping alone. -/
theorem resolve_congr {c c' : Cpu} (h : c.mapping = c'.mapping) : c.resolve = c'.resolve := by
  simp only [mapping, Cop0.mapping, Prod.mk.injEq] at h
  obtain ⟨htlb, hstatus, hspace⟩ := h
  have hprivilege : c.cop0.privilege = c'.cop0.privilege := by
    simp only [Cop0.privilege, hstatus]
  have hwide : c.cop0.wideAddresses = c'.cop0.wideAddresses := by
    simp only [Cop0.wideAddresses, hprivilege, hstatus]
  -- What is left of the translation reads the TLB and the address space
  funext a access
  simp only [resolve, hprivilege, hwide, htlb, hspace]

/-- The mapping is in none of the general registers. -/
@[simp] theorem mapping_setGpr (c : Cpu) (r : RegisterIndex) (v : UInt64) :
    (c.setGpr r v).mapping = c.mapping := rfl

/-- `setHi` keeps the mapping. -/
@[simp] theorem mapping_setHi (c : Cpu) (v : UInt64) : (c.setHi v).mapping = c.mapping := rfl

/-- `setLo` keeps the mapping. -/
@[simp] theorem mapping_setLo (c : Cpu) (v : UInt64) : (c.setLo v).mapping = c.mapping := rfl

/-- `setHiLo` keeps the mapping. -/
@[simp] theorem mapping_setHiLo (c : Cpu) (hi lo : UInt64) :
    (c.setHiLo hi lo).mapping = c.mapping := rfl

/-- The FPU follows the status; the coprocessor itself stays as it is. -/
@[simp] theorem mapping_followStatus (c : Cpu) : c.followStatus.mapping = c.mapping := rfl

/-- `begin` notes which instruction is under way. -/
@[simp] theorem mapping_begin (c : Cpu) (pc : UInt64) (word : UInt32) :
    (c.begin pc word).mapping = c.mapping := rfl

/-- A branch changes where the program goes on, not how addresses are translated. -/
@[simp] theorem mapping_branch (c : Cpu) (target : UInt64) (taken : Bool) :
    (c.branch target taken).mapping = c.mapping := rfl

/-- So does a branch that may skip its delay slot. -/
@[simp] theorem mapping_branchLikely (c : Cpu) (target : UInt64) (taken : Bool) :
    (c.branchLikely target taken).mapping = c.mapping := by
  cases taken <;> rfl

/-- `traceCurrent` keeps the mapping. -/
@[simp] theorem mapping_traceCurrent (c : Cpu) : c.traceCurrent.mapping = c.mapping := rfl

/-- `recordCondition` keeps the mapping, since the coprocessor's part of it does. -/
@[simp] theorem mapping_recordCondition (c : Cpu) (k : Condition) :
    (c.recordCondition k).mapping = c.mapping := by
  simp only [mapping, recordCondition, Cop0.mapping_recordCondition]

/-- `raise` records a condition. -/
@[simp] theorem mapping_raise (c : Cpu) (code : ExceptionCode) :
    (c.raise code).mapping = c.mapping := mapping_recordCondition c _

/-- An overflow is recorded, any other result goes to a register. -/
@[simp] theorem mapping_setOrOverflow (c : Cpu) (r : RegisterIndex) (v : Option UInt64) :
    (c.setOrOverflow r v).mapping = c.mapping := by
  cases v with
  | some v => rfl
  | none => exact mapping_raise c _

/-- A guarded operation keeps the mapping if the operation itself does; otherwise it is refused. -/
theorem mapping_ifWide (c : Cpu) (f : Cpu → Cpu)
    (h : ∀ c : Cpu, (f c).mapping = c.mapping) : (c.ifWide f).mapping = c.mapping := by
  simp only [ifWide]
  split
  · exact h c
  · exact mapping_raise c _

/-- A trap is a condition that is recorded. -/
@[simp] theorem mapping_trapIf (c : Cpu) (b : Bool) : (c.trapIf b).mapping = c.mapping := by
  simp only [trapIf]
  split
  · exact mapping_raise c _
  · rfl

/-- `multiply32` goes to the registers HI and LO. -/
@[simp] theorem mapping_multiply32 (c : Cpu) (a b : UInt64) :
    (c.multiply32 a b).mapping = c.mapping := rfl

/-- So does `multiplyUnsigned32`. -/
@[simp] theorem mapping_multiplyUnsigned32 (c : Cpu) (a b : UInt64) :
    (c.multiplyUnsigned32 a b).mapping = c.mapping := rfl

/-- So does `multiply64`. -/
@[simp] theorem mapping_multiply64 (c : Cpu) (a b : UInt64) :
    (c.multiply64 a b).mapping = c.mapping := rfl

/-- So does `multiplyUnsigned64`. -/
@[simp] theorem mapping_multiplyUnsigned64 (c : Cpu) (a b : UInt64) :
    (c.multiplyUnsigned64 a b).mapping = c.mapping := rfl

/-- Division goes to the same registers, also where the divisor is zero. -/
@[simp] theorem mapping_divide32 (c : Cpu) (a b : UInt64) :
    (c.divide32 a b).mapping = c.mapping := by
  simp only [divide32]
  split <;> rfl

/-- So does unsigned division. -/
@[simp] theorem mapping_divideUnsigned32 (c : Cpu) (a b : UInt64) :
    (c.divideUnsigned32 a b).mapping = c.mapping := by
  simp only [divideUnsigned32]
  split <;> rfl

/-- So does division of doublewords. -/
@[simp] theorem mapping_divide64 (c : Cpu) (a b : UInt64) :
    (c.divide64 a b).mapping = c.mapping := by
  simp only [divide64]
  split <;> rfl

/-- So does their unsigned division. -/
@[simp] theorem mapping_divideUnsigned64 (c : Cpu) (a b : UInt64) :
    (c.divideUnsigned64 a b).mapping = c.mapping := by
  simp only [divideUnsigned64]
  split <;> rfl

/-! ## Instructions inside the CPU -/

/-- The operations of opcode 0 keep the mapping. -/
private theorem mapping_performSpecial (c : Cpu) (i : Instruction) (pc : UInt64) :
    (c.performSpecial i pc).mapping = c.mapping := by
  simp only [performSpecial]
  split
  -- The 64-bit operations are guarded, all others keep it at once
  all_goals first
    | exact mapping_ifWide c _ fun _ => by simp
    | simp

/-- So do those of opcode 1, which branch and trap. -/
private theorem mapping_performRegisterImmediate (c : Cpu) (i : Instruction) (pc : UInt64) :
    (c.performRegisterImmediate i pc).mapping = c.mapping := by
  simp only [performRegisterImmediate]
  split <;> simp

/-- What the FPU has computed may raise a condition. -/
private theorem mapping_setFpu (c : Cpu) (result : Fpu × Bool) :
    (c.setFpu result).mapping = c.mapping := by
  simp only [setFpu]
  split
  · exact mapping_raise _ _
  · rfl

/-- `conditionBranch` is one of the four kinds of branch. -/
private theorem mapping_conditionBranch (c : Cpu) (i : Instruction) (pc : UInt64) :
    (c.conditionBranch i pc).mapping = c.mapping := by
  simp only [conditionBranch]
  split <;> simp

/-- So the instructions of the FPU keep the mapping. -/
private theorem mapping_performFpu (c : Cpu) (i : Instruction) (pc : UInt64) :
    (performFpu i pc c).mapping = c.mapping := by
  simp only [performFpu]
  split
  -- A word or doubleword moved into the FPU leaves the rest of the CPU alone
  case h_4 | h_5 => rfl
  all_goals simp [mapping_setFpu, mapping_conditionBranch]

/-- Where the FPU is out of use, this is a condition that is recorded. -/
private theorem mapping_ifFpuUsable (c : Cpu) (f : Cpu → Cpu)
    (h : ∀ c : Cpu, (f c).mapping = c.mapping) : (c.ifFpuUsable f).mapping = c.mapping := by
  simp only [ifFpuUsable]
  split
  · rw [h]
    rfl
  · exact mapping_recordCondition c _

/-- The second coprocessor is not there, so all that its instructions do is to raise a condition. -/
private theorem mapping_performCop2 (c : Cpu) : c.performCop2.mapping = c.mapping := by
  simp only [performCop2]
  split <;> simp

/-- Outside the system control coprocessor no instruction changes the mapping. -/
theorem mapping_perform (c : Cpu) {i : Instruction} (pc : UInt64) (h : i.opcode ≠ 0x10) :
    (c.perform i pc).mapping = c.mapping := by
  simp only [perform]
  split
  -- Opcode 16 is excluded, the FPU may be out of use, and two additions are guarded
  case h_17 hcop0 => exact absurd hcop0 h
  case h_18 => exact mapping_ifFpuUsable c _ fun c => mapping_performFpu c i pc
  case h_24 | h_25 => exact mapping_ifWide c _ fun _ => by simp
  all_goals simp [mapping_performSpecial, mapping_performRegisterImmediate, mapping_performCop2]

/-- A linked load leaves its address in the coprocessor. -/
theorem mapping_link (c : Cpu) (a : UInt64) : (c.link a).mapping = c.mapping := by
  simp only [link]
  split
  · simp only [mapping, Cop0.mapping_put _ Cop0.linkAddress _ (by decide)]
  · rfl

/-- A translation that fails is recorded as a condition. -/
@[simp] theorem mapping_translate (c : Cpu) (a : UInt64) (access : Access) :
    (c.translate a access).2.mapping = c.mapping := by
  simp only [translate]
  split
  · rfl
  · exact mapping_recordCondition c _

/-- So is an address that is not aligned. -/
@[simp] theorem mapping_translateAligned (c : Cpu) (a : UInt64) (size : Nat) (access : Access) :
    (c.translateAligned a size access).2.mapping = c.mapping := by
  simp only [translateAligned]
  split
  · exact mapping_translate c a access
  · exact mapping_recordCondition c _

/-! ## The end of an instruction -/

/-- An instruction that ends without an exception or interrupt keeps the mapping. -/
theorem mapping_retire {c c' : Cpu} (h : c.retire = (c', true)) : c'.mapping = c.mapping := by
  simp only [retire, serviceExceptions] at h
  split at h
  case h_1 => exact nomatch h
  case h_2 cop0 hservice =>
    cases h
    -- Without an exception only the counters have moved
    rw [Cop0.service_eq_none hservice]
    show (_, _) = (_, _)
    simp only [traceCurrent, setGpr, Cop0.mapping_stepRandom, Cop0.mapping_tick]

end Cpu

end Console64
