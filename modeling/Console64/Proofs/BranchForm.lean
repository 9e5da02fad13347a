import Console64.Machine.Interpreter

/-!
# Branches taken apart

Every branch and jump of the instruction set has one form: it may leave a return
address in a register, it tests some registers or the floating-point condition, and it
goes somewhere or not, with or without its delay slot.  This file gives the form of
each, and proves that carrying the instruction out is carrying the form out.

## Key results

- `Cpu.perform_branch`: a branch does what its form says
- `Instruction.branch_determined`: it depends on its sources and the condition alone
- `Branch.reg_take` / `Branch.flow_take`: what it does to the registers and to the flow of
  control
-/

namespace Console64

/-- Where execution goes on. -/
def Cpu.flow (c : Cpu) : UInt64 × UInt64 × Bool := (c.pc, c.nextPc, c.branchPending)

/-- A branch or jump. -/
structure Branch where
  /-- The registers that it reads. -/
  sources : List RegisterIndex := []
  /-- The register that it leaves its return address in. -/
  link : Option RegisterIndex := none
  /-- It skips its delay slot when it is not taken. -/
  likely : Bool := false
  /-- It tests the floating-point condition, so the unit has to be usable. -/
  float : Bool := false
  taken : Cpu → Bool := fun _ => true
  target : Cpu → UInt64

namespace Branch

/-- Leave the return address of the branch at `pc`. -/
def leaveReturn (b : Branch) (pc : UInt64) (c : Cpu) : Cpu :=
  match b.link with
  | some r => c.setGpr r (pc + 8)
  | none => c

/-- Carry out the branch at `pc`; what it tests is read before it links. -/
def take (b : Branch) (pc : UInt64) (c : Cpu) : Cpu :=
  if b.likely then (b.leaveReturn pc c).branchLikely (b.target c) (b.taken c)
  else (b.leaveReturn pc c).branch (b.target c) (b.taken c)

/-- Carry out the branch at `pc`, if what it needs may be used. -/
def run (b : Branch) (pc : UInt64) (c : Cpu) : Cpu :=
  if b.float then c.ifFpuUsable (b.take pc) else b.take pc c

/-- The branch skips its delay slot. -/
def skips (b : Branch) (c : Cpu) : Bool := b.likely && !b.taken c

/-- The branch depends on its sources and the floating-point condition alone. -/
def Determined (b : Branch) : Prop :=
  ∀ c c' : Cpu, (∀ r ∈ b.sources, c.reg r = c'.reg r) → c.fpu.condition = c'.fpu.condition →
    b.taken c = b.taken c' ∧ b.target c = b.target c'

/-! ## What a branch does -/

section
variable (b : Branch) (pc : UInt64) (c : Cpu)

/-- The CPU after a branch, apart from the register that it links. -/
theorem take_eq :
    b.take pc c =
      if b.skips c then { b.leaveReturn pc c with pc := c.nextPc, nextPc := c.nextPc + 4 }
      else
        { b.leaveReturn pc c with
          nextPc := if b.taken c then b.target c else c.nextPc
          branchPending := true } := by
  have hlink : (b.leaveReturn pc c).nextPc = c.nextPc := by
    simp only [leaveReturn]
    split <;> rfl
  simp only [take, skips, Cpu.branchLikely, Cpu.branch, hlink]
  by_cases hlikely : b.likely = true <;> by_cases htaken : b.taken c = true <;>
    simp [hlikely, htaken]

/-- To leave the return address changes the general registers alone. -/
theorem leaveReturn_keeps : ∃ gpr, b.leaveReturn pc c = { c with gpr } := by
  simp only [leaveReturn]
  split
  · exact ⟨_, rfl⟩
  · exact ⟨c.gpr, rfl⟩

/-- A branch changes general registers and the flow of control only. -/
theorem take_keeps :
    ∃ gpr pc' nextPc branchPending,
      b.take pc c = { c with gpr, pc := pc', nextPc, branchPending } := by
  obtain ⟨gpr, heq⟩ := b.leaveReturn_keeps pc c
  rw [take_eq, heq]
  split <;> exact ⟨_, _, _, _, rfl⟩

/-- It links, if it does. -/
theorem reg_take (r : RegisterIndex) :
    (b.take pc c).reg r = if b.link = some r then pc + 8 else c.reg r := by
  have htake : (b.take pc c).gpr = (b.leaveReturn pc c).gpr := by
    rw [take_eq]
    split <;> rfl
  have hreg : (b.take pc c).reg r = (b.leaveReturn pc c).reg r := by
    simp only [Cpu.reg, htake]
  rw [hreg, leaveReturn]
  cases b.link with
  | none => rfl
  | some s => simp [Cpu.reg_setGpr]

/-- A branch that skips its delay slot goes on behind it; any other has the delay slot
next, and after it the target, if it is taken. -/
theorem flow_take :
    (b.take pc c).flow =
      if b.skips c then (c.nextPc, c.nextPc + 4, c.branchPending)
      else (c.pc, if b.taken c then b.target c else c.nextPc, true) := by
  obtain ⟨gpr, heq⟩ := b.leaveReturn_keeps pc c
  rw [take_eq, heq]
  split <;> rfl

end

/-- From CPUs in which it reads the same, a branch goes the same way. -/
theorem flow_take_congr {b : Branch} (hb : b.Determined) (pc : UInt64) {c c' : Cpu}
    (hregs : ∀ r ∈ b.sources, c.reg r = c'.reg r)
    (hcondition : c.fpu.condition = c'.fpu.condition) (hflow : c.flow = c'.flow) :
    (b.take pc c).flow = (b.take pc c').flow := by
  obtain ⟨htaken, htarget⟩ := hb c c' hregs hcondition
  simp only [Cpu.flow, Prod.mk.injEq] at hflow
  obtain ⟨hpc, hnext, hpending⟩ := hflow
  rw [flow_take, flow_take, skips, skips, htaken, htarget, hpc, hnext, hpending]

end Branch

/-- The form of the instruction at `pc`, if it is a branch or jump. -/
def Instruction.branch? (i : Instruction) (pc : UInt64) : Option Branch :=
  let target (_ : Cpu) := i.branchTarget pc
  let jump (_ : Cpu) := i.jumpTarget pc
  let equal (c : Cpu) : Bool := c.reg i.rs = c.reg i.rt
  let negative (c : Cpu) := isNegative (c.reg i.rs)
  let positive (c : Cpu) := !isNegative (c.reg i.rs) && c.reg i.rs ≠ 0
  let condition (c : Cpu) := c.fpu.condition == (i.rt.val % 2 == 1)
  let rs := [i.rs]
  let rsrt := [i.rs, i.rt]
  match i.opcode with
  | 0x00 =>
    match i.funct with
    | 0x08 => some { sources := rs, target := (·.reg i.rs) } -- JR
    | 0x09 => some { sources := rs, link := some i.rd, target := (·.reg i.rs) } -- JALR
    | _ => none
  | 0x01 =>
    match i.rt.val with
    | 0x00 => some { sources := rs, taken := negative, target } -- BLTZ
    | 0x01 => some { sources := rs, taken := fun c => !negative c, target } -- BGEZ
    | 0x02 => some { sources := rs, likely := true, taken := negative, target } -- BLTZL
    | 0x03 =>
      some { sources := rs, likely := true, taken := fun c => !negative c, target } -- BGEZL
    | 0x10 => some { sources := rs, link := some 31, taken := negative, target } -- BLTZAL
    | 0x11 =>
      some { sources := rs, link := some 31, taken := fun c => !negative c, target } -- BGEZAL
    | 0x12 => -- BLTZALL
      some { sources := rs, link := some 31, likely := true, taken := negative, target }
    | 0x13 => -- BGEZALL
      some { sources := rs, link := some 31, likely := true, taken := fun c => !negative c, target }
    | _ => none
  | 0x02 => some { target := jump } -- J
  | 0x03 => some { link := some 31, target := jump } -- JAL
  | 0x04 => some { sources := rsrt, taken := equal, target } -- BEQ
  | 0x05 => some { sources := rsrt, taken := fun c => !equal c, target } -- BNE
  | 0x06 => some { sources := rs, taken := fun c => !positive c, target } -- BLEZ
  | 0x07 => some { sources := rs, taken := positive, target } -- BGTZ
  | 0x11 => -- BC1F, BC1T, BC1FL, BC1TL
    if i.fmt = 0x08 then
      some { likely := i.rt.val / 2 % 2 ≠ 0, float := true, taken := condition, target }
    else none
  | 0x14 => some { sources := rsrt, likely := true, taken := equal, target } -- BEQL
  | 0x15 => some { sources := rsrt, likely := true, taken := fun c => !equal c, target } -- BNEL
  | 0x16 => some { sources := rs, likely := true, taken := fun c => !positive c, target } -- BLEZL
  | 0x17 => some { sources := rs, likely := true, taken := positive, target } -- BGTZL
  | _ => none

/-- A branch depends on its sources and the floating-point condition alone. -/
theorem Instruction.branch_determined {i : Instruction} {pc : UInt64} {b : Branch}
    (h : i.branch? pc = some b) : b.Determined := by
  simp only [branch?] at h
  repeat' split at h
  all_goals cases h
  all_goals
    intro c c' hregs hcond
    simp_all

/-- BC1F and its kind test the condition of a usable unit. -/
private theorem Cpu.performFpu_branch {i : Instruction} (pc : UInt64) (h : i.fmt = 0x08) (c : Cpu) :
    performFpu i pc c =
      if i.rt.val / 2 % 2 = 1 then
        c.branchLikely (i.branchTarget pc) (c.fpu.condition == (i.rt.val % 2 == 1))
      else c.branch (i.branchTarget pc) (c.fpu.condition == (i.rt.val % 2 == 1)) := by
  simp only [performFpu, h, conditionBranch]
  rcases Nat.mod_two_eq_zero_or_one (i.rt.val / 2) with hbit | hbit <;> simp [hbit]

/-- Carrying out a branch is carrying out its form. -/
theorem Cpu.perform_branch {i : Instruction} {pc : UInt64} {b : Branch}
    (h : i.branch? pc = some b) (c : Cpu) : c.perform i pc = b.run pc c := by
  simp only [Instruction.branch?] at h
  repeat' split at h
  all_goals cases h
  -- On each side the instruction is known by now
  all_goals
    simp_all [perform, performSpecial, performRegisterImmediate, Branch.run, Branch.take,
      Branch.leaveReturn]
  case h_9.isTrue.refl hfmt =>
    congr 1
    funext c
    rw [performFpu_branch pc hfmt]
    simp [Branch.take, Branch.leaveReturn]

/-- A branch does not use memory. -/
theorem Machine.execute_branch {i : Instruction} {pc : UInt64} {b : Branch}
    (h : i.branch? pc = some b) : execute i pc = modifyCpu (b.run pc) := by
  have hperform : (Cpu.perform · i pc) = b.run pc := funext fun c => Cpu.perform_branch h c
  rw [← hperform]
  simp only [Instruction.branch?] at h
  simp only [execute]
  split
  case h_28 => rfl
  -- The opcodes of loads and stores are not among those of branches
  all_goals
    rename_i hop
    simp [hop] at h

end Console64
