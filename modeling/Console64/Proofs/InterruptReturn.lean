import Console64.Proofs.BusUse
import Console64.Proofs.DecodeAgreement
import Console64.Proofs.FirstVisit
import Console64.Proofs.Retirement

/-!
# Interrupts are transparent

An interrupt is taken between two instructions.  If the first of them is a branch, the
second sits in its delay slot, and the handler returns to the branch, which is carried
out again.  This file compares an instruction after which no interrupt is taken with the
same instruction after which one is, and proves that a return from the handler leads to
where execution would have gone on: no delay slot is skipped or run twice.

## Key results

- `Cop0.leave_enter`: leaving an exception restores the status
- `Cpu.backFrom_of_interrupt`: what a return from the handler finds as it was
- `Machine.interrupt_transparent`: the two runs come together again
-/

namespace Console64

/-! ## Single bits -/

/-- A value has nothing in common with a mask of the single bit `n` if that bit is clear. -/
private theorem and_eq_zero_iff {w m : UInt64} {n : Nat}
    (hm : ∀ k, m.toBitVec.getLsbD k = decide (n = k)) :
    w &&& m = 0 ↔ w.toBitVec.getLsbD n = false := by
  constructor
  · intro h
    have hbit := congrArg (fun v : UInt64 => v.toBitVec.getLsbD n) h
    -- A mask of one bit: the others are zero on both sides
    simpa [hm] using hbit
  · intro h
    apply UInt64.eq_of_toBitVec_eq
    apply BitVec.eq_of_getLsbD_eq
    intro k _
    rw [UInt64.toBitVec_and, BitVec.getLsbD_and, hm]
    by_cases hk : n = k
    · subst hk
      simp [h]
    · simp [hk]

namespace Cop0

/-- Bit 1 of the status, -/
private theorem getLsbD_exlBit (k : Nat) : exlBit.toBitVec.getLsbD k = decide (1 = k) :=
  @Nat.testBit_two_pow 1 k

/-- and bit 31 of the cause. -/
private theorem getLsbD_bdBit (k : Nat) : bdBit.toBitVec.getLsbD k = decide (31 = k) :=
  @Nat.testBit_two_pow 31 k

/-- Setting a clear bit of a 32-bit value and clearing it again. -/
private theorem low32_exlBit {w : UInt64} (h : low32 w = w)
    (hclear : w.toBitVec.getLsbD 1 = false) : low32 (w ||| exlBit) &&& ~~~exlBit = w := by
  conv => rhs; rw [← h]
  apply UInt64.eq_of_toBitVec_eq
  apply BitVec.eq_of_getLsbD_eq
  intro k hk
  simp only [low32, UInt64.toBitVec_and, UInt64.toBitVec_or, UInt64.toBitVec_not,
    BitVec.getLsbD_and, BitVec.getLsbD_or, BitVec.getLsbD_not, getLsbD_exlBit]
  by_cases hbit : 1 = k
  · subst hbit
    simp only [hclear, decide_true, Bool.not_true, Bool.and_false, Bool.false_and]
  · simp [hbit, hk]

/-- An interrupt leaves in the cause word whether the next instruction sat in a delay slot. -/
private theorem getLsbD_enteredCause (c : Cop0) (site : ExceptionSite)
    (hexl : c.status.exl = false) :
    (c.enteredCause site .interrupt 0).toBitVec.getLsbD 31 = site.delaySlot := by
  simp only [enteredCause, hexl]
  cases site.delaySlot <;> simp [getLsbD_bdBit]

/-- The delay slot bit, in the register and in the decoded view. -/
private theorem delaySlot_of_enteredCause (c : Cop0) (site : ExceptionSite)
    (hexl : c.status.exl = false) :
    (low32 (c.enteredCause site .interrupt 0) &&& bdBit ≠ 0 ↔ site.delaySlot = true) ∧
      (CauseFlags.decode (c.enteredCause site .interrupt 0).toUInt32).bd = site.delaySlot := by
  have hbit := c.getLsbD_enteredCause site hexl
  constructor
  · rw [ne_eq, and_eq_zero_iff getLsbD_bdBit, ← hbit]
    simp [low32]
  · show testBit _ (UInt32.ofNat 31) = _
    rw [testBit_eq_getLsbD _ (by decide), ← hbit]
    simp

/-! ## There and back -/

/-- The decoded view is that of the 32-bit status word. -/
def StatusInSync (c : Cop0) : Prop :=
  low32 (c.get statusWord) = c.get statusWord ∧ c.status = .decode (c.get statusWord).toUInt32

/-- The decoded view of a status word. -/
private theorem decode_bits (w : UInt64) :
    (StatusFlags.decode w.toUInt32).exl = w.toBitVec.getLsbD 1 ∧
      (StatusFlags.decode w.toUInt32).erl = w.toBitVec.getLsbD 2 := by
  constructor
  · show testBit _ (UInt32.ofNat 1) = _
    rw [testBit_eq_getLsbD _ (by decide)]
    simp
  · show testBit _ (UInt32.ofNat 2) = _
    rw [testBit_eq_getLsbD _ (by decide)]
    simp

/-- Changing the status changes both of its forms. -/
theorem statusState_setStatus (c : Cop0) (w : UInt64) :
    (c.setStatus w).statusState = (low32 w, .decode w.toUInt32) :=
  Prod.ext ((get_put c statusWord statusWord _).trans (if_pos rfl)) rfl

/-- Leaving an exception that was entered from a program goes back to it, with its status. -/
theorem leave_enter {c : Cop0} (hsync : c.StatusInSync) (hexl : c.status.exl = false)
    (herl : c.status.erl = false) (site : ExceptionSite) (code : ExceptionCode) (unit : UInt8) :
    (c.enter site code unit).leave.1 = site.returnAddress ∧
      (c.enter site code unit).leave.2.statusState = c.statusState := by
  obtain ⟨hword, hview⟩ := hsync
  have hentered := c.enter_status site code unit
  have hstatus := congrArg Prod.snd hentered
  have hclear : (c.get statusWord).toBitVec.getLsbD 1 = false := by
    rw [← (decode_bits _).1, ← hview, hexl]
  -- Entering has not set the other of the two bits
  have hother : (c.enter site code unit).status.erl = false := by
    rw [show (c.enter site code unit).status = _ from hstatus, (decode_bits _).2,
      UInt64.toBitVec_or, BitVec.getLsbD_or, getLsbD_exlBit, ← (decode_bits _).2, ← hview, herl]
    rfl
  have hrestored : (c.enter site code unit).get statusWord &&& ~~~exlBit = c.get statusWord := by
    rw [show (c.enter site code unit).get statusWord = _ from congrArg Prod.fst hentered]
    exact low32_exlBit hword hclear
  simp only [leave, hother, hrestored]
  refine ⟨(enter_get site code unit hexl).1, ?_⟩
  rw [if_neg Bool.false_ne_true, statusState_setStatus, hword, ← hview]
  rfl

/-- Entering and leaving note nothing. -/
private theorem pending_leave_enter (c : Cop0) (site : ExceptionSite) (code : ExceptionCode)
    (unit : UInt8) : (c.enter site code unit).leave.2.pending = c.pending := by
  have hleave : ∀ e : Cop0, e.leave.2.pending = e.pending := by
    intro e
    simp only [leave]
    split <;> rfl
  rw [hleave]
  simp only [enter, saveReturn]
  split <;> rfl

/-- Nothing is different but what decides about interrupts: the cause word and the counter. -/
structure SameButInterrupts (c c' : Cop0) : Prop where
  registers : ∀ r, r ∉ [count, compare, causeWord] → c'.get r = c.get r
  status : c'.status = c.status
  pending : c'.pending = c.pending

/-- The status word and its view are among the same. -/
theorem SameButInterrupts.statusState {c c' : Cop0} (h : c.SameButInterrupts c') :
    c'.statusState = c.statusState :=
  Prod.ext (h.registers statusWord (by decide)) h.status

end Cop0

namespace Cpu

/-- The same for the whole CPU. -/
def SameButInterrupts (c c' : Cpu) : Prop :=
  ∃ cop0, c' = { c with cop0 } ∧ c.cop0.SameButInterrupts cop0

/-- What a program can tell of the CPU is as in `c`: its registers, and where it goes on. -/
structure SameProgram (c c' : Cpu) : Prop where
  reg : ∀ r, c'.reg r = c.reg r
  hi : c'.hi = c.hi
  lo : c'.lo = c.lo
  flow : c'.flow = c.flow

/-- What holds of every CPU that only instructions have changed: register zero is zero, and
the decoded status is that of the word. -/
structure WellFormed (c : Cpu) : Prop where
  zero : c.reg 0 = 0
  status : c.cop0.StatusInSync

/-- Back from the handler. -/
def returned (c : Cpu) : Cpu := { c with cop0 := c.cop0.leave.2 }.jumpTo c.cop0.leave.1

/-- An interrupt taken at the end of an instruction belongs to the next one. -/
theorem interrupt_of_retire {c c' : Cpu} (hnone : c.cop0.pending = none)
    (h : c.retire = (c', false)) :
    ∃ timerPending target,
      c' = ({ c.ended with
        cop0 := (c.cop0.ticked.awaiting none timerPending).enter ⟨c.pc, c.branchPending⟩
          .interrupt 0 }.followStatus.jumpTo target) := by
  obtain ⟨target, cop0, hservice, rfl⟩ := retire_false h
  have hclear : c.ended.cop0.pending = none := c.cop0.ticked_keeps.1.trans hnone
  have hsite : c.ended.exceptionSite = ⟨c.pc, c.branchPending⟩ := by
    rw [exceptionSite, hclear]
    rfl
  rw [Cop0.service, hclear, hsite] at hservice
  obtain ⟨rfl, timerPending, rfl⟩ := Cop0.serviceInterrupt_entered hclear hservice
  exact ⟨timerPending, _, rfl⟩

/-- What there is after the return from an interrupt `b` that was taken when `c` retired: the
status of before, and execution at the next instruction, or at its branch. -/
structure BackFrom (c b : Cpu) : Prop where
  causeWord : b.cop0.get Cop0.causeWord &&& Cop0.bdBit ≠ 0 ↔ c.branchPending = true
  delaySlot : b.cop0.cause.bd = c.branchPending
  status : b.returned.cop0.statusState = c.cop0.statusState
  pending : b.returned.cop0.pending = none
  flow : b.returned.flow =
    let site := (⟨c.pc, c.branchPending⟩ : ExceptionSite).returnAddress
    (site, site + 4, false)
  reg : ∀ r, b.returned.reg r = c.ended.reg r
  hi : b.returned.hi = c.hi
  lo : b.returned.lo = c.lo
  condition : b.returned.fpu.condition = c.fpu.condition

/-- Every interrupt can be returned from. -/
theorem backFrom_of_interrupt {c b : Cpu} (hsync : c.cop0.StatusInSync)
    (hexl : c.cop0.status.exl = false) (herl : c.cop0.status.erl = false)
    (hnone : c.cop0.pending = none) (h : c.retire = (b, false)) : BackFrom c b := by
  obtain ⟨timerPending, target, rfl⟩ := interrupt_of_retire hnone h
  -- The interrupt is entered from a coprocessor with the same Status, in the word and in the view
  have hstate : (c.cop0.ticked.awaiting none timerPending).statusState = c.cop0.statusState :=
    c.cop0.ticked_keeps.2
  generalize hentry : c.cop0.ticked.awaiting none timerPending = entry at hstate
  have hword : entry.get Cop0.statusWord = c.cop0.get Cop0.statusWord := congrArg Prod.fst hstate
  have hstatus : entry.status = c.cop0.status := congrArg Prod.snd hstate
  have hsync' : entry.StatusInSync := by
    rw [Cop0.StatusInSync, hword, hstatus]
    exact hsync
  rw [← hstatus] at hexl herl
  obtain ⟨-, hcauseWord, hcause⟩ := Cop0.enter_get ⟨c.pc, c.branchPending⟩ .interrupt 0 hexl
  obtain ⟨hbit, hview⟩ := entry.delaySlot_of_enteredCause ⟨c.pc, c.branchPending⟩ hexl
  obtain ⟨hreturn, hrestored⟩ :=
    Cop0.leave_enter hsync' hexl herl ⟨c.pc, c.branchPending⟩ .interrupt 0
  have hclear : entry.pending = none := by
    rw [← hentry]
    rfl
  refine {
    causeWord := ?_
    delaySlot := ?_
    status := hrestored.trans hstate
    pending := (entry.pending_leave_enter _ _ _).trans hclear
    flow := ?_
    reg := fun r => rfl, hi := rfl, lo := rfl, condition := rfl }
  · rw [← hcauseWord] at hbit
    exact hbit
  · exact (congrArg CauseFlags.bd hcause).trans hview
  · rw [← hreturn]
    rfl

end Cpu

namespace Machine

/-- The instruction `word` may be interrupted behind, from the CPU `c`: execution is in line
or the CPU knows that it is not, and no exception is being handled.  The instruction neither
returns from an exception nor changes the status, and a branch can be carried out twice: it
does not sit in a delay slot itself, and does not overwrite what it reads. -/
structure Restartable (word : UInt32) (c : Cpu) : Prop where
  straight : c.branchPending = false → c.nextPc = c.pc + 4
  exl : c.cop0.status.exl = false
  erl : c.cop0.status.erl = false
  notReturn : (Instruction.mk word).isExceptionReturn = false
  keepsStatus : (Instruction.mk word).writesCop0 Cop0.statusWord = false
  branch : ∀ b, (Instruction.mk word).branch? c.pc = some b →
    c.branchPending = false ∧ ∀ r, b.link = some r → r ∉ b.sources

/-- The instruction `word` is carried out twice.  From `m` no interrupt follows, and `a` is
left.  From `m'`, which differs in what decides about interrupts only, one follows, and
leaves the CPU `b`. -/
structure Interrupted (word : UInt32) (m m' a : Machine) (b : Cpu) : Prop where
  same : m.cpu.SameButInterrupts m'.cpu
  quiet : carryOut word m.cpu.pc m = .ok true a
  taken : ∃ n, interpret word m.cpu.pc m' = .ok () n ∧ n.cpu.cop0.pending = none ∧
    n.cpu.retire = (b, false)

/-- An instruction that no exception follows has raised none before it retires. -/
private theorem interpret_of_carryOut {word : UInt32} {pc : UInt64} {m a : Machine}
    (h : carryOut word pc m = .ok true a) :
    ∃ n, interpret word pc m = .ok () n ∧ n.cpu.cop0.pending = none ∧ a.cpu = n.cpu.ended := by
  obtain ⟨_, n, hrun, hretire⟩ := bind_eq_ok h
  simp only [retire, onCpu, EStateM.Result.ok.injEq] at hretire
  obtain ⟨honPath, rfl⟩ := hretire
  obtain ⟨hnone, hcpu⟩ := Cpu.retire_true (Prod.ext rfl honPath)
  exact ⟨n, hrun, hnone, hcpu⟩

/-- An instruction that raises no exception, before it retires: the status is as before, and
it has followed the flow of control, or has branched. -/
private theorem interpret_cases {word : UInt32} {pc : UInt64} {m n : Machine}
    (hreturn : (Instruction.mk word).isExceptionReturn = false)
    (hstatus : (Instruction.mk word).writesCop0 Cop0.statusWord = false)
    (h : interpret word pc m = .ok () n) (hnone : n.cpu.cop0.pending = none) :
    n.cpu.cop0.statusState = m.cpu.cop0.statusState ∧
      match (Instruction.mk word).branch? pc with
      | none => n.cpu.flow = (m.cpu.nextPc, m.cpu.nextPc + 4, false)
      | some b =>
        (b.float = true → m.cpu.cop0.status.usable 1 = true) ∧
        ∃ wide, n.cpu = b.take pc { m.cpu.begin pc word with fpu.wide := wide } := by
  have hbegin : modifyCpu (·.begin pc word) m = .ok () ⟨m.cpu.begin pc word, m.bus⟩ := rfl
  rw [interpret, bind_of_ok hbegin] at h
  have hnotRaised : ∀ {c : Cpu}, ¬c.Raised n.cpu := by
    rintro c ⟨k, fpu, -, -, -, heq⟩
    rw [heq] at hnone
    exact Cop0.pending_recordCondition_ne_none _ k hnone
  cases hb : (Instruction.mk word).branch? pc with
  -- A branch writes nothing of the coprocessor, and needs the FPU if it tests a float condition
  | some b =>
    rw [execute_branch hb] at h
    have hrun : n.cpu = b.run pc (m.cpu.begin pc word) := by
      cases h
      rfl
    have hkept : ∀ wide, (b.take pc { m.cpu.begin pc word with fpu.wide := wide }).cop0 =
        m.cpu.cop0 := by
      intro wide
      obtain ⟨gpr, pc', nextPc, branchPending, heq⟩ :=
        b.take_keeps pc { m.cpu.begin pc word with fpu.wide := wide }
      rw [heq]
      rfl
    simp only [Branch.run] at hrun
    split at hrun
    case isFalse hfloat =>
      refine ⟨?_, fun h => absurd h hfloat, m.cpu.fpu.wide, hrun⟩
      rw [hrun]
      exact congrArg _ (hkept m.cpu.fpu.wide)
    case isTrue =>
      simp only [Cpu.ifFpuUsable] at hrun
      split at hrun
      case isTrue husable =>
        refine ⟨?_, fun _ => husable, m.cpu.cop0.status.fr, hrun⟩
        rw [hrun]
        exact congrArg _ (hkept m.cpu.cop0.status.fr)
      case isFalse =>
        exact (hnotRaised
          (hrun ▸ Cpu.raised_recordCondition (k := .coprocessorUnusable 1) _ trivial)).elim
  | none =>
    -- Any other instruction keeps Status, unless it is among those that are excluded
    rcases execute_cases h with ⟨hcpu, -⟩ | hcompleted | ⟨hop, hcpu, -⟩
    · exact (hnotRaised hcpu).elim
    · refine ⟨?_, hcompleted.flow hb⟩
      rcases hcompleted.cop0 with hcop0 | ⟨v, hcop0⟩ <;> rw [hcop0]
      · rfl
      · exact Cop0.statusState_put _ _ _ (by decide)
    · rcases Cpu.performCop0_effect _ hop with heffect | hcompleted
      · exact (hnotRaised (hcpu ▸ heffect)).elim
      · rw [hcpu]
        exact ⟨hcompleted.status hreturn hstatus, hcompleted.flow hreturn⟩

/-- Execution goes on in line, behind the instruction or behind a delay slot that it skips,
or the instruction is a branch and its delay slot comes next. -/
private theorem flow_cases {word : UInt32} {m n : Machine} (hm : Restartable word m.cpu)
    (h : interpret word m.cpu.pc m = .ok () n) (hnone : n.cpu.cop0.pending = none) :
    n.cpu.flow = (n.cpu.pc, n.cpu.pc + 4, false) ∨
      ∃ b, (Instruction.mk word).branch? m.cpu.pc = some b ∧
        n.cpu.pc = m.cpu.pc + 4 ∧ n.cpu.branchPending = true := by
  obtain ⟨-, hcase⟩ := interpret_cases hm.notReturn hm.keepsStatus h hnone
  -- Going on in line from anywhere is going on in line from where the program now is
  have hline : ∀ {p}, n.cpu.flow = (p, p + 4, false) →
      n.cpu.flow = (n.cpu.pc, n.cpu.pc + 4, false) := by
    intro p hp
    rw [show n.cpu.pc = p from congrArg Prod.fst hp]
    exact hp
  cases hb : (Instruction.mk word).branch? m.cpu.pc with
  | none =>
    rw [hb] at hcase
    exact .inl (hline hcase)
  | some b =>
    rw [hb] at hcase
    obtain ⟨-, wide, hn⟩ := hcase
    have hflow := congrArg Cpu.flow hn
    rw [Branch.flow_take] at hflow
    split at hflow
    case isTrue => exact .inl (hline hflow)
    case isFalse =>
      refine .inr ⟨b, rfl, ?_, congrArg (·.2.2) hflow⟩
      rw [← hm.straight (hm.branch b hb).1]
      exact congrArg (·.1) hflow

/-- Both runs of an instruction go the same way. -/
private theorem flow_interpret {word : UInt32} {m m' n n' : Machine}
    (hm : Restartable word m.cpu) (hsame : m.cpu.SameButInterrupts m'.cpu)
    (h : interpret word m.cpu.pc m = .ok () n) (hnone : n.cpu.cop0.pending = none)
    (h' : interpret word m.cpu.pc m' = .ok () n') (hnone' : n'.cpu.cop0.pending = none) :
    n'.cpu.flow = n.cpu.flow := by
  obtain ⟨-, hcase⟩ := interpret_cases hm.notReturn hm.keepsStatus h hnone
  obtain ⟨-, hcase'⟩ := interpret_cases hm.notReturn hm.keepsStatus h' hnone'
  -- The two runs differ in registers of the coprocessor alone, which decide nothing here
  obtain ⟨cop0, heq, -⟩ := hsame
  cases hb : (Instruction.mk word).branch? m.cpu.pc with
  | none =>
    rw [hb] at hcase hcase'
    rw [hcase, hcase', heq]
  | some b =>
    rw [hb] at hcase hcase'
    obtain ⟨-, wide, hn⟩ := hcase
    obtain ⟨-, wide', hn'⟩ := hcase'
    rw [hn, hn', heq]
    exact Branch.flow_take_congr (Instruction.branch_determined hb) _ (fun _ _ => rfl) rfl rfl

/-- Both runs of a branch leave the same program. -/
private theorem sameProgram_interpret {word : UInt32} {m m' n n' : Machine} {b : Branch}
    (hm : Restartable word m.cpu) (hsame : m.cpu.SameButInterrupts m'.cpu)
    (hb : (Instruction.mk word).branch? m.cpu.pc = some b)
    (h : interpret word m.cpu.pc m = .ok () n) (hnone : n.cpu.cop0.pending = none)
    (h' : interpret word m.cpu.pc m' = .ok () n') (hnone' : n'.cpu.cop0.pending = none) :
    n.cpu.SameProgram n'.cpu ∧ n'.cpu.fpu.condition = n.cpu.fpu.condition := by
  have hflow := flow_interpret hm hsame h hnone h' hnone'
  obtain ⟨-, hcase⟩ := interpret_cases hm.notReturn hm.keepsStatus h hnone
  obtain ⟨-, hcase'⟩ := interpret_cases hm.notReturn hm.keepsStatus h' hnone'
  rw [hb] at hcase hcase'
  obtain ⟨-, wide, hn⟩ := hcase
  obtain ⟨-, wide', hn'⟩ := hcase'
  obtain ⟨cop0, heq, -⟩ := hsame
  -- A branch writes a link, which is the same in both runs
  have hreg : ∀ r, n'.cpu.reg r = n.cpu.reg r := by
    intro r
    rw [hn, hn', Branch.reg_take, Branch.reg_take, heq]
    rfl
  obtain ⟨gpr, pc₁, nextPc, branchPending, htake⟩ :=
    b.take_keeps m.cpu.pc { m.cpu.begin m.cpu.pc word with fpu.wide := wide }
  obtain ⟨gpr', pc₁', nextPc', branchPending', htake'⟩ :=
    b.take_keeps m.cpu.pc { m'.cpu.begin m.cpu.pc word with fpu.wide := wide' }
  rw [htake] at hn
  rw [htake', heq] at hn'
  refine ⟨⟨hreg, ?_, ?_, hflow⟩, ?_⟩ <;> rw [hn, hn'] <;> rfl

/-- A branch is carried out wherever its unit may be used. -/
private theorem interpret_branch {word : UInt32} {b : Branch} {r : Cpu}
    (hb : (Instruction.mk word).branch? r.pc = some b)
    (husable : b.float = true → r.cop0.status.usable 1 = true) :
    ∃ wide, ∀ bus, interpret word r.pc ⟨r, bus⟩ =
      .ok () ⟨b.take r.pc { r.begin r.pc word with fpu.wide := wide }, bus⟩ := by
  -- Only a branch on a float condition looks whether the coprocessor may be used
  have hrun : ∃ wide, b.run r.pc (r.begin r.pc word) =
      b.take r.pc { r.begin r.pc word with fpu.wide := wide } := by
    simp only [Branch.run]
    split
    case isTrue hfloat => exact ⟨r.cop0.status.fr, if_pos (husable hfloat)⟩
    case isFalse => exact ⟨r.fpu.wide, rfl⟩
  obtain ⟨wide, hrun⟩ := hrun
  refine ⟨wide, fun bus => ?_⟩
  have hbegin : modifyCpu (·.begin r.pc word) ⟨r, bus⟩ = .ok () ⟨r.begin r.pc word, bus⟩ := rfl
  rw [interpret, bind_of_ok hbegin, execute_branch hb, ← hrun]
  rfl

/-- A branch that was interrupted before its delay slot can be carried out again, and then
leaves the program as it would have been left without the interrupt. -/
private theorem branch_again {word : UInt32} {b : Branch} {c n r : Cpu}
    (hc : c.WellFormed) (hm : Restartable word c) (hb : (Instruction.mk word).branch? c.pc = some b)
    (husable : b.float = true → c.cop0.status.usable 1 = true) {wide : Bool}
    (hn : n = b.take c.pc { c.begin c.pc word with fpu.wide := wide })
    (hreg : ∀ s, r.reg s = n.ended.reg s) (hhi : r.hi = n.hi) (hlo : r.lo = n.lo)
    (hcondition : r.fpu.condition = n.fpu.condition) (hstatus : r.cop0.status = c.cop0.status)
    (hpending : r.cop0.pending = none) (hflow : r.flow = (c.pc, c.pc + 4, false)) (bus : Bus) :
    ∃ again, interpret word r.pc ⟨r, bus⟩ = .ok () again ∧ again.cpu.cop0.pending = none ∧
      ∀ c', again.cpu.retire = (c', true) → n.ended.SameProgram c' := by
  simp only [Cpu.flow, Prod.mk.injEq] at hflow
  obtain ⟨hpc, hnext, hslot⟩ := hflow
  obtain ⟨hnotSlot, hlink⟩ := hm.branch b hb
  -- The unit may still be used, so the branch is carried out
  rw [← hstatus] at husable
  obtain ⟨wide', hinterpret⟩ := interpret_branch (hpc.symm ▸ hb) husable
  replace hinterpret := hinterpret bus
  rw [hpc] at hinterpret ⊢
  generalize hfirst : ({ c.begin c.pc word with fpu.wide := wide } : Cpu) = first at hn
  generalize hsecond : ({ r.begin c.pc word with fpu.wide := wide' } : Cpu) = second at hinterpret
  have hregFirst : ∀ s, first.reg s = c.reg s := fun s => by
    rw [← hfirst]
    rfl
  have hregSecond : ∀ s, second.reg s =
      if 0 = s then 0 else if b.link = some s then c.pc + 8 else c.reg s := by
    intro s
    rw [← hregFirst s, ← Branch.reg_take, ← hn, ← Cpu.reg_ended, ← hreg, ← hsecond]
    rfl
  have hkeepsFirst : n.hi = first.hi ∧ n.lo = first.lo ∧ n.fpu = first.fpu := by
    obtain ⟨gpr, pc', nextPc, branchPending, heq⟩ := b.take_keeps c.pc first
    rw [hn, heq]
    exact ⟨rfl, rfl, rfl⟩
  have hkeepsSecond : (b.take c.pc second).hi = r.hi ∧ (b.take c.pc second).lo = r.lo ∧
      (b.take c.pc second).cop0.pending = r.cop0.pending := by
    obtain ⟨gpr, pc', nextPc, branchPending, heq⟩ := b.take_keeps c.pc second
    rw [heq, ← hsecond]
    exact ⟨rfl, rfl, rfl⟩
  have hsame : (b.take c.pc second).flow = n.flow := by
    rw [hn]
    refine Branch.flow_take_congr (Instruction.branch_determined hb) _ (fun s hs => ?_) ?_ ?_
    · rw [hregFirst, hregSecond]
      split
      case isTrue hzero => rw [← hzero, hc.zero]
      case isFalse => rw [if_neg fun h => hlink s h hs]
    · rw [← hkeepsFirst.2.2, ← hcondition, ← hsecond]
      rfl
    · rw [← hfirst, ← hsecond]
      simp only [Cpu.flow, Cpu.begin, hnext, hm.straight hnotSlot]
  refine ⟨_, hinterpret, hkeepsSecond.2.2.trans hpending, fun c' hretire => ?_⟩
  obtain ⟨-, rfl⟩ := Cpu.retire_true hretire
  refine ⟨fun s => ?_, hkeepsSecond.1.trans hhi, hkeepsSecond.2.1.trans hlo, hsame⟩
  rw [Cpu.reg_ended, Cpu.reg_ended, Branch.reg_take, hregSecond, hn, Branch.reg_take, hregFirst]
  split
  · rfl
  · split <;> rfl

/-- Interrupts are transparent.  The delay slot bit tells whether a delay slot was next, and
the return from the handler restores the status.  If none was next, execution is where it
would be without the interrupt; if one was, it is at the branch, and carrying that out
again, whatever the interrupt inputs are by then, raises no exception and leaves the
program as it would be. -/
theorem interrupt_transparent {word : UInt32} {m m' a : Machine} {b : Cpu}
    (hc : m.cpu.WellFormed) (hm : Restartable word m.cpu) (h : Interrupted word m m' a b) :
    (b.cop0.get Cop0.causeWord &&& Cop0.bdBit ≠ 0 ↔ a.cpu.branchPending = true) ∧
    b.cop0.cause.bd = a.cpu.branchPending ∧
    b.returned.cop0.statusState = m.cpu.cop0.statusState ∧
    (a.cpu.branchPending = false → b.returned.flow = a.cpu.flow) ∧
    (a.cpu.branchPending = true → ∀ r, b.returned.SameButInterrupts r → ∀ bus,
      ∃ again, interpret word r.pc ⟨r, bus⟩ = .ok () again ∧ again.cpu.cop0.pending = none ∧
        ∀ c, again.cpu.retire = (c, true) → a.cpu.SameProgram c) := by
  obtain ⟨hsame, hquiet, n, hrun, hnone, hinterrupt⟩ := h
  -- The run without an interrupt: it ends in `n₀`, with the flow that the interrupted run has too
  obtain ⟨n₀, hrun₀, hnone₀, hcpu₀⟩ := interpret_of_carryOut hquiet
  have hflow := flow_interpret hm hsame hrun₀ hnone₀ hrun hnone
  have hflow₀ : a.cpu.flow = n.cpu.flow := by
    rw [hcpu₀, hflow]
    rfl
  have hslot : a.cpu.branchPending = n.cpu.branchPending := congrArg (·.2.2) hflow₀
  -- The run with one: the instruction keeps the status, so the interrupt finds it as it was and
  -- the return puts it back
  obtain ⟨hstate, -⟩ := interpret_cases hm.notReturn hm.keepsStatus hrun hnone
  have hkept : n.cpu.cop0.statusState = m.cpu.cop0.statusState := by
    obtain ⟨cop0, hcpu, hcop0⟩ := hsame
    rw [hstate, hcpu]
    exact hcop0.statusState
  have hword : n.cpu.cop0.get Cop0.statusWord = m.cpu.cop0.get Cop0.statusWord :=
    congrArg Prod.fst hkept
  have hstatus : n.cpu.cop0.status = m.cpu.cop0.status := congrArg Prod.snd hkept
  have hback := Cpu.backFrom_of_interrupt
    (by rw [Cop0.StatusInSync, hword, hstatus]; exact hc.status)
    (by rw [hstatus]; exact hm.exl) (by rw [hstatus]; exact hm.erl) hnone hinterrupt
  refine ⟨hslot ▸ hback.causeWord, hslot ▸ hback.delaySlot, hback.status.trans hkept,
    fun hnot => ?_, fun hyes r hr bus => ?_⟩
  · -- No delay slot: the handler returns to the next instruction
    rcases flow_cases hm hrun₀ hnone₀ with hline | ⟨-, -, -, hpending⟩
    · have hnotSlot : n.cpu.branchPending = false := hslot ▸ hnot
      rw [hback.flow, hflow₀, hflow, hline, hnotSlot, show n.cpu.pc = n₀.cpu.pc from
        congrArg (·.1) hflow]
      rfl
    · rw [hcpu₀, show n₀.cpu.ended.branchPending = n₀.cpu.branchPending from rfl, hpending] at hnot
      exact nomatch hnot
  · -- A delay slot comes next: the handler returns to the branch in front of it
    rcases flow_cases hm hrun₀ hnone₀ with hline | ⟨br, hbr, hpc, hpending⟩
    · rw [hcpu₀, show n₀.cpu.ended.branchPending = false from congrArg (·.2.2) hline] at hyes
      exact nomatch hyes
    · obtain ⟨-, hcase₀⟩ := interpret_cases hm.notReturn hm.keepsStatus hrun₀ hnone₀
      rw [hbr] at hcase₀
      obtain ⟨husable, wide, hn₀⟩ := hcase₀
      obtain ⟨hprogram, hcondition⟩ := sameProgram_interpret hm hsame hbr hrun₀ hnone₀ hrun hnone
      -- All that the branch depends on is in `r` what it was in the first run
      obtain ⟨cop0, rfl, hcop0⟩ := hr
      have hreg : ∀ s, b.returned.reg s = n₀.cpu.ended.reg s := fun s => by
        rw [hback.reg, Cpu.reg_ended, Cpu.reg_ended, hprogram.reg]
      have hreturned : b.returned.flow = (m.cpu.pc, m.cpu.pc + 4, false) := by
        rw [hback.flow, show n.cpu.pc = n₀.cpu.pc from congrArg (·.1) hflow, hpc, ← hslot, hyes]
        simp [ExceptionSite.returnAddress]
      rw [hcpu₀]
      exact branch_again (r := { b.returned with cop0 }) hc hm hbr husable hn₀ hreg
        (hback.hi.trans hprogram.hi) (hback.lo.trans hprogram.lo)
        (hback.condition.trans hcondition)
        (hcop0.status.trans (congrArg Prod.snd (hback.status.trans hkept)))
        (hcop0.pending.trans hback.pending) hreturned bus

/-- A machine with interrupts enabled, and registers as given. -/
def interruptible (registers : List (RegisterIndex × UInt64)) : Machine :=
  let m := loaded 0xFFFFFFFF80000100 registers []
  { m with cpu := m.cpu.writeStatus 0x34000001 }

/-- The timer has expired, on a line of its own. -/
def expired (m : Machine) : Machine :=
  { m with cpu := { m.cpu with cop0 := { m.cpu.cop0 with timerPending := true } } }

/-- Outside delay slots and handlers, a branch that does not link may be interrupted. -/
private theorem restartable_of_branch {word : UInt32} {c : Cpu} {b : Branch}
    (hb : (Instruction.mk word).branch? c.pc = some b) (hlink : b.link = none)
    (h : (c.branchPending = false ∧ c.nextPc = c.pc + 4) ∧
      (c.cop0.status.exl = false ∧ c.cop0.status.erl = false) ∧
      (Instruction.mk word).isExceptionReturn = false ∧
      (Instruction.mk word).writesCop0 Cop0.statusWord = false) : Restartable word c := by
  obtain ⟨⟨hslot, hnext⟩, ⟨hexl, herl⟩, hreturn, hwrites⟩ := h
  refine ⟨fun _ => hnext, hexl, herl, hreturn, hwrites, fun b' hb' => ⟨hslot, fun r hr => ?_⟩⟩
  cases hb.symm.trans hb'
  exact nomatch hlink.symm.trans hr

/-- A branch to itself, interrupted before its delay slot. -/
theorem interruptible_transparent :
    ∃ a b, Interrupted 0x1000FFFF (interruptible []) (interruptible []).expired a b ∧
      b.cop0.cause.bd = true ∧
      ∃ again, interpret 0x1000FFFF b.returned.pc ⟨b.returned, a.bus⟩ = .ok () again ∧
        ∃ c, again.cpu.retire = (c, true) ∧ a.cpu.SameProgram c := by
  have hc : (interruptible []).cpu.WellFormed :=
    ⟨by decide +kernel, by decide +kernel, by decide +kernel⟩
  have hm : Restartable 0x1000FFFF (interruptible []).cpu :=
    restartable_of_branch rfl rfl (by decide +kernel)
  -- Both runs are evaluated; that the program cannot tell is the theorem's
  have hrun : ∃ a b, Interrupted 0x1000FFFF (interruptible []) (interruptible []).expired a b ∧
      a.cpu.branchPending = true ∧ ∃ again c,
        interpret 0x1000FFFF b.returned.pc ⟨b.returned, a.bus⟩ = .ok () again ∧
        again.cpu.retire = (c, true) :=
    ⟨_, _, ⟨⟨_, rfl, fun _ _ => rfl, rfl, rfl⟩, rfl, _, rfl, rfl, rfl⟩, rfl, _, _, rfl, rfl⟩
  obtain ⟨a, b, h, hslot, again, c, hagain, hretire⟩ := hrun
  obtain ⟨-, hbd, -, -, hbranch⟩ := interrupt_transparent hc hm h
  obtain ⟨again', hagain', -, hsame⟩ := hbranch hslot b.returned
    ⟨_, rfl, fun _ _ => rfl, rfl, rfl⟩ a.bus
  cases hagain.symm.trans hagain'
  exact ⟨a, b, h, hbd.trans hslot, again, hagain, c, hretire, hsame c hretire⟩

/-- A machine whose decoded status lets the floating-point unit be used and whose status
word does not. -/
def outOfSync : Machine :=
  let m := interruptible []
  { m with cpu := { m.cpu with cop0 := m.cpu.cop0.put Cop0.statusWord 1 } }

/-- Without a well-formed CPU, an interrupt can be told.  A branch that compares register
zero with another one goes a different way when it is carried out again, if both held 5
before: by then register zero is zero.  And a branch on the floating-point condition raises
an exception, if only the decoded status let it use the unit. -/
theorem not_transparent_of_not_wellFormed :
    (Restartable 0x10010003 (interruptible [(0, 5), (1, 5)]).cpu ∧
      ∃ a b again c, Interrupted 0x10010003 (interruptible [(0, 5), (1, 5)])
          (interruptible [(0, 5), (1, 5)]).expired a b ∧ a.cpu.branchPending = true ∧
        interpret 0x10010003 b.returned.pc ⟨b.returned, a.bus⟩ = .ok () again ∧
        again.cpu.retire = (c, true) ∧ ¬a.cpu.SameProgram c) ∧
    (Restartable 0x45000003 outOfSync.cpu ∧
      ∃ a b again, Interrupted 0x45000003 outOfSync outOfSync.expired a b ∧
        a.cpu.branchPending = true ∧
        interpret 0x45000003 b.returned.pc ⟨b.returned, a.bus⟩ = .ok () again ∧
        again.cpu.cop0.pending = some (.coprocessorUnusable 1)) := by
  -- A register zero that is not zero, and a view of Status that is not its word
  refine ⟨⟨?_, ?_⟩, ?_, ?_⟩
  · exact restartable_of_branch rfl rfl (by decide +kernel)
  · refine ⟨_, _, _, _, ⟨⟨_, rfl, fun _ _ => rfl, rfl, rfl⟩, rfl, _, rfl, rfl, rfl⟩, rfl, rfl, rfl,
      fun h => ?_⟩
    have hnext := congrArg (·.2.1) h.flow
    revert hnext
    decide +kernel
  · exact restartable_of_branch rfl rfl (by decide +kernel)
  · exact ⟨_, _, _, ⟨⟨_, rfl, fun _ _ => rfl, rfl, rfl⟩, rfl, _, rfl, rfl, rfl⟩, rfl, rfl, rfl⟩

end Machine

end Console64
