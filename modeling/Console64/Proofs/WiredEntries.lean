import Console64.Console
import Console64.Proofs.ControlState
import Console64.Proofs.CoprocessorState

/-!
# Wired entries of the TLB

Programs protect the first entries of the TLB by a limit: the replacement index never falls
below it.  So an entry that is replaced at random is not a wired one, and a wired entry
changes only where the program names it.

## Key results

- `Cpu.ControlEffect`: what an instruction does to the TLB and the coprocessor
- `Cpu.cop0_next` / `Cpu.tlb_next`: the same for an event of a run
- `Cpu.wired_entries_survive`: wired entries change only by TLBWI
-/

namespace Console64

namespace Instruction

/-- TLBWI: write the entry that the index register names. -/
def writesIndexed (i : Instruction) : Bool :=
  i.opcode = 0x10 && 0x10 ≤ i.fmt && i.funct = 0x02

/-- TLBWR: replace the entry that the replacement index names. -/
def writesRandom (i : Instruction) : Bool :=
  i.opcode = 0x10 && 0x10 ≤ i.fmt && i.funct = 0x06

end Instruction

namespace Cpu

/-! ## One instruction -/

/-- What an instruction does to the system control coprocessor, as operations, and to the
TLB. -/
structure ControlEffect (i : Instruction) (c c' : Cpu) : Prop where
  cop0 : ∃ ops, c'.cop0 = c.cop0.after ops
  tlb : c'.tlb = c.tlb ∨
    (i.writesIndexed = true ∧
      c'.tlb = c.tlb.write (c.entryIndex Cop0.index) c.entryFromRegisters) ∨
    (i.writesRandom = true ∧
      c'.tlb = c.tlb.write (c.entryIndex Cop0.random) c.entryFromRegisters)

section
variable {i : Instruction} {c c' : Cpu}

/-- All but three instructions keep the TLB. -/
private theorem ControlEffect.of_ops (ops : List Cop0.Operation)
    (hcop0 : c'.cop0 = c.cop0.after ops) (htlb : c'.tlb = c.tlb) : ControlEffect i c c' :=
  ⟨⟨ops, hcop0⟩, .inl htlb⟩

/-- An exception is noted, -/
private theorem controlEffect_raise (c : Cpu) (code : ExceptionCode) :
    ControlEffect i c (c.raise code) := .of_ops [.record (.general code)] rfl rfl

/-- or a register is written, -/
private theorem controlEffect_writeCop0 (c : Cpu) (r : RegisterIndex) (v : UInt64) :
    ControlEffect i c (c.writeCop0 r v) := by
  simp only [writeCop0]
  split
  case isTrue hr =>
    subst hr
    exact .of_ops [.write Cop0.statusWord v] rfl rfl
  case isFalse => exact .of_ops [.write r v] rfl rfl

/-- or the instruction is reserved and an exception noted after all. -/
private theorem controlEffect_ifWide {f : Cpu → Cpu} (h : ControlEffect i c (f c)) :
    ControlEffect i c (c.ifWide f) := by
  simp only [ifWide]
  split
  · exact h
  · exact controlEffect_raise c _

/-- TLBR loads the registers for entries. -/
private theorem controlEffect_readEntry (c : Cpu) : ControlEffect i c c.readEntry :=
  .of_ops [.load Cop0.pageMask _ (by decide), .load Cop0.entryHi _ (by decide),
    .load Cop0.entryLo0 _ (by decide), .load Cop0.entryLo1 _ (by decide)] rfl rfl

/-- ERET leaves the exception. -/
private theorem controlEffect_exceptionReturn (c : Cpu) : ControlEffect i c c.exceptionReturn :=
  .of_ops [.leave] rfl rfl

/-- So each instruction of the coprocessor comes to operations, and two of them write the TLB. -/
private theorem controlEffect_performCop0 (c : Cpu) (hop : i.opcode = 0x10) :
    ControlEffect i c (c.performCop0 i) := by
  simp only [performCop0]
  split
  · exact .of_ops [.record (.coprocessorUnusable 0)] rfl rfl
  · split
    case h_1 => exact .of_ops [] rfl rfl
    case h_2 => exact controlEffect_ifWide (.of_ops [] rfl rfl)
    case h_3 => exact controlEffect_writeCop0 c _ _
    case h_4 => exact controlEffect_ifWide (controlEffect_writeCop0 c _ _)
    case h_5 =>
      split
      case isTrue => exact controlEffect_raise c _
      -- Past the moves, `funct` tells which one it is
      case isFalse hfmt =>
        have hfmt : 0x10 ≤ i.fmt := UInt32.not_lt.mp hfmt
        split
        case h_1 => exact controlEffect_readEntry c
        case h_2 hfunct =>
          exact ⟨⟨[], rfl⟩, .inr (.inl ⟨by simp [Instruction.writesIndexed, *], rfl⟩)⟩
        case h_3 hfunct =>
          exact ⟨⟨[], rfl⟩, .inr (.inr ⟨by simp [Instruction.writesRandom, *], rfl⟩)⟩
        case h_4 => exact .of_ops [.load Cop0.index _ (by decide)] rfl rfl
        case h_5 => exact controlEffect_exceptionReturn c
        case h_6 => exact controlEffect_raise c _

/-- The end of an instruction is three operations: a cycle passes, the replacement index
moves, and what was noted is taken, or else an interrupt. -/
theorem cop0_retire (c : Cpu) : c.retire.1.cop0 =
    c.cop0.after [.tick, .stepRandom, .service c.ended.exceptionSite] := by
  simp only [retire, serviceExceptions]
  split
  case h_1 target cop0 h => exact (congrArg Prod.snd h).symm
  case h_2 cop0 h => exact (congrArg Prod.snd h).symm

/-- None of them concerns the TLB. -/
theorem tlb_retire (c : Cpu) : c.retire.1.tlb = c.tlb := by
  simp only [retire, serviceExceptions]
  split <;> rfl

/-- It does not touch the TLB. -/
theorem ControlEffect.retire (h : ControlEffect i c c') : ControlEffect i c c'.retire.1 := by
  obtain ⟨⟨ops, hcop0⟩, htlb⟩ := h
  refine ⟨⟨ops ++ [.tick, .stepRandom, .service c'.ended.exceptionSite], ?_⟩, ?_⟩
  · rw [cop0_retire, hcop0, Cop0.after_append]
  · rw [tlb_retire]
    exact htlb

end

end Cpu

namespace Machine

/-- What an instruction does to the coprocessor and the TLB before it retires. -/
private theorem controlEffect_execute {i : Instruction} {pc : UInt64} {m m' : Machine}
    (h : execute i pc m = .ok () m') : Cpu.ControlEffect i m.cpu m'.cpu := by
  rcases execute_cases h with ⟨⟨k, fpu, -, -, -, hcpu⟩, -⟩ | hcompleted | ⟨hop, hcpu, -⟩
  · rw [hcpu]
    exact .of_ops [.record k] rfl rfl
  · rcases hcompleted.cop0 with hcop0 | ⟨v, hcop0⟩
    · exact .of_ops [] hcop0 hcompleted.tlb
    · exact .of_ops [.load Cop0.linkAddress v (by decide)] hcop0 hcompleted.tlb
  · rw [hcpu]
    exact Cpu.controlEffect_performCop0 m.cpu hop

/-- A whole instruction, also one that a bus fault has cut short. -/
theorem controlEffect_carryOut (word : UInt32) (pc : UInt64) (m : Machine) :
    Cpu.ControlEffect ⟨word⟩ m.cpu (stateOf (carryOut word pc m)).cpu := by
  have hbegin : modifyCpu (·.begin pc word) m = .ok () ⟨m.cpu.begin pc word, m.bus⟩ := rfl
  rw [carryOut, interpret, bind_assoc, bind_of_ok hbegin]
  -- An instruction that fails has not reached its end, where the counters move
  cases hrun : execute ⟨word⟩ pc ⟨m.cpu.begin pc word, m.bus⟩ with
  | ok u m' =>
    rw [bind_of_ok hrun]
    have hend := Cpu.ControlEffect.retire (controlEffect_execute hrun)
    exact ⟨hend.cop0, hend.tlb⟩
  | error e m' =>
    rw [bind_of_error hrun]
    obtain ⟨fpu, hcpu⟩ := execute_fault hrun
    rw [stateOf_error, hcpu]
    exact .of_ops [] rfl rfl

end Machine

namespace Cpu

/-! ## Events -/

/-- The event is a TLBWI. -/
def Event.writesIndexed : Event → Bool
  | .carriedOut word _ _ => (Instruction.mk word).writesIndexed
  | .refused _ => false

/-- The event is a TLBWR. -/
def Event.writesRandom : Event → Bool
  | .carriedOut word _ _ => (Instruction.mk word).writesRandom
  | .refused _ => false

/-- An event does to the coprocessor what some operations do. -/
theorem cop0_next (c : Cpu) (e : Event) : ∃ ops, (c.next e).cop0 = c.cop0.after ops := by
  cases e with
  | carriedOut word pc bus => exact (Machine.controlEffect_carryOut word pc ⟨c, bus⟩).cop0
  | refused k =>
    exact ⟨[.record k, .tick, .stepRandom, .service _],
      cop0_retire ((c.recordCondition k).begin c.pc 0)⟩

/-- An event keeps the TLB, or it is one of two instructions and writes the entry that this
one names. -/
theorem tlb_next (c : Cpu) (e : Event) : (c.next e).tlb = c.tlb ∨
    (e.writesIndexed = true ∧
      (c.next e).tlb = c.tlb.write (c.entryIndex Cop0.index) c.entryFromRegisters) ∨
    (e.writesRandom = true ∧
      (c.next e).tlb = c.tlb.write (c.entryIndex Cop0.random) c.entryFromRegisters) := by
  cases e with
  | carriedOut word pc bus => exact (Machine.controlEffect_carryOut word pc ⟨c, bus⟩).tlb
  | refused k => exact .inl (tlb_retire _)

/-- So do several events. -/
theorem cop0_after (c : Cpu) (events : List Event) :
    ∃ ops, (c.after events).cop0 = c.cop0.after ops := by
  induction events generalizing c with
  | nil => exact ⟨[], rfl⟩
  | cons e events ih =>
    obtain ⟨ops, hnext⟩ := c.cop0_next e
    obtain ⟨ops', hafter⟩ := ih (c.next e)
    exact ⟨ops ++ ops', by rw [Cop0.after_append, ← hnext]; exact hafter⟩

/-! ## Runs -/

/-- What happens to a CPU: it works, or its coprocessor is operated from outside, where
everything but the TLB may change along. -/
inductive Activity : Cpu → Cpu → Prop
  | call {c c' : Cpu} (h : Call c c') : Activity c c'
  | outside {c c' : Cpu} (ops : List Cop0.Operation) (hcop0 : c'.cop0 = c.cop0.after ops)
    (htlb : c'.tlb = c.tlb) : Activity c c'

/-- The boot ROM does its work from outside. -/
theorem activity_bootedCpu (c : Cpu) (chip : BootChip) (tv : TvStandard) :
    Activity c (Machine.bootedCpu c chip tv) :=
  .outside
    [.write Cop0.count 0x5000, .load Cop0.config 0x0006E463 (by decide),
      .load Cop0.epc 0xFFFFFFFF (by decide), .load Cop0.errorEpc 0xFFFFFFFF (by decide),
      .load Cop0.context 0x007FFFF0 (by decide), .loadCause 0xB000007C,
      .write Cop0.statusWord 0x34000000] rfl rfl

/-- So does the interrupt controller between two runs of the engine. -/
theorem activity_catchUp (elapsed : Nat) (m : Machine) :
    Activity m.cpu (Console.catchUp elapsed m).cpu :=
  .outside [.driveLine 2 (m.bus.advanceVideo elapsed).mi.asserted] rfl rfl

/-- A step or a call is a sequence of events. -/
theorem Call.comesTo {c c' : Cpu} (h : Call c c') : c.ComesTo c' := by
  cases h with
  | step bus => exact Machine.comesTo_step (m := ⟨c, bus⟩) (.refl c)
  | execute budget r bus => exact Recompiler.comesTo_executeWithin budget (r, ⟨c, bus⟩)

/-- Whatever happens to a CPU from power-on, its coprocessor is one to which some operations
were done. -/
theorem cop0_of_activity {c c' : Cpu} (hstart : c.cop0 = .initial)
    (h : Relation.ReflTransGen Activity c c') : ∃ ops, c'.cop0 = Cop0.initial.after ops := by
  induction h with
  | refl => exact ⟨[], hstart⟩
  | tail _ hactivity ih =>
    obtain ⟨ops, hcop0⟩ := ih
    cases hactivity with
    | call hcall =>
      obtain ⟨events, rfl⟩ := hcall.comesTo
      obtain ⟨ops', hafter⟩ := cop0_after _ events
      exact ⟨ops ++ ops', by rw [Cop0.after_append, ← hcop0, hafter]⟩
    | outside ops' hafter => exact ⟨ops ++ ops', by rw [Cop0.after_append, ← hcop0, hafter]⟩

/-- So its views and its replacement index are as they should be, after any run. -/
theorem consistent_of_activity {c c' : Cpu} (hstart : c.cop0 = .initial)
    (h : Relation.ReflTransGen Activity c c') : c'.cop0.Consistent := by
  obtain ⟨ops, hcop0⟩ := cop0_of_activity hstart h
  exact hcop0 ▸ Cop0.consistent_after ops

/-- What an event may do to the TLB: TLBWI writes the entry that the index register names,
and TLBWR one from the limit on; no other event changes an entry, and so none but TLBWI
changes one below the limit. -/
structure WiredKept (c : Cpu) (e : Event) : Prop where
  written : (c.next e).tlb = c.tlb ∨ ∃ n entry, (c.next e).tlb = c.tlb.write n entry ∧
    ((e.writesIndexed = true ∧ n = c.entryIndex Cop0.index) ∨
      (e.writesRandom = true ∧ n = c.entryIndex Cop0.random ∧
        (c.cop0.get Cop0.wired &&& 0x1F).toNat ≤ n.val))
  kept : ∀ n : Fin 32, n.val < (c.cop0.get Cop0.wired &&& 0x1F).toNat →
    (c.next e).tlb.read n ≠ c.tlb.read n → e.writesIndexed = true

/-- The replacement index names an entry from the limit on. -/
private theorem limit_le_entryIndex {c : Cpu} (h : c.cop0.Consistent) :
    (c.cop0.get Cop0.wired &&& 0x1F).toNat ≤ (c.entryIndex Cop0.random).val := by
  have hlimited := UInt64.le_iff_toNat_le.mp h.limited
  have hbounded : (c.cop0.get Cop0.random).toNat ≤ 31 := UInt64.le_iff_toNat_le.mp h.bounded
  have hindex : (c.entryIndex Cop0.random).val = (c.cop0.get Cop0.random).toNat % 32 := rfl
  omega

/-- Writing one entry leaves the others alone. -/
private theorem read_write_of_ne {t : Tlb} {n k : Fin 32} (h : n ≠ k) (e : TlbEntry) :
    (t.write n e).read k = t.read k :=
  (get_replaceAt t.entries n k e.stored).trans (if_neg h)

/-- Where the replacement index is in its bounds, TLBWR keeps to them. -/
theorem wiredKept_of_consistent {c : Cpu} (h : c.cop0.Consistent) (e : Event) :
    c.WiredKept e := by
  have hlimit := limit_le_entryIndex h
  rcases c.tlb_next e with hsame | ⟨he, hwritten⟩ | ⟨he, hwritten⟩
  · exact ⟨.inl hsame, fun n _ hchanged => absurd (by rw [hsame]) hchanged⟩
  · exact ⟨.inr ⟨_, _, hwritten, .inl ⟨he, rfl⟩⟩, fun _ _ _ => he⟩
  · refine ⟨.inr ⟨_, _, hwritten, .inr ⟨he, rfl, hlimit⟩⟩, fun n hn hchanged => ?_⟩
    have hne : c.entryIndex Cop0.random ≠ n := by
      rintro rfl
      omega
    rw [hwritten, read_write_of_ne hne] at hchanged
    exact absurd rfl hchanged

/-- Wired entries survive.  Whatever is done to the coprocessor after power-on, the
replacement index lies between the limit and 31.  So wherever a CPU has come to in a run,
and whatever instructions it carries out from there, TLBWR replaces an entry from the limit
on, and an entry below the limit changes by TLBWI only; and steps and calls do nothing but
carry out instructions. -/
theorem wired_entries_survive :
    (∀ ops : List Cop0.Operation,
      (Cop0.initial.after ops).get Cop0.wired &&& 0x1F ≤ (Cop0.initial.after ops).get Cop0.random ∧
      (Cop0.initial.after ops).get Cop0.random ≤ 31) ∧
    ∀ {start c : Cpu}, start.cop0 = .initial → Relation.ReflTransGen Activity start c →
      (∀ events e, (c.after events).WiredKept e) ∧
      ∀ {c'}, Call c c' → ∃ events, c' = c.after events := by
  constructor
  · intro ops
    have h := Cop0.consistent_after ops
    exact ⟨h.limited, h.bounded⟩
  · intro start c hstart hrun
    refine ⟨fun events e => ?_, fun hcall => hcall.comesTo⟩
    obtain ⟨ops, hafter⟩ := c.cop0_after events
    have h := (consistent_of_activity hstart hrun).after ops
    exact wiredKept_of_consistent (hafter ▸ h) e

/-- A machine with all but the last two entries wired, about to replace one. -/
def replacing : Machine :=
  let m := Machine.loaded 0xFFFFFFFF80000100 [] [(.rdram, 0x100, 0x42000006)]
  { m with cpu := { m.cpu with cop0 := m.cpu.cop0.write Cop0.wired 30 } }

/-- It replaces the last entry. -/
theorem replaced_of_replacing :
    ∃ c', Call replacing.cpu c' ∧ c'.tlb.read 31 ≠ replacing.cpu.tlb.read 31 ∧
      (∀ events e, (replacing.cpu.after events).WiredKept e) ∧
      ∃ events, c' = replacing.cpu.after events := by
  have hcall : Call replacing.cpu (stateOf (Machine.step replacing)).cpu :=
    .step replacing.cpu replacing.bus
  have hchanged : (stateOf (Machine.step replacing)).cpu.tlb.read 31 ≠
      replacing.cpu.tlb.read 31 := by
    decide +kernel
  have hlimit : Activity {} replacing.cpu :=
    .outside [.write Cop0.statusWord 0x34000000, .write Cop0.wired 30] rfl rfl
  obtain ⟨hkept, hevents⟩ := wired_entries_survive.2 rfl (.single hlimit)
  exact ⟨_, hcall, hchanged, hkept, hevents hcall⟩

end Cpu

end Console64
