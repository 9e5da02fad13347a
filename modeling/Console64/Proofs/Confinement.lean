import Console64.Proofs.BusUse
import Console64.Proofs.FirstVisit
import Console64.Proofs.PageTranslation
import Console64.Proofs.Retirement

/-!
# Programs outside kernel mode are confined

A program that is not in kernel mode and may not use the system control coprocessor can
change what it is confined by, the TLB and the registers of that coprocessor, only by
raising an exception, which takes it to a handler.  In user mode it also reaches no byte
of physical memory but those of pages that the TLB maps for it, in its address space or
for all, and it stores only into those among them that are writable.

## Key results

- `Cpu.grants_of_reaches`: what a user program can translate, the TLB grants it
- `Machine.step_use`: a step as a use of the bus, with all its accesses
- `Machine.step_confined`: confinement of a step
-/

namespace Console64

/-! ## Pages that the TLB grants -/

namespace Cpu

/-- The TLB grants the program the byte at `physical` under the address `a`: an entry for
the address, in the address space in force or in all, has a valid page there, which is
writable if it is stored to. -/
def Grants (c : Cpu) (access : Access) (a : UInt64) (physical : UInt32) : Prop :=
  ∃ e ∈ c.tlb.entries, e.covers (c.pageOf a) c.cop0.addressSpace = true ∧
    e.frameFor (c.pageOf a) &&& 2 ≠ 0 ∧
    (access = .store → e.frameFor (c.pageOf a) &&& 4 ≠ 0) ∧
    physical = e.physical (e.frameFor (c.pageOf a)) (c.pageOf a)

/-- No segment leads a user program past the TLB. -/
private theorem segmentOf_user {c : Cpu} (h : c.cop0.privilege = .user) (a : UInt64)
    (physical : UInt32) : c.segmentOf a ≠ .direct physical := by
  simp only [segmentOf, wideSegment, narrowSegment, h]
  repeat' split
  all_goals simp_all

/-- What the TLB translates is in a page of one of its entries. -/
private theorem grants_of_translate {c : Cpu} {a : UInt64} {access : Access} {p : UInt32}
    (h : c.tlb.translate (c.pageOf a) c.cop0.addressSpace (access = .store) = .ok p) :
    c.Grants access a p := by
  -- No entry, an entry that is not valid, a store to a read-only page, or the page
  simp only [Tlb.translate] at h
  split at h
  case h_1 => cases h
  case h_2 e hfind =>
    split at h
    · cases h
    case isFalse hvalid =>
      split at h
      · cases h
      case isFalse hwritable =>
        cases h
        have hcovers := Vector.find?_some hfind
        refine ⟨e, Vector.mem_of_find?_eq_some hfind, hcovers, hvalid, fun hstore hbit => ?_, rfl⟩
        simp [hstore, hbit] at hwritable

/-- A user program reaches only what the TLB grants it. -/
theorem grants_of_resolve {c : Cpu} (huser : c.cop0.privilege = .user) {a : UInt64}
    {access : Access} {p : UInt32} (h : c.resolve a access = .ok p) : c.Grants access a p := by
  rw [resolve_eq] at h
  -- In user mode no segment is mapped directly
  cases hseg : c.segmentOf a with
  | direct physical => exact absurd hseg (segmentOf_user huser a physical)
  | forbidden =>
    rw [hseg] at h
    exact nomatch h
  | mapped =>
    rw [hseg] at h
    cases htlb : c.tlb.translate (c.pageOf a) c.cop0.addressSpace (access = .store) with
    | ok physical =>
      simp only [htlb] at h
      cases h
      exact grants_of_translate htlb
    | error fault =>
      simp only [htlb] at h
      exact nomatch h

/-- So it is with every byte of an access, which cannot leave its page. -/
theorem grants_of_reaches {c : Cpu} (huser : c.cop0.privilege = .user) {access : Access}
    {p : UInt32} {n : Nat} (h : c.Reaches access p n) :
    ∃ a, ∀ i < n, c.Grants access (a + UInt64.ofNat i) (p + UInt32.ofNat i) := by
  obtain ⟨a, hp, hinside⟩ := h
  refine ⟨a, fun i hi => ?_⟩
  have hoffset : (UInt64.ofNat i).toNat = i := by
    rw [UInt64.toNat_ofNat']
    omega
  -- The bytes of one access do not leave the page
  have hpage : SamePage a (UInt64.ofNat i) := by
    simp only [SamePage, hoffset]
    omega
  have hnext := resolve_add hp hpage
  rw [UInt64.toUInt32_ofNat'] at hnext
  exact grants_of_resolve huser hnext

/-! ## What a step leaves -/

/-- The registers of the system control coprocessor that the CPU changes by itself. -/
def changingRegisters : List RegisterIndex :=
  [Cop0.random, Cop0.count, Cop0.causeWord, Cop0.linkAddress]

/-- What confines a program is as before; of the cause word only the timer bit may have been
set. -/
structure StillConfined (c c' : Cpu) : Prop where
  tlb : c'.tlb = c.tlb
  registers : ∀ r, r ∉ changingRegisters → c'.cop0.get r = c.cop0.get r
  cause : c'.cop0.get Cop0.causeWord = c.cop0.get Cop0.causeWord ∨
    c'.cop0.get Cop0.causeWord = Cop0.low32 (c.cop0.get Cop0.causeWord ||| Cop0.timerBit)
  status : c'.cop0.status = c.cop0.status

/-- The program was left for a handler: the status is the old one with EXL set, and
execution goes on at one of the vectors. -/
structure AtHandler (c c' : Cpu) : Prop where
  word : c'.cop0.get Cop0.statusWord =
    Cop0.low32 (c.cop0.get Cop0.statusWord ||| Cop0.exlBit)
  status : c'.cop0.status = .decode (c.cop0.get Cop0.statusWord ||| Cop0.exlBit).toUInt32
  pc : c'.pc ∈ c.cop0.vectors

end Cpu

namespace Machine

open Cpu (Completed StillConfined AtHandler)

/-- A step, with the answer whether execution goes on where it left off. -/
def stepOnPath : MachineM Bool := do
  let pc ← withCpu (·.pc)
  let word ← fetch pc
  modifyCpu (·.begin pc (word.getD 0))
  match word with
  | some w => execute ⟨w⟩ pc
  | none => pure ()
  retire

/-- A step is that with the answer left out. -/
theorem step_eq : step = stepOnPath >>= fun _ => pure () := by
  simp only [step, stepOnPath, bind_assoc, discard_eq]
  refine congrArg _ (funext fun pc => congrArg _ (funext fun word => ?_))
  refine congrArg _ (funext fun _ => ?_)
  cases word <;> simp only [bind_assoc]

/-- A fetch that raises an exception leaves nothing to carry out; otherwise the word that is
fetched is carried out. -/
theorem stepOnPath_run (c : Cpu) :
    (∃ k, k.Synchronous ∧ ∀ bus,
      stepOnPath ⟨c, bus⟩ = retire ⟨(c.recordCondition k).begin c.pc 0, bus⟩) ∨
    ∃ p, c.Reaches .load p 4 ∧ ∀ bus, stepOnPath ⟨c, bus⟩ =
      (onBus (Bus.readValue p 4) >>= fun v => modifyCpu (·.begin c.pc v.toUInt32) >>= fun _ =>
        execute ⟨v.toUInt32⟩ c.pc >>= fun _ => retire) ⟨c, bus⟩ := by
  have hpc : ∀ bus, withCpu (·.pc) ⟨c, bus⟩ = .ok c.pc ⟨c, bus⟩ := fun _ => rfl
  rcases c.translateAligned_cases c.pc 4 .fetch with ⟨p, halign, hp, heq⟩ | ⟨k, hk, heq⟩
  · refine .inr ⟨p, ⟨c.pc, hp, AccessSize.inside (.inr (.inr (.inl rfl))) halign⟩, fun bus => ?_⟩
    rw [stepOnPath, bind_of_ok (hpc bus), bind_of_eq (fetch_of_translated heq bus), bind_assoc]
    exact onBus_congr (fun _ _ => by rfl) bus
  · refine .inl ⟨k, hk, fun bus => ?_⟩
    rw [stepOnPath, bind_of_ok (hpc bus)]
    exact bind_of_ok (fetch_of_fault heq bus)

/-- A step as a use of the bus: one load for the fetch, and what the instruction makes of it,
all at addresses that the CPU can translate when the step begins. -/
theorem step_use (c : Cpu) :
    ∃ u : BusUse, (∀ bus, step ⟨c, bus⟩ = u.run bus) ∧ u.Every c.Reaches := by
  rcases stepOnPath_run c with ⟨k, -, hrun⟩ | ⟨p, hp, hrun⟩
  · refine ⟨.done ((c.recordCondition k).begin c.pc 0).retire.1, fun bus => ?_, trivial⟩
    rw [step_eq]
    exact bind_of_ok (hrun bus)
  · -- The word that is fetched decides about the rest
    have huse : ∀ word, ∃ u : BusUse, (∀ bus, ((execute ⟨word⟩ c.pc >>= fun _ => retire) >>=
        fun _ => pure ()) ⟨c.begin c.pc word, bus⟩ = u.run bus) ∧ u.Every c.Reaches := by
      intro word
      obtain ⟨u, hexecute, hfollows⟩ := execute_use ⟨word⟩ c.pc (c.begin c.pc word)
      refine ⟨u.map (·.retire.1), fun bus => ?_, ?_⟩
      · rw [bind_assoc, BusUse.run_map, ← hexecute]
        cases h : execute ⟨word⟩ c.pc ⟨c.begin c.pc word, bus⟩ with
        | ok a m => exact bind_of_ok h
        | error e m => exact bind_of_error h
      · exact BusUse.Every.map (hfollows.mono (fun _ _ _ h => h) (fun _ _ => trivial) fun _ _ =>
          trivial) _
    obtain ⟨next, hnext⟩ := Classical.skolem.mp huse
    refine ⟨.load c p 4 fun v => next v.toUInt32, fun bus => ?_, hp, fun v => (hnext _).2⟩
    rw [step_eq, bind_of_eq (hrun bus), bind_assoc, BusUse.run_load]
    exact onBus_congr (fun v bus' => (hnext v.toUInt32).1 bus') bus

/-- What a program outside kernel mode can do before it retires an instruction: note a
condition, or complete without touching what confines it. -/
def Ran (c c' : Cpu) : Prop :=
  c'.tlb = c.tlb ∧
    ((∃ k, k.Synchronous ∧ c'.cop0 = c.cop0.recordCondition k) ∨
      c'.cop0 = c.cop0 ∨ ∃ v, c'.cop0 = c.cop0.put Cop0.linkAddress v)

/-- The instructions of the system control coprocessor are out of reach. -/
private theorem ran_of_execute {word : UInt32} {pc : UInt64} {m m' : Machine}
    (hpriv : m.cpu.cop0.privilege ≠ .kernel) (hunusable : m.cpu.cop0.status.usable 0 = false)
    (h : execute ⟨word⟩ pc m = .ok () m') : Ran m.cpu m'.cpu := by
  rcases execute_cases h with ⟨⟨k, fpu, hk, -, -, heq⟩, -⟩ | hcompleted | ⟨-, hcpu, -⟩
  · rw [heq]
    exact ⟨rfl, .inl ⟨k, hk, rfl⟩⟩
  · exact ⟨hcompleted.tlb, .inr hcompleted.cop0⟩
  · rw [hcpu, Cpu.performCop0, if_pos (by simp [hpriv, hunusable])]
    exact ⟨rfl, .inl ⟨.coprocessorUnusable 0, trivial, rfl⟩⟩

/-- Whatever a step does before it retires an instruction. -/
private theorem ran_of_step {m m' : Machine} {onPath : Bool}
    (hpriv : m.cpu.cop0.privilege ≠ .kernel) (hunusable : m.cpu.cop0.status.usable 0 = false)
    (h : stepOnPath m = .ok onPath m') :
    ∃ c₁, Ran m.cpu c₁ ∧ c₁.retire = (m'.cpu, onPath) := by
  obtain ⟨c, bus⟩ := m
  have hretire : ∀ {c₁ bus}, retire ⟨c₁, bus⟩ = .ok onPath m' →
      c₁.retire = (m'.cpu, onPath) := by
    intro c₁ bus h
    simp only [retire, onCpu, EStateM.Result.ok.injEq] at h
    obtain ⟨rfl, rfl⟩ := h
    rfl
  rcases stepOnPath_run c with ⟨k, hk, hrun⟩ | ⟨p, -, hrun⟩
  -- A condition of the fetch ends the step before anything is executed
  · rw [hrun] at h
    have hend := hretire h
    exact ⟨(c.recordCondition k).begin c.pc 0, ⟨rfl, .inl ⟨k, hk, rfl⟩⟩, hend⟩
  · rw [hrun] at h
    obtain ⟨v, ⟨c', bus'⟩, hread, hrest⟩ := bind_eq_ok h
    obtain rfl : c' = c := onBus_cpu hread
    obtain ⟨_, m₁, hbegin, hrest⟩ := bind_eq_ok hrest
    obtain ⟨_, m₂, hexecute, hend⟩ := bind_eq_ok hrest
    cases hbegin
    exact ⟨m₂.cpu, ran_of_execute (m := ⟨c'.begin c'.pc v.toUInt32, bus'⟩) hpriv hunusable hexecute,
      hretire hend⟩

/-- Without an exception the program is still confined. -/
private theorem stillConfined_of_retire {c c₁ c' : Cpu} (hclear : c.cop0.pending = none)
    (hran : Ran c c₁) (h : c₁.retire = (c', true)) : c.StillConfined c' := by
  obtain ⟨hnone, rfl⟩ := Cpu.retire_true h
  obtain ⟨htlb, ⟨k, -, hcop0⟩ | hcop0⟩ := hran
  -- With a condition noted the step would have left for a handler
  · rw [hcop0, Cop0.pending_recordCondition hclear] at hnone
    exact nomatch hnone
  · have hget : ∀ r, r ≠ Cop0.linkAddress → c₁.cop0.get r = c.cop0.get r := by
      intro r hr
      -- Only a load linked writes a register of the coprocessor
      rcases hcop0 with hcop0 | ⟨v, hcop0⟩
      · rw [hcop0]
      · rw [hcop0, Cop0.get_put, if_neg (Ne.symm hr)]
    have hstatus : c₁.cop0.status = c.cop0.status := by
      rcases hcop0 with hcop0 | ⟨v, hcop0⟩ <;> rw [hcop0]
      rfl
    refine ⟨htlb, fun r hr => ?_, ?_, ?_⟩
    · simp only [Cpu.changingRegisters, List.mem_cons, List.not_mem_nil, or_false, not_or] at hr
      obtain ⟨hrandom, hcount, hcause, hlink⟩ := hr
      exact (c₁.cop0.get_ticked (by simp [Cop0.movingRegisters, hrandom, hcount, hcause])).trans
        (hget r hlink)
    · have hcause := hget Cop0.causeWord (by decide)
      exact hcause ▸ c₁.cop0.cause_ticked
    · exact (congrArg Prod.snd c₁.cop0.ticked_keeps.2).trans hstatus

/-- With one it is left for a handler. -/
private theorem atHandler_of_retire {c c₁ c' : Cpu} (hclear : c.cop0.pending = none)
    (hran : Ran c c₁) (h : c₁.retire = (c', false)) : c.AtHandler c' := by
  obtain ⟨target, cop0, hservice, rfl⟩ := Cpu.retire_false h
  -- The status is untouched up to the point where the exception is entered
  have hbefore : c₁.cop0.statusState = c.cop0.statusState ∧
      ∀ k, c₁.cop0.pending = some k → k.Synchronous := by
    obtain ⟨-, ⟨k, hk, hcop0⟩ | hcop0 | ⟨v, hcop0⟩⟩ := hran
    · rw [hcop0, Cop0.pending_recordCondition hclear]
      refine ⟨Cop0.statusState_recordCondition _ _, fun k' hk' => ?_⟩
      cases hk'
      exact hk
    · rw [hcop0, hclear]
      exact ⟨rfl, fun _ h => nomatch h⟩
    · rw [hcop0]
      refine ⟨Cop0.statusState_put _ _ _ (by decide), fun k hk => ?_⟩
      exact nomatch hclear.symm.trans hk
  obtain ⟨hpending, hticked⟩ := c₁.cop0.ticked_keeps
  obtain ⟨hvector, timerPending, code, unit, rfl⟩ :=
    Cop0.service_entered (fun k hk => hbefore.2 k (hpending.symm.trans hk)) hservice
  have hstate : c₁.ended.cop0.statusState = c.cop0.statusState := hticked.trans hbefore.1
  have hentered := Cop0.enter_status (c₁.ended.cop0.awaiting none timerPending)
    c₁.ended.exceptionSite code unit
  rw [show (c₁.ended.cop0.awaiting none timerPending).get Cop0.statusWord =
    c.cop0.get Cop0.statusWord from congrArg Prod.fst hstate] at hentered
  refine ⟨congrArg Prod.fst hentered, congrArg Prod.snd hentered, ?_⟩
  have hstatus : c₁.cop0.ticked.status = c.cop0.status := congrArg Prod.snd hstate
  have hvectors : c₁.cop0.ticked.vectors = c.cop0.vectors := by
    simp only [Cop0.vectors, Cop0.vectorBase, hstatus]
  exact hvectors ▸ hvector

/-- A program outside kernel mode that may not use the system control coprocessor is
confined.  A step that goes on where it left off keeps the TLB and the registers of that
coprocessor, but for those that the CPU changes by itself; any other step leaves the program
for a handler.  In user mode, moreover, the accesses of the step do not depend on the bus,
and every byte of each is one that the TLB grants. -/
theorem step_confined {c : Cpu} (hpriv : c.cop0.privilege ≠ .kernel)
    (hunusable : c.cop0.status.usable 0 = false) (hclear : c.cop0.pending = none) :
    (∀ bus m', step ⟨c, bus⟩ = .ok () m' →
      ∃ onPath, stepOnPath ⟨c, bus⟩ = .ok onPath m' ∧
        if onPath then c.StillConfined m'.cpu else c.AtHandler m'.cpu) ∧
    (c.cop0.privilege = .user → ∃ u : BusUse, (∀ bus, step ⟨c, bus⟩ = u.run bus) ∧
      u.Every fun access physical n =>
        ∃ a, ∀ i < n, c.Grants access (a + UInt64.ofNat i) (physical + UInt32.ofNat i)) := by
  constructor
  -- The step answers, and its end tells whether it is in a handler
  · intro bus m' h
    rw [step_eq] at h
    obtain ⟨onPath, m₁, honPath, h⟩ := bind_eq_ok h
    cases h
    refine ⟨onPath, honPath, ?_⟩
    obtain ⟨c₁, hran, hretire⟩ := ran_of_step (m := ⟨c, bus⟩) hpriv hunusable honPath
    cases onPath with
    | true => exact stillConfined_of_retire hclear hran hretire
    | false => exact atHandler_of_retire hclear hran hretire
  · intro huser
    obtain ⟨u, hrun, hevery⟩ := step_use c
    exact ⟨u, hrun, hevery.mono fun _ _ _ h => Cpu.grants_of_reaches huser h⟩

/-- A user program of one instruction, which stores a word into the page that it runs in. -/
def storing : Machine :=
  let m := loaded 0 [] [(.rdram, 0, 0xAC080100)]
  { m with
    cpu := { m.cpu.writeStatus 0x10 with
      tlb := m.cpu.tlb.write 0 { pageMask := 0, hi := 0, lo0 := 7, lo1 := 7 } } }

/-- The store is carried out, and reaches no byte but those of the page. -/
theorem storing_confined :
    ∃ m', stepOnPath storing = .ok true m' ∧ storing.cpu.StillConfined m'.cpu ∧
      ∃ u : BusUse, (∀ bus, step ⟨storing.cpu, bus⟩ = u.run bus) ∧
        u.Every fun access physical n =>
          ∃ a, ∀ i < n, storing.cpu.Grants access (a + UInt64.ofNat i)
            (physical + UInt32.ofNat i) := by
  have hrun : answerOf (stepOnPath storing) = some true := by decide +kernel
  obtain ⟨m', honPath⟩ := exists_ok_of_answerOf hrun
  have huser : storing.cpu.cop0.privilege = .user := by decide +kernel
  obtain ⟨hstep, haccess⟩ := step_confined (c := storing.cpu) (by decide +kernel)
    (by decide +kernel) (by decide +kernel)
  have hok : step storing = .ok () m' := by
    rw [step_eq]
    exact bind_of_ok honPath
  obtain ⟨onPath, honPath', hleft⟩ := hstep storing.bus m' hok
  cases honPath.symm.trans honPath'
  exact ⟨m', honPath, hleft, haccess huser⟩

end Machine

end Console64
