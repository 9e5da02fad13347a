import Console64.Engine.Basic
import Console64.Proofs.BusScript
import Console64.Proofs.InstructionRuns
import Mathlib.Logic.Relation

/-!
# What an engine does to the bus

Whatever an engine runs, seen from the bus it comes to steps of single devices, between which
the log of writes is taken.  What these keep is kept by everything that is run.

## Key results

- `Machine.works_step`, `Block.works_run`, `Recompiler.works_executeWithin`,
  `Session.works_executeWithin`: whatever drives a machine leaves its bus as some such steps do
- `Bus.Works.keep`: what each of them keeps is kept by all work
- `Bus.Works.lineCycles_eq`: they do not move the video interface on
-/

namespace Console64

/-- If states that look alike are the same, only what is changed matters. -/
theorem Frame.respects_of_change {ε σ α : Type} {F : Frame σ} {x : EStateM ε σ α}
    (hsame : F.same = Eq) (h : ∀ s, F.change s (stateOf (x s))) : F.Respects x := by
  refine ⟨h, fun s t hst => ?_⟩
  rw [hsame] at hst ⊢
  subst hst
  cases x s with
  | ok a u => exact ⟨rfl, rfl⟩
  | error e u => exact ⟨rfl, rfl⟩

/-! ## The bus -/

namespace Bus

/-- One thing that happens to the bus while an engine runs. -/
inductive Work : Bus → Bus → Prop where
  | device (bus : Bus) (d : DeviceStep) : Work bus (d.apply bus)
  /-- The log of writes is taken. -/
  | take (bus : Bus) : Work bus bus.takeWrites.2

/-- Any number of them. -/
abbrev Works : Bus → Bus → Prop := Relation.ReflTransGen Work

/-- A request is device steps and nothing else. -/
theorem Request.works_leave (r : Request) (bus : Bus) : Works bus (r.leave bus) := by
  rw [r.leave_eq_foldl]
  generalize r.steps bus = ds
  induction ds generalizing bus with
  | nil => exact .refl
  | cons d ds ih => exact .head (.device bus d) (ih _)

/-- What device steps keep, and taking the log does too, is kept by all work. -/
theorem Works.keep {P : Bus → Prop} {s t : Bus} (h : Works s t)
    (hdevice : ∀ (bus : Bus) (d : DeviceStep), P bus → P (d.apply bus))
    (htake : ∀ bus : Bus, P bus → P bus.takeWrites.2) (hs : P s) : P t := by
  induction h with
  | refl => exact hs
  | tail _ hlast ih =>
    cases hlast with
    | device d => exact hdevice _ d ih
    | take => exact htake _ ih

/-- The frame of all work on the bus. -/
def workFrame : Frame Bus where
  change := Works
  change_refl _ := .refl
  change_trans := .trans
  same := Eq

/-- A read is a request, -/
private theorem read_work (address : UInt32) (length : Nat) :
    workFrame.Respects (read address length) :=
  Frame.respects_of_change rfl fun bus =>
    Request.works_leave (.load (transferFor address length) address length) bus

/-- also that of a value -/
theorem readValue_work (address : UInt32) (size : Nat) :
    workFrame.Respects (readValue address size) :=
  Frame.respects_bind (read_work address size) fun _ => Frame.respects_pure _

/-- or of a word, -/
theorem readWord_work (address : UInt32) : workFrame.Respects (readWord address) :=
  Frame.respects_bind (readValue_work address 4) fun _ => Frame.respects_pure _

/-- and so is a write. -/
theorem write_work (address : UInt32) (data : List UInt8) :
    workFrame.Respects (write address data) :=
  Frame.respects_of_change rfl fun bus =>
    Request.works_leave (.store (transferFor address data.length) address data) bus

end Bus

/-! ## Instructions and blocks -/

/-- What an instruction does on the bus is work. -/
theorem BusUse.works_run (u : BusUse) (bus : Bus) : Bus.Works bus (stateOf (u.run bus)).bus := by
  induction u generalizing bus with
  | done cpu => exact .refl
  | load cpu physical size next ih =>
    simp only [run]
    -- A fault ends the use, and what the bus did up to there is work as well
    cases hread : Bus.readValue physical size bus with
    | ok v bus' => exact ((Bus.readValue_work physical size).change_ok hread).trans (ih v bus')
    | error e bus' => exact (Bus.readValue_work physical size).change_error hread
  | store cpu physical bytes next ih =>
    simp only [run]
    cases hwrite : Bus.write physical bytes bus with
    | ok _ bus' => exact ((Bus.write_work physical bytes).change_ok hwrite).trans (ih bus')
    | error e bus' => exact (Bus.write_work physical bytes).change_error hwrite

namespace Machine

/-- A step of the interpreter. -/
theorem works_step (m : Machine) : Bus.Works m.bus (stateOf (step m)).bus := by
  obtain ⟨u, hrun, -⟩ := step_use m.cpu
  rw [show step m = u.run m.bus from hrun m.bus]
  exact u.works_run m.bus

/-- An instruction that has been fetched already. -/
theorem works_carryOut (word : UInt32) (pc : UInt64) (m : Machine) :
    Bus.Works m.bus (stateOf (carryOut word pc m)).bus := by
  have hbegin : modifyCpu (·.begin pc word) m = .ok () ⟨m.cpu.begin pc word, m.bus⟩ := rfl
  -- The instruction is a use of the bus, which is work
  obtain ⟨u, hrun, -⟩ := execute_use ⟨word⟩ pc (m.cpu.begin pc word)
  have hworks := u.works_run m.bus
  rw [← hrun m.bus] at hworks
  rw [carryOut, interpret, bind_assoc, bind_of_ok hbegin]
  cases hexecute : execute ⟨word⟩ pc ⟨m.cpu.begin pc word, m.bus⟩ with
  | ok u m' =>
    rw [hexecute] at hworks
    rw [bind_of_ok hexecute]
    exact hworks
  | error e m' =>
    rw [hexecute] at hworks
    rw [bind_of_error hexecute]
    exact hworks

/-- The frame of all work on the machine. -/
def workFrame : Frame Machine where
  change m m' := Bus.Works m.bus m'.bus
  change_refl _ := .refl
  change_trans := .trans
  same := Eq

end Machine

namespace Block

/-- So is what a block does, instruction by instruction, -/
private theorem works_runFrom {b : Block} {pc : UInt64} {retired : Nat} {writes : List ByteRange}
    {code : List DecodedWord} (m : Machine) :
    Bus.Works m.bus (stateOf (b.runFrom pc retired writes code m)).bus := by
  -- Induction on the words left: after each of them the log is taken
  induction code generalizing pc retired writes m with
  | nil => exact .refl
  | cons d rest ih =>
    have hcarry := Machine.works_carryOut d.word pc m
    rw [runFrom_cons]
    cases hd : b.runInstruction d pc m with
    | error e m₁ =>
      rw [runInstruction_error hd] at hcarry
      exact hcarry
    | ok answer m₁ =>
      obtain ⟨intact, more⟩ := answer
      obtain ⟨onPath, m₂, hrun, -, -, rfl⟩ := runInstruction_ok hd
      rw [hrun] at hcarry
      have htaken := hcarry.tail (.take m₂.bus)
      dsimp only
      split
      · exact htaken
      · exact htaken.trans (ih ⟨m₂.cpu, m₂.bus.takeWrites.2⟩)

/-- from its first one on. -/
theorem works_run (b : Block) (m : Machine) : Bus.Works m.bus (stateOf (b.run m)).bus :=
  works_runFrom m

end Block

/-! ## Engines -/

namespace Recompiler

/-- Reading code for the compiler is work on the bus. -/
theorem readCode_work (a : UInt32) : Machine.workFrame.Respects (readCode a) := by
  refine Frame.respects_of_change rfl fun m => ?_
  rw [readCode_eq]
  exact (Bus.readWord_work a).1 m.bus

/-- So is compiling, which only looks at words. -/
theorem compile_work (request : CompileRequest) :
    Machine.workFrame.Respects (Block.compile readCode request) :=
  Block.compile_closed (P := fun x => Machine.workFrame.Respects x) Frame.respects_pure
    Frame.respects_bind readCode_work request

/-- Each part of a call is work on the bus. -/
private theorem accounting_works (bus : Bus) : Accounting fun _ _ s => Bus.Works bus s.2.bus where
  prepare := by
    intro _ _ s h
    obtain ⟨r, m⟩ := s
    obtain ⟨result, s₁, hprepare, hprepared⟩ := prepare_run r m
    have hdrained : Bus.Works bus (drained m).bus := h.tail (.take m.bus)
    rw [hprepare, stateOf_ok]
    -- After the log has been taken, at most a block is compiled
    cases hprepared with
    | interpret => exact hdrained
    | cached => exact hdrained
    | failed _ hcompile =>
      exact hdrained.trans ((compile_work _).change_ok hcompile)
    | compiled _ _ hcompile =>
      exact hdrained.trans ((compile_work _).change_ok hcompile)
  interpret := by
    intro _ _ s reason h
    have hstep := Machine.works_step s.2
    rw [interpretOne_run]
    cases hrun : Machine.step s.2 <;> rw [hrun] at hstep <;> exact h.trans hstep
  block := by
    intro _ _ s b h
    obtain ⟨r, m⟩ := s
    have hblock := b.works_run m
    rw [runBlock_run]
    cases hrun : b.run m <;> rw [hrun] at hblock <;> exact h.trans hblock
  chain := fun h => h

/-- So is the call, whether it succeeds or fails. -/
theorem works_executeWithin (budget : Nat) (s : RunState) :
    Bus.Works s.2.bus (stateOf (executeWithin budget s)).2.bus :=
  @Accounting.executeWithin _ (accounting_works s.2.bus) [] [] s budget .refl

end Recompiler

/-- Whatever the engine, it works on the bus. -/
theorem Session.works_executeWithin (budget : Nat) (s : Session) :
    Bus.Works s.machine.bus (stateOf (executeWithin budget s)).machine.bus := by
  obtain ⟨engine, m⟩ := s
  cases engine with
  | interpreter =>
    have hstep := Machine.works_step m
    simp only [executeWithin]
    cases hrun : Machine.step m <;> rw [hrun] at hstep <;> exact hstep
  | recompiler r =>
    have hcall := Recompiler.works_executeWithin budget (r, m)
    simp only [executeWithin]
    cases hrun : Recompiler.executeWithin budget (r, m) <;> rw [hrun] at hcall <;> exact hcall

/-! ## The time within a line -/

namespace Bus

/-- No device moves the video interface on. -/
theorem DeviceStep.lineCycles_apply (bus : Bus) (d : DeviceStep) :
    (d.apply bus).vi.lineCycles = bus.vi.lineCycles := by
  cases d with
  | load region offset length => cases region <;> rfl
  | store region offset data => cases region <;> rfl
  | _ => rfl

/-- Only what time does moves it on. -/
theorem Works.lineCycles_eq {s t : Bus} (h : Works s t) : t.vi.lineCycles = s.vi.lineCycles :=
  h.keep (P := fun bus => bus.vi.lineCycles = s.vi.lineCycles)
    (fun bus d hbus => (d.lineCycles_apply bus).trans hbus) (fun _ hbus => hbus) rfl

end Bus

end Console64
