import Console64.Engine.Basic
import Console64.Proofs.FirstVisit
import Console64.Proofs.InstructionEffect

/-!
# A meter for retired instructions

An engine answers how many instructions it has retired.  One that fails gives no answer, although
it may have retired instructions of the block at hand, or of blocks before it.  So the work of
the engines is done here once more with a meter, that counts each instruction where it is
retired.

## Key results

- `Metered.run_executeWithin`: the meter does not change the work
- `Metered.answers_executeWithin`: an engine that succeeds answers what it has retired
- `Metered.executeWithin_interpreter`: the interpreter has retired nothing when it fails
-/

namespace Console64

/-- The exit at the end of a block counts its instructions. -/
theorem Block.retired_finalExit (b : Block) (n : Nat) : (b.finalExit n).retired = n := by
  unfold Block.finalExit
  split <;> rfl

/-- Work with a meter: how much it counts, depending on the state that it begins in.  That
counts whether the work succeeds or fails. -/
structure Metered (ε σ α : Type) where
  run : EStateM ε σ α
  count : σ → Nat

namespace Metered

section
variable {ε σ α β : Type}

/-- Work of which nothing is counted. -/
def silent (x : EStateM ε σ α) : Metered ε σ α := ⟨x, fun _ => 0⟩

/-- Work that counts `n`. -/
def counting (n : Nat) (x : EStateM ε σ α) : Metered ε σ α := ⟨x, fun _ => n⟩

/-- One part after the other: the second one counts if the first one succeeds. -/
def seq (x : Metered ε σ α) (f : α → Metered ε σ β) : Metered ε σ β where
  run := x.run >>= fun a => (f a).run
  count s := x.count s + match x.run s with
    | .ok a t => (f a).count t
    | .error _ _ => 0

instance : Monad (Metered ε σ) where
  pure a := silent (pure a)
  bind := seq

/-- Without the meter `pure` is what it was. -/
@[simp] theorem run_pure (a : α) : (pure a : Metered ε σ α).run = pure a := rfl

/-- So is `bind`. -/
@[simp] theorem run_bind (x : Metered ε σ α) (f : α → Metered ε σ β) :
    (x >>= f).run = x.run >>= fun a => (f a).run := rfl

/-- So is a choice between two kinds of work. -/
@[simp] theorem run_ite (p : Prop) [Decidable p] (x y : Metered ε σ α) :
    (if p then x else y).run = if p then x.run else y.run := by
  split <;> rfl

/-- The parts of a sequence add up if the first one succeeds. -/
theorem count_seq_of_ok {x : Metered ε σ α} {f : α → Metered ε σ β} {s t : σ} {a : α}
    (h : x.run s = .ok a t) : (x >>= f).count s = x.count s + (f a).count t := by
  show x.count s + _ = _
  rw [h]

/-- If it fails, the second one does not count. -/
theorem count_seq_of_error {x : Metered ε σ α} {f : α → Metered ε σ β} {s t : σ} {e : ε}
    (h : x.run s = .error e t) : (x >>= f).count s = x.count s := by
  show x.count s + _ = _
  rw [h, Nat.add_zero]

/-- A second part that counts nothing makes no difference, whether or not it is reached. -/
theorem count_seq_of_silent {x : Metered ε σ α} {f : α → Metered ε σ β}
    (h : ∀ a t, (f a).count t = 0) (s : σ) : (x >>= f).count s = x.count s := by
  cases hrun : x.run s with
  | ok a t => rw [count_seq_of_ok hrun, h, Nat.add_zero]
  | error e t => exact count_seq_of_error hrun

/-! ## What the answer tells of the count -/

/-- Where the work succeeds, its answer fits what it has counted. -/
def Answers (x : Metered ε σ α) (fits : α → Nat → Prop) : Prop :=
  ∀ s a t, x.run s = .ok a t → fits a (x.count s)

variable {P : α → Nat → Prop} {Q : β → Nat → Prop}

/-- What the answer tells may be weakened. -/
theorem Answers.mono {P' : α → Nat → Prop} {x : Metered ε σ α} (h : x.Answers P)
    (himp : ∀ a n, P a n → P' a n) : x.Answers P' := by
  intro s a t hrun
  exact himp a _ (h s a t hrun)

/-- Work that counts nothing fits an answer that says so. -/
theorem answers_silent {x : EStateM ε σ α} (h : ∀ a, P a 0) : (silent x).Answers P := by
  intro s a t _
  exact h a

/-- A bare answer counts nothing either. -/
theorem answers_pure {a : α} (h : P a 0) : (pure a : Metered ε σ α).Answers P := by
  intro s b t hrun
  cases hrun
  exact h

/-- Work that counts a fixed number fits an answer that may be had with any. -/
theorem answers_counting {n : Nat} {x : EStateM ε σ α} (h : ∀ a, P a n) :
    (counting n x).Answers P := by
  intro s a t _
  exact h a

/-- Counts add up along a sequence. -/
theorem Answers.bind {x : Metered ε σ α} {f : α → Metered ε σ β} (hx : x.Answers P)
    (hf : ∀ a n, P a n → (f a).Answers fun b k => Q b (n + k)) : (x >>= f).Answers Q := by
  intro s b u hrun
  obtain ⟨a, t, hfirst, hrest⟩ := bind_eq_ok hrun
  rw [count_seq_of_ok hfirst]
  exact hf a _ (hx s a t hfirst) t b u hrest

/-- Only the rest counts after work that counts nothing. -/
theorem answers_after_silent {x : EStateM ε σ α} {f : α → Metered ε σ β}
    (hf : ∀ a, (f a).Answers Q) : (silent x >>= f).Answers Q := by
  -- The first part is known to count zero, so the sum is the second part's count
  refine Answers.bind (P := fun _ n => n = 0) (answers_silent fun _ => rfl) ?_
  rintro a _ rfl
  simpa only [Nat.zero_add] using hf a

/-- Both sides of a choice have to fit, each under its own condition. -/
theorem answers_ite {p : Prop} [Decidable p] {x y : Metered ε σ α} (hx : p → x.Answers P)
    (hy : ¬p → y.Answers P) : (if p then x else y).Answers P := by
  split
  · exact hx ‹p›
  · exact hy ‹¬p›

/-- Where the work fails, nothing has been counted. -/
def Lossless (x : Metered ε σ α) : Prop := ∀ s e t, x.run s = .error e t → x.count s = 0

/-- Before work that loses nothing there may be anything that counts nothing. -/
theorem lossless_after_silent {x : EStateM ε σ α} {f : α → Metered ε σ β}
    (hf : ∀ a, (f a).Lossless) : (silent x >>= f).Lossless := by
  -- It is one of the two that fails; the first has nothing to lose
  intro s e u hrun
  cases h : x s with
  | error e' t => exact count_seq_of_error (x := silent x) h
  | ok a t =>
    have hrest : (f a).run t = .error e u := (bind_of_ok (x := x) h).symm.trans hrun
    rw [count_seq_of_ok (x := silent x) h, hf a t e u hrest]
    rfl

end

/-! ## Instructions -/

/-- `Machine.retire` counts one. -/
def retire : Metered BusError Machine Bool := counting 1 Machine.retire

/-- `Machine.step` with its meter. -/
def step : Metered BusError Machine Unit := do
  let pc ← silent (Machine.withCpu (·.pc))
  let word ← silent (Machine.fetch pc)
  silent (Machine.modifyCpu (·.begin pc (word.getD 0)))
  match word with
  | some w => silent (Machine.execute ⟨w⟩ pc)
  | none => pure ()
  discard retire

/-- The meter does not change the step. -/
theorem run_step : step.run = Machine.step := by
  -- A fetch without a word goes on without executing anything
  refine bind_congr fun pc => bind_congr fun word => bind_congr fun _ => ?_
  cases word <;> rfl

/-- An interpreter step that succeeds has retired one instruction. -/
theorem answers_step : step.Answers fun _ n => n = 1 := by
  refine answers_after_silent fun pc => answers_after_silent fun word =>
    answers_after_silent fun _ => ?_
  have hretire : (discard retire : Metered BusError Machine Unit).Answers fun _ n => n = 1 := by
    refine Answers.bind (P := fun _ n => n = 1) (answers_counting fun _ => rfl) ?_
    rintro onPath _ rfl
    exact answers_pure rfl
  cases word with
  | some w => exact answers_after_silent fun _ => hretire
  | none => exact hretire

/-- An instruction that the interpreter fails in is not retired. -/
theorem lossless_step : step.Lossless := by
  refine lossless_after_silent fun pc => lossless_after_silent fun word =>
    lossless_after_silent fun _ => ?_
  -- Retiring does not fail
  have hretire : (discard retire : Metered BusError Machine Unit).Lossless := by
    intro m e m' hrun
    exact nomatch hrun
  cases word with
  | some w => exact lossless_after_silent fun _ => hretire
  | none => exact hretire

/-- `Block.runInstruction` with its meter. -/
def runInstruction (b : Block) (d : DecodedWord) (pc : UInt64) :
    Metered BusError Machine (Bool × List ByteRange) := do
  silent (Machine.modifyCpu (·.begin pc d.word))
  silent (Machine.runOp d.op pc)
  let writes ← silent (Machine.onBus fun bus =>
    let (writes, bus) := bus.takeWrites
    .ok writes bus)
  let onPath ← retire
  return (onPath && !writes.any b.overlaps, writes)

/-- So has an instruction of a block, whether or not it stays on the path. -/
theorem answers_runInstruction (b : Block) (d : DecodedWord) (pc : UInt64) :
    (runInstruction b d pc).Answers fun _ n => n = 1 := by
  refine answers_after_silent fun _ => answers_after_silent fun _ =>
    answers_after_silent fun _ => ?_
  refine Answers.bind (P := fun _ n => n = 1) (answers_counting fun _ => rfl) ?_
  rintro onPath _ rfl
  exact answers_pure rfl

/-- `Block.runFrom` with its meter. -/
def runFrom (b : Block) (pc : UInt64) (retired : Nat) (writes : List ByteRange) :
    List DecodedWord → Metered BusError Machine BlockRun
  | [] => return ⟨b.finalExit retired, writes⟩
  | d :: rest => do
    let (intact, more) ← runInstruction b d pc
    let writes := writes ++ more
    let retired := retired + 1
    if !intact then return ⟨.redirected retired, writes⟩
    if rest.isEmpty then return ⟨b.finalExit retired, writes⟩
    if (← silent (Machine.withCpu (·.pc))) ≠ pc + 4 then return ⟨.redirected retired, writes⟩
    runFrom b (pc + 4) retired writes rest

/-- The meter does not change the run of a block from any point on. -/
theorem run_runFrom (b : Block) (pc : UInt64) (retired : Nat) (writes : List ByteRange)
    (code : List DecodedWord) :
    (runFrom b pc retired writes code).run = b.runFrom pc retired writes code := by
  induction code generalizing pc retired writes with
  | nil => rfl
  | cons d rest ih =>
    -- The three ways out of the block are tried in the same order
    refine bind_congr fun (intact, more) => ?_
    refine (run_ite _ _ _).trans (congrArg (ite _ _) ?_)
    refine (run_ite _ _ _).trans (congrArg (ite _ _) ?_)
    refine bind_congr fun pc' => ?_
    refine (run_ite _ _ _).trans (congrArg (ite _ _) ?_)
    exact ih _ _ _

/-- The exit of a block counts the instructions retired before this point and those from it on. -/
theorem answers_runFrom (b : Block) (pc : UInt64) (retired : Nat) (writes : List ByteRange)
    (code : List DecodedWord) :
    (runFrom b pc retired writes code).Answers fun run n => run.exit.retired = retired + n := by
  induction code generalizing pc retired writes with
  | nil => exact answers_pure (Block.retired_finalExit b retired)
  | cons d rest ih =>
    refine Answers.bind (answers_runInstruction b d pc) ?_
    -- Each of the three ways out, and then the rest of the block
    rintro ⟨intact, more⟩ _ rfl
    refine answers_ite (fun _ => answers_pure rfl) fun _ => ?_
    refine answers_ite (fun _ => answers_pure (Block.retired_finalExit b _)) fun _ => ?_
    refine answers_after_silent fun pc' => ?_
    refine answers_ite (fun _ => answers_pure rfl) fun _ => ?_
    refine (ih (pc + 4) (retired + 1) (writes ++ more)).mono ?_
    intro run n h
    omega

/-- `Block.run` with its meter. -/
def runCode (b : Block) : Metered BusError Machine BlockRun := do
  runFrom b (← silent (Machine.withCpu (·.pc))) 0 [] b.code

/-- The meter does not change the run of a block. -/
theorem run_runCode (b : Block) : (runCode b).run = b.run :=
  bind_congr fun pc => run_runFrom b pc 0 [] b.code

/-- The exit of a block counts all that it has retired. -/
theorem answers_runCode (b : Block) : (runCode b).Answers fun run n => run.exit.retired = n := by
  refine answers_after_silent fun pc => (answers_runFrom b pc 0 [] b.code).mono ?_
  intro run n h
  omega

/-! ## The engines -/

/-- `Recompiler.onMachine` keeps the meter. -/
def onMachine {α : Type} (x : Metered BusError Machine α) : Metered BusError RunState α where
  run := Recompiler.onMachine x.run
  count s := x.count s.2

/-- What the machine's work answers stays true beside the recompiler. -/
theorem Answers.onMachine {α : Type} {x : Metered BusError Machine α} {P : α → Nat → Prop}
    (h : x.Answers P) : (onMachine x).Answers P := by
  rintro ⟨r, m⟩ a t hrun
  simp only [Metered.onMachine, Recompiler.onMachine] at hrun
  cases hx : x.run m with
  | ok b m' =>
    rw [hx] at hrun
    cases hrun
    exact h m a m' hx
  | error e m' =>
    rw [hx] at hrun
    cases hrun

/-- `Recompiler.interpretOne` with its meter. -/
def interpretOne (reason : Fallback) : Metered BusError RunState Nat := do
  onMachine step
  silent (Recompiler.change (·.noteFallback reason))
  return 1

/-- The meter does not change a single step of the recompiler. -/
theorem run_interpretOne (reason : Fallback) :
    (interpretOne reason).run = Recompiler.interpretOne reason := by
  show (Recompiler.onMachine step.run >>= _) = _
  rw [run_step]
  rfl

/-- A single step answers one and counts one. -/
theorem answers_interpretOne (reason : Fallback) :
    (interpretOne reason).Answers fun answer n => answer = n := by
  refine Answers.bind answers_step.onMachine ?_
  rintro _ _ rfl
  exact answers_after_silent fun _ => answers_pure rfl

/-- `Recompiler.runBlock` with its meter. -/
def runBlock (b : Block) : Metered BusError RunState BlockExit := do
  let run ← onMachine (runCode b)
  silent (Recompiler.change (·.noteRun run))
  return run.exit

/-- The meter does not change what a block does in the recompiler. -/
theorem run_runBlock (b : Block) : (runBlock b).run = Recompiler.runBlock b := by
  show (Recompiler.onMachine (runCode b).run >>= _) = _
  rw [run_runCode]
  rfl

/-- The block's exit answers what has been counted. -/
theorem answers_runBlock (b : Block) :
    (runBlock b).Answers fun exit n => exit.retired = n := by
  refine Answers.bind (answers_runCode b).onMachine ?_
  rintro run n rfl
  exact answers_after_silent fun _ => answers_pure rfl

/-- `Recompiler.runChain` with its meter. -/
def runChain (budget : Nat) (b : Block) (total : Nat) :
    (links : Nat) → Metered BusError RunState Nat
  | 0 => return total + (← runBlock b).retired
  | links + 1 => do
    let exit ← runBlock b
    let total := total + exit.retired
    match exit with
    | .redirected _ => return total
    | _ =>
      if budget ≤ total then return total
      match ← silent Recompiler.nextBlock with
      | none => return total
      | some next =>
        silent (Recompiler.change fun r => { r with statistics := r.statistics.noteChained })
        runChain budget next total links

/-- The meter does not change a chain of blocks. -/
theorem run_runChain (budget : Nat) (b : Block) (total links : Nat) :
    (runChain budget b total links).run = Recompiler.runChain budget b total links := by
  -- Induction on the links that are left
  induction links generalizing b total with
  | zero =>
    show ((runBlock b).run >>= _) = _
    rw [run_runBlock]
    rfl
  | succ links ih =>
    show ((runBlock b).run >>= _) = _
    rw [run_runBlock]
    -- A block that has left its path ends the chain; the other exits go on alike
    refine bind_congr fun exit => ?_
    cases exit with
    | redirected n => rfl
    | completed n | jumped n =>
      refine (run_ite _ _ _).trans (congrArg (ite _ _) ?_)
      refine bind_congr fun next => ?_
      cases next with
      | none => rfl
      | some next => exact bind_congr fun _ => ih next _

/-- A chain adds what it retires to the total that it starts from. -/
theorem answers_runChain (budget : Nat) (b : Block) (total links : Nat) :
    (runChain budget b total links).Answers fun answer n => answer = total + n := by
  induction links generalizing b total with
  | zero =>
    refine Answers.bind (answers_runBlock b) ?_
    rintro exit n rfl
    exact answers_pure rfl
  | succ links ih =>
    refine Answers.bind (answers_runBlock b) ?_
    rintro exit n rfl
    -- Left early, out of budget, without a next block, or on to the next one
    cases exit with
    | redirected n => exact answers_pure rfl
    | completed n | jumped n =>
      refine answers_ite (fun _ => answers_pure rfl) fun _ => ?_
      refine answers_after_silent fun next => ?_
      cases next with
      | none => exact answers_pure rfl
      | some next =>
        refine answers_after_silent fun _ => (ih next _).mono ?_
        intro answer k h
        omega

/-- `Recompiler.runCached` with its meter. -/
def runCached (budget : Nat) (start : UInt32) : Metered BusError RunState Nat := do
  match ← silent (Recompiler.asks (·.cache.lookup start)) with
  | none => interpretOne .noBlock
  | some b =>
    let retired ← runChain budget b 0 (← silent (Recompiler.asks (·.chainLimit)))
    if retired = 0 then interpretOne .noBlock else return retired

/-- The meter does not change a run from the cache. -/
theorem run_runCached (budget : Nat) (start : UInt32) :
    (runCached budget start).run = Recompiler.runCached budget start := by
  refine bind_congr fun found => ?_
  cases found with
  | none => exact run_interpretOne .noBlock
  | some b =>
    refine bind_congr fun limit => ?_
    rw [run_bind, run_runChain]
    refine bind_congr fun retired => ?_
    rw [run_ite, run_interpretOne, run_pure]

/-- A run from the cache answers what it counts, also where it falls back on the interpreter. -/
theorem answers_runCached (budget : Nat) (start : UInt32) :
    (runCached budget start).Answers fun answer n => answer = n := by
  refine answers_after_silent fun found => ?_
  cases found with
  | none => exact answers_interpretOne .noBlock
  | some b =>
    refine answers_after_silent fun limit => Answers.bind (answers_runChain budget b 0 limit) ?_
    rintro retired n rfl
    -- A chain that has retired nothing is followed by one step
    refine answers_ite (fun hnone => ?_) fun _ => answers_pure (by omega)
    refine (answers_interpretOne .noBlock).mono ?_
    intro answer k h
    omega

/-- `Recompiler.executeWithin` with its meter. -/
def runWithin (budget : Nat) : Metered BusError RunState Nat := do
  match ← silent Recompiler.prepare with
  | .error reason => interpretOne reason
  | .ok start => runCached budget start

/-- The meter does not change a call of the recompiler. -/
theorem run_runWithin (budget : Nat) :
    (runWithin budget).run = Recompiler.executeWithin budget := by
  rw [Recompiler.executeWithin_eq]
  refine bind_congr fun entry => ?_
  cases entry with
  | error reason => exact run_interpretOne reason
  | ok start => exact run_runCached budget start

/-- A call of the recompiler that succeeds answers what it has retired. -/
theorem answers_runWithin (budget : Nat) :
    (runWithin budget).Answers fun answer n => answer = n := by
  refine answers_after_silent fun entry => ?_
  cases entry with
  | error reason => exact answers_interpretOne reason
  | ok start => exact answers_runCached budget start

/-- A call whose first block faults counts what was retired of it. -/
theorem count_runWithin_of_fault {r : Recompiler} {m m' : Machine} {b : Block} {e : BusError}
    (hvisit : Recompiler.FirstVisit r m b) (hfault : b.run m = .error e m') (budget : Nat) :
    (runWithin budget).count (r, m) = (runCode b).count m := by
  have hcode : (onMachine (runCode b)).run (r.withBlock b, m) = .error e (r.withBlock b, m') := by
    simp only [onMachine, run_runCode, Recompiler.onMachine, hfault]
  have hblock : (runBlock b).run (r.withBlock b, m) = .error e (r.withBlock b, m') :=
    bind_of_error hcode
  -- The chain ends with its first block
  have hchain : ∀ links, (runChain budget b 0 links).run (r.withBlock b, m) =
        .error e (r.withBlock b, m') ∧
      (runChain budget b 0 links).count (r.withBlock b, m) = (runCode b).count m := by
    intro links
    cases links <;>
      exact ⟨bind_of_error hblock,
        (count_seq_of_error hblock).trans (count_seq_of_error hcode)⟩
  have hlookup : (silent (Recompiler.asks (·.cache.lookup b.start))).run (r.withBlock b, m) =
      .ok (some b) (r.withBlock b, m) := by
    show EStateM.Result.ok ((r.withBlock b).cache.lookup b.start) _ = _
    rw [Recompiler.lookup_withBlock, if_pos rfl]
  have hlimit : (silent (Recompiler.asks (·.chainLimit))).run (r.withBlock b, m) =
      .ok (r.withBlock b).chainLimit (r.withBlock b, m) := rfl
  have hprepare : (silent Recompiler.prepare).run (r, m) = .ok (.ok b.start) (r.withBlock b, m) :=
    hvisit.prepare
  -- Up to the chain nothing is counted
  rw [runWithin, count_seq_of_ok hprepare]
  dsimp only
  rw [runCached, count_seq_of_ok hlookup]
  dsimp only
  rw [count_seq_of_ok hlimit, count_seq_of_error (hchain _).1, (hchain _).2]
  simp only [silent, Nat.zero_add]

/-- `Session.executeWithin` with its meter. -/
def executeWithin (budget : Nat) : Metered BusError Session Nat where
  run := fun ⟨engine, machine⟩ =>
    match engine with
    | .interpreter =>
      match step.run machine with
      | .ok _ machine => .ok 1 ⟨.interpreter, machine⟩
      | .error e machine => .error e ⟨.interpreter, machine⟩
    | .recompiler r =>
      match (runWithin budget).run (r, machine) with
      | .ok retired (r, machine) => .ok retired ⟨.recompiler r, machine⟩
      | .error e (r, machine) => .error e ⟨.recompiler r, machine⟩
  count := fun ⟨engine, machine⟩ =>
    match engine with
    | .interpreter => step.count machine
    | .recompiler r => (runWithin budget).count (r, machine)

/-- The meter does not change a call of an engine. -/
theorem run_executeWithin (budget : Nat) :
    (executeWithin budget).run = Session.executeWithin budget := by
  funext ⟨engine, machine⟩
  cases engine with
  | interpreter =>
    simp only [executeWithin, run_step]
    rfl
  | recompiler r =>
    simp only [executeWithin, run_runWithin]
    rfl

/-- An engine that succeeds answers what it has retired. -/
theorem answers_executeWithin (budget : Nat) :
    (executeWithin budget).Answers fun answer n => answer = n := by
  rintro ⟨engine, machine⟩ answer t hrun
  cases engine with
  | interpreter =>
    simp only [executeWithin] at hrun ⊢
    cases h : step.run machine with
    | ok _ machine' =>
      rw [h] at hrun
      cases hrun
      exact (answers_step machine _ machine' h).symm
    | error e machine' =>
      rw [h] at hrun
      -- Only calls that succeed are asked about
      exact nomatch hrun
  | recompiler r =>
    simp only [executeWithin] at hrun ⊢
    cases h : (runWithin budget).run (r, machine) with
    | ok n s =>
      rw [h] at hrun
      cases hrun
      exact answers_runWithin budget _ _ s h
    | error e s =>
      rw [h] at hrun
      exact nomatch hrun

/-- The interpreter loses nothing when it fails, and it stays what it is. -/
theorem executeWithin_interpreter {budget : Nat} {m : Machine} :
    (∀ e s, Session.executeWithin budget ⟨.interpreter, m⟩ = .error e s →
      (executeWithin budget).count ⟨.interpreter, m⟩ = 0 ∧ s.engine = .interpreter) ∧
    ∀ n s, Session.executeWithin budget ⟨.interpreter, m⟩ = .ok n s → s.engine = .interpreter := by
  simp only [Session.executeWithin]
  -- The interpreter fails before it retires, and stays the engine either way
  cases h : Machine.step m with
  | ok _ m' =>
    refine ⟨fun e s hrun => (nomatch hrun), fun n s hrun => ?_⟩
    cases hrun
    rfl
  | error e' m' =>
    refine ⟨fun e s hrun => ?_, fun n s hrun => (nomatch hrun)⟩
    cases hrun
    rw [← run_step] at h
    exact ⟨lossless_step m e' m' h, rfl⟩

end Metered

end Console64
