import Console64.Proofs.BlockRun
import Console64.Proofs.CompiledBlock
import Console64.Proofs.PageTranslation

/-!
# The blocks that a call runs

A call of the recompiler first prepares: it applies the recorded writes, and settles
whether a block can be entered or the instruction is left to the interpreter.  Then it
runs a chain of blocks.  `Recompiler.blockRuns` lists the blocks of that chain with the
state that each is entered in, `Recompiler.delivered` the ranges that the call applies to
the cache, and `Recompiler.dropped` those that it has taken out of the log and not applied.

## Key results

- `Recompiler.executeWithin_eq`: a call prepares, then runs or interprets
- `Recompiler.prepare_run`: what preparing can lead to
- `Recompiler.Accounting.executeWithin`: what the parts of a call preserve, the call does
- `Recompiler.accounting_of_ledger`: what is known of the ranges taken is preserved so
-/

namespace Console64

/-- The recompiler with its machine. -/
abbrev RunState := Recompiler × Machine

namespace Recompiler

/-! ## Preparing -/

/-- Apply what has been written, and see whether a block can be entered: its start, or why
one instruction has to be interpreted. -/
def prepare : RecompilerM (Except Fallback UInt32) := do
  applyWrites
  match ← onMachine (Machine.withCpu entryPoint) with
  | none => return .error .guarded
  | some start =>
    if (← asks (·.cache.lookup start)).isSome then return .ok start
    else if ← asks (·.cache.isFailed start) then return .error .failedCache
    else if !(← update (·.visit start)) then return .error .cold
    else
      match ← ensureBlock start with
      | .compileFailed => return .error .noBlock
      | .cacheHit => return .ok start
      | .compiled =>
        change (·.forgetVisits start)
        return .ok start

/-- A call prepares, and then runs a chain of blocks or interprets one instruction. -/
theorem executeWithin_eq (budget : Nat) :
    executeWithin budget = prepare >>= fun entry =>
      match entry with
      | .error reason => interpretOne reason
      | .ok start => runCached budget start := by
  -- The same steps in one order; what follows them is attached at another place
  simp only [executeWithin, prepare, bind_assoc]
  congr 1
  funext _
  congr 1
  funext start?
  cases start? with
  | none => rfl
  | some start =>
    simp only [bind_assoc]
    congr 1
    funext block
    split
    · rfl
    · simp only [bind_assoc]
      congr 1
      funext failed
      split
      · rfl
      · simp only [bind_assoc]
        congr 1
        funext hot
        split
        · rfl
        · simp only [bind_assoc]
          congr 1
          funext result
          cases result <;> rfl

/-- Work on the machine leaves the recompiler as it was, whether it succeeds or fails. -/
theorem onMachine_of_ok {α : Type} {x : MachineM α} {r : Recompiler} {m m' : Machine}
    {a : α} (h : x m = .ok a m') : onMachine x (r, m) = .ok a (r, m') := by
  simp only [onMachine, h]

/-- Here it has failed. -/
theorem onMachine_of_error {α : Type} {x : MachineM α} {r : Recompiler} {m m' : Machine}
    {e : BusError} (h : x m = .error e m') : onMachine x (r, m) = .error e (r, m') := by
  simp only [onMachine, h]

/-- The recompiler after it has applied what the bus has recorded. -/
def applied (r : Recompiler) (m : Machine) : Recompiler := r.invalidateAll m.bus.takeWrites.1

/-- The machine after its log has been taken. -/
def drained (m : Machine) : Machine := { m with bus := m.bus.takeWrites.2 }

/-- What preparing can lead to. -/
inductive Prepared (r : Recompiler) (m : Machine) : Except Fallback UInt32 → RunState → Prop
  /-- The instruction is left to the interpreter. -/
  | interpret (reason : Fallback) (r₁ : Recompiler) (hcache : r₁.cache = (applied r m).cache) :
    Prepared r m (.error reason) (r₁, drained m)
  /-- There is a block. -/
  | cached {start : UInt32} {b : Block} (hentry : entryPoint m.cpu = some start)
    (hlookup : (applied r m).cache.lookup start = some b) :
    Prepared r m (.ok start) (applied r m, drained m)
  /-- No block can be compiled. -/
  | failed {start : UInt32} {e : CompileError} {r₁ : Recompiler} {m₁ : Machine}
    (hentry : entryPoint m.cpu = some start)
    (hcompile : Block.compile readCode ⟨start, m.cpu.pc, (applied r m).cache.maxInstructions⟩
      (drained m) = .ok (.error e) m₁)
    (hlookup : ∀ k, r₁.cache.lookup k = (applied r m).cache.lookup k) :
    Prepared r m (.error .noBlock) (r₁, m₁)
  /-- A block has been compiled. -/
  | compiled {start : UInt32} {b : Block} {r₁ : Recompiler} {m₁ : Machine}
    (hentry : entryPoint m.cpu = some start)
    (hmissing : (applied r m).cache.lookup start = none)
    (hcompile : Block.compile readCode ⟨start, m.cpu.pc, (applied r m).cache.maxInstructions⟩
      (drained m) = .ok (.ok b) m₁)
    (hcache : r₁.cache = ((applied r m).cache.record start (.ok b)).2) :
    Prepared r m (.ok start) (r₁, m₁)

/-- Asking for a block that is neither there nor known to fail compiles it. -/
theorem ensureBlock_run {r : Recompiler} {m m₁ : Machine} {start : UInt32}
    {result : Except CompileError Block} (hlookup : r.cache.lookup start = none)
    (hfailed : r.cache.isFailed start = false)
    (hcompile : Block.compile readCode ⟨start, m.cpu.pc, r.cache.maxInstructions⟩ m =
      .ok result m₁) :
    ensureBlock start (r, m) =
      .ok (r.cache.record start result).1
        ({ r with cache := (r.cache.record start result).2 }, m₁) := by
  -- With neither a block nor a failure on record the request goes to the compiler
  have hensure : r.cache.ensure start m.cpu.pc readCode m =
      .ok (r.cache.record start result) m₁ := by
    simp only [BlockCache.ensure, hlookup, hfailed, Option.isSome_none, Bool.false_eq_true,
      ↓reduceIte]
    exact bind_of_ok hcompile
  have hentry : onMachine (Machine.withCpu (·.pc)) (r, m) = .ok m.cpu.pc (r, m) := rfl
  have hcache : asks (·.cache) (r, m) = .ok r.cache (r, m) := rfl
  rw [ensureBlock, bind_of_ok hentry, bind_of_ok hcache,
    bind_of_ok (onMachine_of_ok hensure)]
  rfl

/-- Preparing always succeeds. -/
theorem prepare_run (r : Recompiler) (m : Machine) :
    ∃ result s, prepare (r, m) = .ok result s ∧ Prepared r m result s := by
  have happly : applyWrites (r, m) = .ok () (applied r m, drained m) := rfl
  have hcpu : onMachine (Machine.withCpu entryPoint) (applied r m, drained m) =
      .ok (entryPoint m.cpu) (applied r m, drained m) := rfl
  rw [prepare, bind_of_ok happly, bind_of_ok hcpu]
  -- Each answer of the machine, the cache and the counters is one way of `Prepared`
  cases hentry : entryPoint m.cpu with
  | none => exact ⟨_, _, rfl, .interpret .guarded _ rfl⟩
  | some start =>
    have hask : asks (·.cache.lookup start) (applied r m, drained m) =
        .ok ((applied r m).cache.lookup start) (applied r m, drained m) := rfl
    dsimp only
    rw [bind_of_ok hask]
    cases hlookup : (applied r m).cache.lookup start with
    | some b => exact ⟨_, _, rfl, .cached hentry hlookup⟩
    | none =>
      have hasked : asks (·.cache.isFailed start) (applied r m, drained m) =
          .ok ((applied r m).cache.isFailed start) (applied r m, drained m) := rfl
      rw [Option.isSome_none, if_neg Bool.false_ne_true, bind_of_ok hasked]
      cases hfailed : (applied r m).cache.isFailed start with
      | true => exact ⟨_, _, rfl, .interpret .failedCache _ rfl⟩
      | false =>
        have hvisit : update (·.visit start) (applied r m, drained m) =
            .ok ((applied r m).visit start).1 (((applied r m).visit start).2, drained m) := rfl
        rw [if_neg Bool.false_ne_true, bind_of_ok hvisit]
        cases ((applied r m).visit start).1 with
        | false => exact ⟨_, _, rfl, .interpret .cold _ rfl⟩
        | true =>
          obtain ⟨result, m₁, hcompile, -⟩ := Machine.Peeks.compile
            ⟨start, m.cpu.pc, (applied r m).cache.maxInstructions⟩ (drained m)
          have hensure := ensureBlock_run (r := ((applied r m).visit start).2) hlookup hfailed
            hcompile
          rw [Bool.not_true, if_neg Bool.false_ne_true, bind_of_ok hensure]
          cases result with
          | error e => exact ⟨_, _, rfl, .failed hentry hcompile fun k => rfl⟩
          | ok b => exact ⟨_, _, rfl, .compiled hentry hlookup hcompile rfl⟩

/-- Apart from taking the log, preparing changes no more than devices other than memory. -/
theorem Prepared.peeks {r : Recompiler} {m : Machine} {result : Except Fallback UInt32}
    {s : RunState} (h : Prepared r m result s) :
    s.2.cpu = m.cpu ∧ Bus.loadFrame.change (drained m).bus s.2.bus := by
  have hcompile : ∀ {start : UInt32} {compiled : Except CompileError Block} {m₁ : Machine},
      Block.compile readCode ⟨start, m.cpu.pc, (applied r m).cache.maxInstructions⟩ (drained m) =
        .ok compiled m₁ → m₁.cpu = m.cpu ∧ Bus.loadFrame.change (drained m).bus m₁.bus := by
    intro start compiled m₁ hrun
    obtain ⟨_, _, hrun', hcpu, hbus⟩ := Machine.Peeks.compile
      ⟨start, m.cpu.pc, (applied r m).cache.maxInstructions⟩ (drained m)
    rw [hrun] at hrun'
    cases hrun'
    exact ⟨hcpu, hbus⟩
  -- Only compiling may touch a device
  cases h with
  | interpret => exact ⟨rfl, Bus.loadFrame.change_refl _⟩
  | cached => exact ⟨rfl, Bus.loadFrame.change_refl _⟩
  | failed _ hrun => exact hcompile hrun
  | compiled _ _ hrun => exact hcompile hrun

/-- Where a block may be entered, the fetch succeeds at an aligned address. -/
theorem entryPoint_eq_some {c : Cpu} {start : UInt32} (h : entryPoint c = some start) :
    c.branchPending = false ∧ c.pc.toNat % 4 = 0 ∧ c.resolve c.pc .fetch = .ok start ∧
      start.toNat % 4 = 0 := by
  simp only [entryPoint] at h
  split at h
  case isTrue => cases h
  case isFalse hopen =>
    simp only [ne_eq, Bool.or_eq_true, decide_eq_true_eq, not_or, Bool.not_eq_true,
      Decidable.not_not] at hopen
    -- The two low bits of the program counter are clear
    have halign : c.pc.toNat % 4 = 0 := by
      have hbits : (c.pc &&& 3).toNat = c.pc.toNat % 2 ^ 2 := by
        rw [UInt64.toNat_and, show (3 : UInt64).toNat = 2 ^ 2 - 1 from rfl,
          Nat.and_two_pow_sub_one_eq_mod]
      rw [hopen.2] at hbits
      exact hbits.symm
    split at h
    case h_1 physical hresolve =>
      cases h
      have hoffset := Cpu.resolve_offset hresolve
      exact ⟨hopen.1, halign, hresolve, by omega⟩
    case h_2 => cases h

/-! ## Chains -/

/-- A run of a block that succeeds is counted and its writes are applied; one that fails
leaves the recompiler as it was. -/
theorem runBlock_run (b : Block) (r : Recompiler) (m : Machine) :
    runBlock b (r, m) =
      match b.run m with
      | .ok run m' => .ok run.exit (r.noteRun run, m')
      | .error e m' => .error e (r, m') := by
  cases h : b.run m with
  | ok run m' =>
    rw [runBlock, bind_of_ok (onMachine_of_ok h)]
    rfl
  | error e m' => exact bind_of_error (onMachine_of_error h)

/-- The block that a chain goes on with, after `total` instructions. -/
def following (budget total : Nat) (exit : BlockExit) (s : RunState) : Option Block :=
  match exit with
  | .redirected _ => none
  | _ => if budget ≤ total then none else (entryPoint s.2.cpu).bind s.1.cache.lookup

/-- One more block has been chained. -/
def chained (s : RunState) : RunState :=
  ({ s.1 with statistics := s.1.statistics.noteChained }, s.2)

/-- A chain runs a block, and then goes on or not. -/
theorem runChain_succ (budget : Nat) (b : Block) (total links : Nat) (s : RunState) :
    runChain budget b total (links + 1) s =
      match runBlock b s with
      | .error e s' => .error e s'
      | .ok exit s' =>
        match following budget (total + exit.retired) exit s' with
        | none => .ok (total + exit.retired) s'
        | some next => runChain budget next (total + exit.retired) links (chained s') := by
  rw [runChain]
  cases h : runBlock b s with
  | error e s' => exact bind_of_error h
  | ok exit s' =>
    rw [bind_of_ok h]
    -- What a chain does after every exit but the one that leaves its path
    have hgo : (do
        if budget ≤ total + exit.retired then return total + exit.retired
        match ← nextBlock with
        | none => return total + exit.retired
        | some next =>
          change fun r => { r with statistics := r.statistics.noteChained }
          runChain budget next (total + exit.retired) links : RecompilerM Nat) s' =
        match if budget ≤ total + exit.retired then none
          else (entryPoint s'.2.cpu).bind s'.1.cache.lookup with
        | none => .ok (total + exit.retired) s'
        | some next => runChain budget next (total + exit.retired) links (chained s') := by
      split
      · rfl
      · have hnext : nextBlock s' = .ok ((entryPoint s'.2.cpu).bind s'.1.cache.lookup) s' := by
          have hcpu : onMachine (Machine.withCpu entryPoint) s' =
            .ok (entryPoint s'.2.cpu) s' := rfl
          rw [nextBlock, bind_of_ok hcpu]
          cases entryPoint s'.2.cpu <;> rfl
        rw [bind_of_ok hnext]
        cases (entryPoint s'.2.cpu).bind s'.1.cache.lookup <;> rfl
    cases exit with
    | redirected n => rfl
    | completed n => exact hgo
    | jumped n => exact hgo

/-- The blocks of a chain, each with the state that it is entered in. -/
def chainRuns (budget : Nat) (b : Block) (total : Nat) : (links : Nat) → RunState →
    List (Block × RunState)
  | 0, s => [(b, s)]
  | links + 1, s =>
    (b, s) ::
      match runBlock b s with
      | .error _ _ => []
      | .ok exit s' =>
        match following budget (total + exit.retired) exit s' with
        | none => []
        | some next => chainRuns budget next (total + exit.retired) links (chained s')

/-- What a block of a chain hands over to be applied. -/
def handedOver (entry : Block × RunState) : List ByteRange :=
  match entry.1.run entry.2.2 with
  | .ok run _ => run.writes
  | .error _ _ => []

/-- What a block of a chain has taken out of the log, if its run failed: it is applied
nowhere. -/
def lost (entry : Block × RunState) : List ByteRange :=
  match entry.1.run entry.2.2 with
  | .ok _ _ => []
  | .error _ _ => entry.1.collected entry.2.2

/-- A block that succeeds loses nothing. -/
theorem lost_of_ok {b : Block} {s s' : RunState} {exit : BlockExit}
    (h : runBlock b s = .ok exit s') : lost (b, s) = [] := by
  obtain ⟨r, m⟩ := s
  rw [runBlock_run] at h
  simp only [lost]
  cases hrun : b.run m with
  | ok run m' => rfl
  | error e m' =>
    simp only [hrun] at h
    exact nomatch h

/-- A block that fails leaves the recompiler as it was. -/
theorem runBlock_error {b : Block} {s s' : RunState} {e : BusError}
    (h : runBlock b s = .error e s') : s'.1 = s.1 ∧ b.run s.2 = .error e s'.2 := by
  obtain ⟨r, m⟩ := s
  rw [runBlock_run] at h
  cases hrun : b.run m with
  | ok run m' =>
    simp only [hrun] at h
    exact nomatch h
  | error e' m' =>
    simp only [hrun, EStateM.Result.error.injEq] at h
    obtain ⟨rfl, rfl⟩ := h
    exact ⟨rfl, rfl⟩

/-! ## Calls -/

/-- The blocks that a call runs, each with the state that it is entered in. -/
def blockRuns (budget : Nat) (s : RunState) : List (Block × RunState) :=
  match prepare s with
  | .ok (.ok start) s₁ =>
    match s₁.1.cache.lookup start with
    | some b => chainRuns budget b 0 s₁.1.chainLimit s₁
    | none => []
  | _ => []

/-- What a call applies to the cache. -/
def delivered (budget : Nat) (s : RunState) : List ByteRange :=
  s.2.bus.takeWrites.1 ++ (blockRuns budget s).flatMap handedOver

/-- What a call has taken out of the log and not applied. -/
def dropped (budget : Nat) (s : RunState) : List ByteRange := (blockRuns budget s).flatMap lost

/-- An interpreted instruction is a step of the machine, which is counted. -/
theorem interpretOne_run (reason : Fallback) (s : RunState) :
    interpretOne reason s =
      match Machine.step s.2 with
      | .ok _ m' => .ok 1 (s.1.noteFallback reason, m')
      | .error e m' => .error e (s.1, m') := by
  obtain ⟨r, m⟩ := s
  cases h : Machine.step m with
  | ok u m' =>
    rw [interpretOne, bind_of_ok (onMachine_of_ok h)]
    rfl
  | error e m' => exact bind_of_error (onMachine_of_error h)

/-! ## Accounting -/

/-- What holds of the ranges applied, of those lost and of the state, and still does
whatever a call does after preparing. -/
structure Running (holds : List ByteRange → List ByteRange → RunState → Prop) : Prop where
  interpret : ∀ {done missed s} (reason : Fallback), holds done missed s →
    holds done missed (stateOf (interpretOne reason s))
  block : ∀ {done missed s} (b : Block), holds done missed s →
    holds (done ++ handedOver (b, s)) (missed ++ lost (b, s)) (stateOf (runBlock b s))
  chain : ∀ {done missed s}, holds done missed s → holds done missed (chained s)

/-- It still does after preparing, too. -/
structure Accounting (holds : List ByteRange → List ByteRange → RunState → Prop) : Prop
    extends Running holds where
  prepare : ∀ {done missed s}, holds done missed s →
    holds (done ++ s.2.bus.takeWrites.1) missed (stateOf (prepare s))

namespace Running

variable {holds : List ByteRange → List ByteRange → RunState → Prop} (hacc : Running holds)
  {done missed : List ByteRange}
include hacc

/-- It holds after a chain, and wherever a block of the chain is entered. -/
private theorem runChain (budget total links : Nat) (b : Block) {s : RunState}
    (h : holds done missed s) :
    holds (done ++ (chainRuns budget b total links s).flatMap handedOver)
      (missed ++ (chainRuns budget b total links s).flatMap lost)
      (stateOf (Recompiler.runChain budget b total links s)) ∧
    ∀ entry ∈ chainRuns budget b total links s, ∃ done', holds done' missed entry.2 := by
  have hblock := hacc.block b h
  -- Induction on the links left; a block that another one follows has lost nothing
  induction links generalizing b total s done with
  | zero =>
    simp only [chainRuns, List.flatMap_cons, List.flatMap_nil, List.append_nil, List.mem_singleton,
      forall_eq]
    refine ⟨?_, done, h⟩
    rw [Recompiler.runChain]
    cases hrun : runBlock b s with
    | error e s' =>
      rw [hrun] at hblock
      rw [bind_of_error hrun]
      exact hblock
    | ok exit s' =>
      rw [hrun] at hblock
      rw [bind_of_ok hrun]
      exact hblock
  | succ links ih =>
    rw [runChain_succ, chainRuns]
    cases hrun : runBlock b s with
    | error e s' =>
      rw [hrun] at hblock
      simp only [List.flatMap_cons, List.flatMap_nil, List.append_nil, List.mem_singleton,
        forall_eq]
      exact ⟨hblock, done, h⟩
    | ok exit s' =>
      rw [hrun] at hblock
      have hlost := lost_of_ok hrun
      dsimp only
      cases hnext : following budget (total + exit.retired) exit s' with
      | none =>
        simp only [List.flatMap_cons, List.flatMap_nil, List.append_nil, List.mem_singleton,
          forall_eq]
        exact ⟨hblock, done, h⟩
      | some next =>
        rw [hlost, List.append_nil] at hblock
        have hchained := hacc.chain hblock
        obtain ⟨hafter, hentries⟩ := ih _ next hchained (hacc.block next hchained)
        simp only [List.flatMap_cons, hlost, List.nil_append, List.forall_mem_cons]
        rw [List.append_assoc] at hafter
        exact ⟨hafter, ⟨done, h⟩, hentries⟩

/-- It holds after a call, and wherever a block of the call is entered, if it does after
preparing. -/
theorem executeWithin {s s₁ : RunState} {result : Except Fallback UInt32} (budget : Nat)
    (hprepare : prepare s = .ok result s₁) (h : holds done missed s₁) :
    holds (done ++ (blockRuns budget s).flatMap handedOver) (missed ++ dropped budget s)
      (stateOf (Recompiler.executeWithin budget s)) ∧
    ∀ entry ∈ blockRuns budget s, ∃ done', holds done' missed entry.2 := by
  rw [executeWithin_eq, bind_of_ok hprepare]
  simp only [dropped, blockRuns, hprepare]
  cases result with
  | error reason =>
    simp only [List.flatMap_nil, List.append_nil]
    exact ⟨hacc.interpret reason h, fun entry hmem => nomatch hmem⟩
  | ok start =>
    have hask : asks (·.cache.lookup start) s₁ = .ok (s₁.1.cache.lookup start) s₁ := rfl
    have hlimit : asks (·.chainLimit) s₁ = .ok s₁.1.chainLimit s₁ := rfl
    dsimp only
    rw [runCached, bind_of_ok hask]
    cases s₁.1.cache.lookup start with
    | none =>
      simp only [List.flatMap_nil, List.append_nil]
      exact ⟨hacc.interpret .noBlock h, fun entry hmem => nomatch hmem⟩
    | some b =>
      obtain ⟨hafter, hentries⟩ := hacc.runChain budget 0 s₁.1.chainLimit b h
      refine ⟨?_, hentries⟩
      dsimp only
      rw [bind_of_ok hlimit]
      cases hrun : Recompiler.runChain budget b 0 s₁.1.chainLimit s₁ with
      | error e s' =>
        rw [hrun] at hafter
        rw [bind_of_error hrun]
        exact hafter
      | ok n s' =>
        rw [hrun] at hafter
        rw [bind_of_ok hrun]
        -- A chain that retires nothing is followed by one interpreted instruction
        split
        · exact hacc.interpret .noBlock hafter
        · exact hafter

end Running

/-- What holds before a call, holds after it. -/
theorem Accounting.executeWithin {holds : List ByteRange → List ByteRange → RunState → Prop}
    (hacc : Accounting holds) {done missed : List ByteRange} {s : RunState} (budget : Nat)
    (h : holds done missed s) :
    holds (done ++ delivered budget s) (missed ++ dropped budget s)
      (stateOf (Recompiler.executeWithin budget s)) := by
  obtain ⟨result, s₁, hprepare, -⟩ := prepare_run s.1 s.2
  have hprepared := hacc.prepare h
  rw [hprepare, stateOf_ok] at hprepared
  have hafter := (hacc.toRunning.executeWithin budget hprepare hprepared).1
  rw [List.append_assoc] at hafter
  exact hafter

/-- What a ledger knows of the ranges taken, in whatever order, is known along a call. -/
theorem accounting_of_ledger {known : List ByteRange → Bus → Prop} (hl : Ledger known)
    (hperm : ∀ {taken taken' bus}, (∀ w, w ∈ taken ↔ w ∈ taken') → known taken bus →
      known taken' bus) :
    Accounting fun done missed s => known (done ++ missed) s.2.bus where
  prepare := by
    intro done missed s h
    obtain ⟨result, s₁, hprepare, hprepared⟩ := prepare_run s.1 s.2
    obtain ⟨-, hbus⟩ := hprepared.peeks
    rw [hprepare]
    have htaken := hl.tracked (hl.take h) (.of_eq hbus.1 hbus.2.1 hbus.2.2)
    -- What was taken just now stands behind what was lost before
    refine hperm (fun w => ?_) htaken
    simp only [List.mem_append]
    exact or_right_comm
  interpret := by
    intro done missed s reason h
    rw [interpretOne_run]
    cases hstep : Machine.step s.2 with
    | ok u m' => exact hl.tracked h (Machine.step_respects.change_ok hstep)
    | error e m' => exact hl.tracked h (Machine.step_respects.change_error hstep)
  block := by
    intro done missed s b h
    obtain ⟨r, m⟩ := s
    have hrun := hl.run b h
    rw [runBlock_run]
    simp only [handedOver, lost]
    cases hb : b.run m with
    | ok run m' =>
      rw [hb, ← (Block.run_ok hb).1] at hrun
      refine hperm (fun w => ?_) hrun
      simp only [List.mem_append, List.append_nil]
      exact or_right_comm
    | error e m' =>
      rw [hb, List.append_assoc] at hrun
      rw [List.append_nil]
      exact hrun
  chain := fun h => h

end Recompiler

end Console64
