import Console64.Proofs.CallTrace
import Console64.Proofs.CacheCoherence
import Mathlib.Logic.Relation

/-!
# The books of the block cache

The cache holds blocks and the addresses where compiling failed, and counts what was compiled,
what failed and what was dropped.  These books balance, whatever it is asked for and from
whatever its words are read: a result of compiling is recorded once, under an address that had
none, and it stays recorded until it is counted as dropped.

## Key results

- `BlockCache.Step.change`: what an operation may change
- `BlockCache.Balanced.step`: nothing that happens to a cache puts its books out of balance
- `BlockCache.books_balance`: the balance after any sequence of operations
- `Recompiler.operates_executeWithin`: a call of the recompiler is such a sequence
-/

namespace Console64

namespace BlockCache

/-! ## What happens to a cache -/

/-- Run the block at an address, if there is one.  A run that ends in a fault is not counted. -/
def execute (c : BlockCache) (start : UInt32) (m : Machine) :
    Option (EStateM.Result BusError Machine BlockRun) × BlockCache :=
  match c.lookup start with
  | none => (none, c)
  | some b =>
    match b.run m with
    | .ok run m' => (some (.ok run m'), c.noteRun run.exit)
    | .error e m' => (some (.error e m'), c)

/-- One operation on a cache. -/
inductive Step : BlockCache → BlockCache → Prop where
  /-- A block is asked for, to be compiled from any source of words. -/
  | request {ε σ : Type} {c c' : BlockCache} {start : UInt32} {entry : UInt64}
    {source : UInt32 → EStateM ε σ (Option UInt32)} {s s' : σ} {result : EnsureResult}
    (h : c.ensure start entry source s = .ok (result, c') s') : Step c c'
  /-- A block is run. -/
  | execute (c : BlockCache) (start : UInt32) (m : Machine) : Step c (c.execute start m).2
  /-- Memory has changed. -/
  | invalidate (c : BlockCache) (r : ByteRange) : Step c (c.invalidate r)
  /-- Everything is dropped. -/
  | flush (c : BlockCache) : Step c c.flush

/-- Any number of operations. -/
abbrev Steps : BlockCache → BlockCache → Prop := Relation.ReflTransGen Step

section Request

variable {ε σ : Type} {c c' : BlockCache} {start : UInt32} {entry : UInt64}
  {source : UInt32 → EStateM ε σ (Option UInt32)} {s s' : σ} {result : EnsureResult}

/-- A request is answered from the cache, or the block is compiled and the result recorded. -/
theorem ensure_cases (h : c.ensure start entry source s = .ok (result, c') s') :
    (((c.lookup start).isSome = true ∨ c.isFailed start = true) ∧ result = .cacheHit ∧
      c' = c.noteHit (c.lookup start).isNone) ∨
    (c.lookup start = none ∧ c.isFailed start = false ∧ ∃ compiled,
      Block.compile source ⟨start, entry, c.maxInstructions⟩ s = .ok compiled s' ∧
        result = (c.record start compiled).1 ∧ c' = (c.record start compiled).2) := by
  rw [ensure] at h
  cases hlookup : c.lookup start with
  -- A block, a failure, or neither
  | some b =>
    rw [hlookup, Option.isSome_some, if_pos rfl] at h
    cases h
    exact .inl ⟨.inl rfl, rfl, rfl⟩
  | none =>
    rw [hlookup, Option.isSome_none, if_neg Bool.false_ne_true] at h
    cases hfailed : c.isFailed start with
    | true =>
      rw [hfailed, if_pos rfl] at h
      cases h
      exact .inl ⟨.inr rfl, rfl, rfl⟩
    | false =>
      rw [hfailed, if_neg Bool.false_ne_true] at h
      obtain ⟨compiled, t, hcompile, hpure⟩ := bind_eq_ok h
      obtain ⟨hrecord, rfl⟩ := EStateM.Result.ok.inj hpure
      exact .inr ⟨rfl, rfl, compiled, hcompile, (Prod.ext_iff.mp hrecord.symm)⟩

/-- A block that is not there is compiled, unless that failed before. -/
theorem ensure_of_untried {compiled : Except CompileError Block} (hmissing : c.lookup start = none)
    (huntried : c.isFailed start = false)
    (hcompile : Block.compile source ⟨start, entry, c.maxInstructions⟩ s = .ok compiled s') :
    c.ensure start entry source s = .ok (c.record start compiled) s' := by
  rw [ensure, hmissing, huntried, Option.isSome_none, if_neg Bool.false_ne_true,
    if_neg Bool.false_ne_true, bind_of_ok hcompile]
  rfl

/-- Compiling is what a request leads to exactly if there was neither a block nor a failure at
the address and there is a block afterwards. -/
theorem ensure_eq_compiled_iff (h : c.ensure start entry source s = .ok (result, c') s') :
    result = .compiled ↔
      c.lookup start = none ∧ c.isFailed start = false ∧ (c'.lookup start).isSome = true := by
  rcases ensure_cases h with ⟨hthere, rfl, -⟩ | ⟨hmissing, huntried, compiled, -, rfl, rfl⟩
  · constructor
    · exact nofun
    · rintro ⟨hmissing, huntried, -⟩
      rw [hmissing, huntried] at hthere
      rcases hthere with hblock | hfailed
      · exact nomatch hblock
      · exact nomatch hfailed
  · cases compiled with
    | ok b =>
      rw [lookup_record_ok, if_pos rfl]
      exact ⟨fun _ => ⟨hmissing, huntried, rfl⟩, fun _ => rfl⟩
    | error e =>
      constructor
      · exact nofun
      · rintro ⟨-, -, hblock⟩
        -- A failure adds no block
        replace hblock : (c.lookup start).isSome = true := hblock
        rw [hmissing] at hblock
        exact nomatch hblock

end Request

/-- What an operation may change. -/
inductive Change (c : BlockCache) : BlockCache → Prop where
  | none : Change c c
  | hit (failed : Bool) : Change c (c.noteHit failed)
  | run (exit : BlockExit) : Change c (c.noteRun exit)
  /-- A result of compiling is recorded, under an address that had none. -/
  | record {ε σ : Type} {start : UInt32} {entry : UInt64}
    {source : UInt32 → EStateM ε σ (Option UInt32)} {s s' : σ}
    {compiled : Except CompileError Block} (hmissing : c.lookup start = .none)
    (huntried : c.isFailed start = false)
    (hcompile : Block.compile source ⟨start, entry, c.maxInstructions⟩ s = .ok compiled s') :
    Change c (c.record start compiled).2
  | keep (block : Block → Bool) (failure : UInt32 → Bool) : Change c (c.keep block failure)

/-- Every operation is one of these changes. -/
theorem Step.change {c c' : BlockCache} (h : Step c c') : Change c c' := by
  cases h with
  | request hrequest =>
    rcases ensure_cases hrequest with ⟨-, -, rfl⟩ | ⟨hmissing, huntried, compiled, hcompile, -, rfl⟩
    · exact .hit _
    · exact .record hmissing huntried hcompile
  | execute start m =>
    rw [BlockCache.execute]
    split
    case h_1 => exact .none
    case h_2 b hlookup =>
      -- Only a run that ends without a fault is counted
      split
      case h_1 run m' hrun => exact .run run.exit
      case h_2 => exact .none
  | invalidate r =>
    rw [BlockCache.invalidate]
    split
    case isTrue => exact .none
    case isFalse => exact .keep _ _
  | flush => exact .keep _ _

/-! ## Balance -/

/-- No address has both a block and a failure, and every result of compiling is still recorded
or has been counted as dropped. -/
structure Balanced (c : BlockCache) : Prop where
  apart : ∀ k, c.lookup k = none ∨ c.isFailed k = false
  balance : c.statistics.blocksCompiled + c.statistics.compileFailures =
    c.blocks.size + c.failed.size + c.statistics.invalidatedBlocks

/-- A failure is recorded for its own address, -/
theorem isFailed_record_error (c : BlockCache) (start k : UInt32) (e : CompileError) :
    (c.record start (.error e)).2.isFailed k = (start == k || c.isFailed k) :=
  Std.HashSet.contains_insert

/-- and keeping only some failures makes none. -/
theorem isFailed_keep {c : BlockCache} {block : Block → Bool} {failure : UInt32 → Bool}
    {k : UInt32} (h : c.isFailed k = false) : (c.keep block failure).isFailed k = false := by
  rw [Bool.eq_false_iff]
  intro hkept
  exact Bool.noConfusion (h.symm.trans (Std.HashSet.contains_of_contains_filter hkept))

/-- What is dropped is counted, each block and each failure once. -/
theorem size_keep (c : BlockCache) (block : Block → Bool) (failure : UInt32 → Bool) :
    (c.keep block failure).blocks.size + (c.keep block failure).failed.size +
        (c.keep block failure).statistics.invalidatedBlocks =
      c.blocks.size + c.failed.size + c.statistics.invalidatedBlocks := by
  have hblocks : (c.blocks.filter fun _ b => block b).size ≤ c.blocks.size :=
    Std.HashMap.size_filter_le_size
  have hfailed : (c.failed.filter failure).size ≤ c.failed.size :=
    Std.HashSet.size_filter_le_size
  simp only [keep]
  omega

namespace Balanced

variable {c c' : BlockCache}

/-- There is nothing to account for in a new cache. -/
theorem empty (maxInstructions : Nat) : (BlockCache.empty maxInstructions).Balanced where
  apart k := .inl (lookup_empty maxInstructions k)
  balance := rfl

/-- A result is recorded under an address that has none. -/
theorem record (h : c.Balanced) {start : UInt32} (hmissing : c.lookup start = none)
    (huntried : c.isFailed start = false) (compiled : Except CompileError Block) :
    (c.record start compiled).2.Balanced := by
  have hblocks : start ∉ c.blocks := by
    -- The address is new to both tables, so one of them grows by one
    rw [Std.HashMap.mem_iff_isSome_getElem?, show c.blocks[start]? = none from hmissing]
    exact Bool.false_ne_true
  have hfailed : start ∉ c.failed := by
    rw [← Std.HashSet.contains_iff_mem]
    exact Bool.eq_false_iff.mp huntried
  have hbalance := h.balance
  cases compiled with
  | ok b =>
    constructor
    case apart =>
      intro k
      rw [lookup_record_ok]
      split
      case isTrue heq => exact .inr (isFailed_record_ok (heq ▸ huntried) start b)
      case isFalse =>
        exact (h.apart k).imp id fun hbefore => isFailed_record_ok hbefore start b
    case balance =>
      simp only [BlockCache.record, Std.HashMap.size_insert, Std.HashSet.size_erase,
        if_neg hblocks, if_neg hfailed]
      omega
  | error e =>
    constructor
    case apart =>
      intro k
      rw [isFailed_record_error]
      by_cases heq : start = k
      · exact .inl (heq ▸ hmissing)
      · rw [beq_eq_false_iff_ne.mpr heq, Bool.false_or]
        exact h.apart k
    case balance =>
      simp only [BlockCache.record, Std.HashSet.size_insert, if_neg hfailed]
      omega

/-- What is no longer kept has been counted as dropped. -/
theorem keep (h : c.Balanced) (block : Block → Bool) (failure : UInt32 → Bool) :
    (c.keep block failure).Balanced where
  apart k := by
    rw [lookup_keep]
    refine (h.apart k).imp (fun hmissing => ?_) isFailed_keep
    rw [hmissing, Option.filter_none]
  balance := h.balance.trans (c.size_keep block failure).symm

/-- A hit is counted elsewhere. -/
theorem noteHit (h : c.Balanced) (failed : Bool) : (c.noteHit failed).Balanced :=
  ⟨h.apart, h.balance⟩

/-- So is a run. -/
theorem noteRun (h : c.Balanced) (exit : BlockExit) : (c.noteRun exit).Balanced :=
  ⟨h.apart, h.balance⟩

/-- No operation puts the books out of balance. -/
theorem step (h : c.Balanced) (hstep : Step c c') : c'.Balanced := by
  cases hstep.change with
  | none => exact h
  | hit failed => exact h.noteHit failed
  | run exit => exact h.noteRun exit
  | record hmissing huntried => exact h.record hmissing huntried _
  | keep block failure => exact h.keep block failure

/-- So it is with any number of them. -/
theorem steps (h : c.Balanced) (hsteps : Steps c c') : c'.Balanced := by
  induction hsteps with
  | refl => exact h
  | tail _ hlast ih => exact ih.step hlast

end Balanced

/-- After any sequence of operations on a new cache:
* no address has both a block and a failure;
* the blocks and failures that were counted when they were compiled are those that are recorded,
  together with those that were counted as dropped;
* and a request, whatever the source, leads to compiling exactly if it finds neither a block nor
  a failure and leaves a block. -/
theorem books_balance {maxInstructions : Nat} {c : BlockCache}
    (h : Steps (empty maxInstructions) c) :
    (∀ k, c.lookup k = none ∨ c.isFailed k = false) ∧
    c.statistics.blocksCompiled + c.statistics.compileFailures =
      c.blocks.size + c.failed.size + c.statistics.invalidatedBlocks ∧
    ∀ {ε σ : Type} {c' : BlockCache} {start : UInt32} {entry : UInt64}
      {source : UInt32 → EStateM ε σ (Option UInt32)} {s s' : σ} {result : EnsureResult},
      c.ensure start entry source s = .ok (result, c') s' →
        (result = .compiled ↔
          c.lookup start = none ∧ c.isFailed start = false ∧ (c'.lookup start).isSome = true) := by
  have hbalanced := (Balanced.empty maxInstructions).steps h
  exact ⟨hbalanced.apart, hbalanced.balance, ensure_eq_compiled_iff⟩

/-! ## A block and a failure -/

/-- A block that consists of one instruction, which ends it. -/
def single : Block where
  code := [{ word := 0x0000000D }]
  start := 0x1000
  entry := 0xFFFFFFFF80001000

/-- Only the word of that block can be read. -/
def oneWord (a : UInt32) : EStateM Empty Unit (Option UInt32) :=
  pure (if a = 0x1000 then some 0x0000000D else none)

/-- A block is compiled at one address and compiling fails at another; then the block is
dropped. -/
def emptied : BlockCache :=
  (((empty 64).record 0x1000 (.ok single)).2.record 0x2000
    (.error (.unreadable 0x2000))).2.invalidate ⟨0x1002, 1⟩

/-- Of the two results that were counted one is still recorded, and the other one has been counted
as dropped. -/
theorem books_balance_emptied :
    Steps (empty 64) emptied ∧
      (∀ k, emptied.lookup k = none ∨ emptied.isFailed k = false) ∧
      emptied.statistics.blocksCompiled = 1 ∧ emptied.statistics.compileFailures = 1 ∧
      emptied.lookup 0x1000 = none ∧
      emptied.blocks.size + emptied.failed.size + emptied.statistics.invalidatedBlocks = 2 := by
  have hcompiled : (empty 64).ensure 0x1000 0xFFFFFFFF80001000 oneWord () =
      .ok ((empty 64).record 0x1000 (.ok single)) () :=
    ensure_of_untried (lookup_empty _ _) (isFailed_empty _ _) rfl
  have hfailed : ((empty 64).record 0x1000 (.ok single)).2.ensure 0x2000 0xFFFFFFFF80002000
      oneWord () = .ok (((empty 64).record 0x1000 (.ok single)).2.record 0x2000
        (.error (.unreadable 0x2000))) () := by
    refine ensure_of_untried ?_ (isFailed_record_ok (isFailed_empty _ _) _ _) rfl
    rw [lookup_record_ok, if_neg (by decide), lookup_empty]
  have hsteps : Steps (empty 64) emptied :=
    .tail (.tail (.single (.request hcompiled)) (.request hfailed)) (.invalidate _ _)
  obtain ⟨hapart, hbalance, -⟩ := books_balance hsteps
  refine ⟨hsteps, hapart, rfl, rfl, ?_, hbalance.symm⟩
  -- The changed byte is one of the block
  rw [Option.eq_none_iff_forall_ne_some]
  intro b hb
  obtain ⟨hbefore, hkept⟩ := (lookup_invalidate _ _ _ b).mp hb
  replace hbefore : ((empty 64).record 0x1000 (.ok single)).2.lookup 0x1000 = some b := hbefore
  rw [lookup_record_ok, if_pos rfl] at hbefore
  cases hbefore
  revert hkept
  decide

end BlockCache

/-! ## Calls of the recompiler -/

namespace Recompiler

open BlockCache (Step Steps)

/-- The second recompiler comes of the first by operations on its cache, and its chains are
limited alike. -/
structure Operated (r r' : Recompiler) : Prop where
  cache : Steps r.cache r'.cache
  chainLimit : r'.chainLimit = r.chainLimit

namespace Operated

variable {r r' r'' : Recompiler}

/-- Nothing has been done to the cache. -/
theorem refl (r : Recompiler) : r.Operated r := ⟨.refl, rfl⟩

/-- One operation after the other. -/
theorem trans (h : r.Operated r') (h' : r'.Operated r'') : r.Operated r'' :=
  ⟨h.cache.trans h'.cache, h'.chainLimit.trans h.chainLimit⟩

/-- A change that is reported drops the blocks that it meets, -/
theorem invalidate (r : Recompiler) (change : ByteRange) : r.Operated (r.invalidate change) where
  cache := by
    rw [cache_invalidate]
    exact .single (.invalidate _ _)
  chainLimit := by
    simp only [Recompiler.invalidate]
    split <;> rfl

/-- and so do several. -/
theorem invalidateAll (r : Recompiler) (changes : List ByteRange) :
    r.Operated (r.invalidateAll changes) := by
  induction changes generalizing r with
  | nil => exact refl r
  | cons w rest ih => exact (invalidate r w).trans (ih (r.invalidate w))

end Operated

/-- The work takes the recompiler along by operations, whether it succeeds or fails. -/
def Operates {α : Type} (x : RecompilerM α) : Prop :=
  ∀ s : RunState, s.1.Operated (stateOf (x s)).1

/-- Work without effect does nothing to the cache, -/
theorem operates_pure {α : Type} (a : α) : Operates (pure a) := fun s => .refl s.1

/-- and one stretch after another does what both do. -/
theorem operates_bind {α β : Type} {x : RecompilerM α} {f : α → RecompilerM β} (hx : Operates x)
    (hf : ∀ a, Operates (f a)) : Operates (x >>= f) := by
  intro s
  have hfirst := hx s
  -- After a fault the rest is not run, and what has been done so far is accounted for
  cases h : x s with
  | ok a t =>
    rw [h] at hfirst
    rw [bind_of_ok h]
    exact hfirst.trans (hf a t)
  | error e t =>
    rw [h] at hfirst
    rw [bind_of_error h]
    exact hfirst

/-- Looking at the recompiler leaves it alone. -/
theorem operates_asks {α : Type} (f : Recompiler → α) : Operates (asks f) := fun s => .refl s.1

/-- So does work on the machine. -/
theorem operates_onMachine {α : Type} (x : MachineM α) : Operates (onMachine x) := by
  rintro ⟨r, m⟩
  cases h : x m with
  | ok a m' =>
    rw [onMachine_of_ok h]
    exact .refl r
  | error e m' =>
    rw [onMachine_of_error h]
    exact .refl r

/-- To ask for a block is the request. -/
theorem operates_ensureBlock (start : UInt32) : Operates (ensureBlock start) := by
  rintro ⟨r, m⟩
  have hentry : onMachine (Machine.withCpu (·.pc)) (r, m) = .ok m.cpu.pc (r, m) := rfl
  have hcache : asks (·.cache) (r, m) = .ok r.cache (r, m) := rfl
  rw [ensureBlock, bind_of_ok hentry, bind_of_ok hcache]
  -- Only what the cache answers is accounted for; a fault of the bus leaves the cache as it was
  cases h : r.cache.ensure start m.cpu.pc readCode m with
  | ok answer m' =>
    rw [bind_of_ok (onMachine_of_ok h)]
    exact ⟨.single (.request h), rfl⟩
  | error e m' =>
    rw [bind_of_error (onMachine_of_error h)]
    exact .refl r

/-- What comes before a call's block is run: reports, a look at the machine, and perhaps a
request. -/
theorem operates_prepare : Operates prepare := by
  refine operates_bind (fun s => .invalidateAll s.1 _) fun _ => ?_
  refine operates_bind (operates_onMachine _) fun start? => ?_
  cases start? with
  | none => exact operates_pure _
  | some start =>
    refine operates_bind (operates_asks _) fun block => ?_
    split
    · exact operates_pure _
    · refine operates_bind (operates_asks _) fun failed => ?_
      split
      · exact operates_pure _
      · -- Visits are counted outside the cache
        refine operates_bind (fun _ => ⟨.refl, rfl⟩) fun hot => ?_
        split
        · exact operates_pure _
        · refine operates_bind (operates_ensureBlock start) fun result => ?_
          cases result with
          | compileFailed => exact operates_pure _
          | cacheHit => exact operates_pure _
          | compiled => exact operates_bind (fun _ => ⟨.refl, rfl⟩) fun _ => operates_pure _

/-- An instruction by the interpreter does nothing to the cache. -/
theorem operates_interpretOne (reason : Fallback) : Operates (interpretOne reason) :=
  operates_bind (operates_onMachine _) fun _ => operates_bind (fun _ => ⟨.refl, rfl⟩) fun _ =>
    operates_pure _

/-- A block that is in the cache is run as one of its operations, and what it wrote is applied. -/
theorem operated_runBlock {s : RunState} {start : UInt32} {b : Block}
    (h : s.1.cache.lookup start = some b) : s.1.Operated (stateOf (runBlock b s)).1 := by
  obtain ⟨r, m⟩ := s
  have hrun := Step.execute r.cache start m
  simp only [BlockCache.execute, show r.cache.lookup start = some b from h] at hrun
  rw [runBlock_run]
  cases hb : b.run m with
  | ok run m' =>
    rw [hb] at hrun
    have hrest := Operated.invalidateAll { r with cache := r.cache.noteRun run.exit } run.writes
    exact ⟨.head hrun hrest.cache, hrest.chainLimit⟩
  | error e m' => exact .refl r

/-- The next block of a chain is taken from the cache, while the budget lasts. -/
theorem lookup_of_following {budget total : Nat} {exit : BlockExit} {s : RunState} {next : Block}
    (h : following budget total exit s = some next) :
    total < budget ∧ ∃ start, s.1.cache.lookup start = some next := by
  -- A chain ends where an instruction has been redirected
  have hgo : (if budget ≤ total then none else (entryPoint s.2.cpu).bind s.1.cache.lookup) =
      some next := by
    cases exit with
    | redirected n => exact nomatch h
    | completed n => exact h
    | jumped n => exact h
  split at hgo
  case isTrue => exact nomatch hgo
  case isFalse hlt =>
    obtain ⟨start, -, hlookup⟩ := Option.bind_eq_some_iff.mp hgo
    exact ⟨Nat.lt_of_not_le hlt, start, hlookup⟩

/-- A chain is one run after the other, each of a block that is in the cache. -/
theorem operated_runChain (budget total links : Nat) {b : Block} {s : RunState}
    {start : UInt32} (h : s.1.cache.lookup start = some b) :
    s.1.Operated (stateOf (runChain budget b total links s)).1 := by
  -- Induction on the links left
  induction links generalizing b total s start with
  | zero =>
    have hblock := operated_runBlock h
    rw [runChain]
    cases hrun : runBlock b s with
    | error e s' =>
      rw [hrun] at hblock
      rw [bind_of_error hrun]
      exact hblock
    | ok exit s' =>
      rw [hrun] at hblock
      rw [bind_of_ok hrun]
      exact hblock
  | succ links ih =>
    have hblock := operated_runBlock h
    rw [runChain_succ]
    cases hrun : runBlock b s with
    | error e s' =>
      rw [hrun] at hblock
      exact hblock
    | ok exit s' =>
      rw [hrun] at hblock
      dsimp only
      cases hnext : following budget (total + exit.retired) exit s' with
      | none => exact hblock
      | some next =>
        obtain ⟨-, start', hlookup⟩ := lookup_of_following hnext
        have hrest := ih (total + exit.retired) (s := chained s') hlookup
        exact hblock.trans ⟨hrest.cache, hrest.chainLimit⟩

/-- A call with a block runs a chain, and one instruction more if that was empty. -/
theorem operates_runCached (budget : Nat) (start : UInt32) : Operates (runCached budget start) := by
  intro s
  have hask : asks (·.cache.lookup start) s = .ok (s.1.cache.lookup start) s := rfl
  have hlimit : asks (·.chainLimit) s = .ok s.1.chainLimit s := rfl
  -- A chain that ran nothing is made up for by one interpreted instruction
  rw [runCached, bind_of_ok hask]
  cases hlookup : s.1.cache.lookup start with
  | none => exact operates_interpretOne .noBlock s
  | some b =>
    have hchain := operated_runChain budget 0 s.1.chainLimit hlookup
    dsimp only
    rw [bind_of_ok hlimit]
    cases hrun : runChain budget b 0 s.1.chainLimit s with
    | error e s' =>
      rw [hrun] at hchain
      rw [bind_of_error hrun]
      exact hchain
    | ok n s' =>
      rw [hrun] at hchain
      rw [bind_of_ok hrun]
      split
      · exact hchain.trans (operates_interpretOne .noBlock s')
      · exact hchain

/-- Whatever a call of the recompiler does to the cache, it does by these operations. -/
theorem operates_executeWithin (budget : Nat) : Operates (executeWithin budget) := by
  rw [executeWithin_eq]
  refine operates_bind operates_prepare fun entry => ?_
  cases entry with
  | error reason => exact operates_interpretOne reason
  | ok start => exact operates_runCached budget start

end Recompiler

end Console64
