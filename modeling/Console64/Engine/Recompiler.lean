import Console64.Block.Cache
import Console64.Settings

/-! # The recompiler

Runs compiled blocks in place of single instructions.  Entry points are counted
until they turn hot, then compiled once and run in chains; whatever the cache
cannot serve takes one step of the interpreter.

Before anything else a run applies the writes that the bus has recorded since the
last one, so that no changed block is used. -/

namespace Console64

/-- Why a step was left to the interpreter. -/
inductive Fallback where
  /-- No block can be entered here: a delay slot is pending, or the fetch fails. -/
  | guarded
  /-- No block could be compiled here. -/
  | noBlock
  /-- Compiling had failed here before. -/
  | failedCache
  /-- The entry point is not hot yet. -/
  | cold
  deriving DecidableEq, Repr, Inhabited

/-- What the recompiler has done so far. -/
structure RunStatistics where
  blocksExecuted : Nat := 0
  blockInstructions : Nat := 0
  chainedBlocks : Nat := 0
  redirectedExits : Nat := 0
  fallbackInstructions : Nat := 0
  fallbackGuarded : Nat := 0
  fallbackNoBlock : Nat := 0
  fallbackFailedCache : Nat := 0
  fallbackCold : Nat := 0
  invalidateCalls : Nat := 0
  invalidateBytes : Nat := 0
  deriving DecidableEq, Repr, Inhabited

namespace RunStatistics

/-- The counts, in the order of the fields. -/
def toList (s : RunStatistics) : List Nat :=
  [s.blocksExecuted, s.blockInstructions, s.chainedBlocks, s.redirectedExits,
    s.fallbackInstructions, s.fallbackGuarded, s.fallbackNoBlock, s.fallbackFailedCache,
    s.fallbackCold, s.invalidateCalls, s.invalidateBytes]

/-- Count one interpreted instruction. -/
def noteFallback (s : RunStatistics) (reason : Fallback) : RunStatistics :=
  let s := { s with fallbackInstructions := s.fallbackInstructions + 1 }
  match reason with
  | .guarded => { s with fallbackGuarded := s.fallbackGuarded + 1 }
  | .noBlock => { s with fallbackNoBlock := s.fallbackNoBlock + 1 }
  | .failedCache => { s with fallbackFailedCache := s.fallbackFailedCache + 1 }
  | .cold => { s with fallbackCold := s.fallbackCold + 1 }

/-- Count one run of a block. -/
def noteBlock (s : RunStatistics) (exit : BlockExit) : RunStatistics :=
  { s with
    blocksExecuted := s.blocksExecuted + 1
    blockInstructions := s.blockInstructions + exit.retired
    redirectedExits := s.redirectedExits + match exit with
      | .redirected _ => 1
      | _ => 0 }

/-- Count one block that follows another. -/
def noteChained (s : RunStatistics) : RunStatistics :=
  { s with chainedBlocks := s.chainedBlocks + 1 }

/-- Count one applied change of `length` bytes. -/
def noteInvalidation (s : RunStatistics) (length : Nat) : RunStatistics :=
  { s with
    invalidateCalls := s.invalidateCalls + 1
    invalidateBytes := s.invalidateBytes + length }

end RunStatistics

/-- The recompiler's state. -/
structure Recompiler where
  cache : BlockCache
  statistics : RunStatistics := {}
  /-- Visits of entry points that have no block yet. -/
  hotCounts : Std.HashMap UInt32 Nat := {}
  hotThreshold : Nat
  chainLimit : Nat

namespace Recompiler

/-- A recompiler that has not run yet. -/
def ofSettings (s : RecompilerSettings) : Recompiler where
  cache := .empty s.maxBlockInstructions
  -- An entry point is visited once at least before it is compiled
  hotThreshold := max s.hotThreshold 1
  chainLimit := s.chainLimit

/-- The most entry points that are counted at a time. -/
def hotCountLimit : Nat := 4096

/-- Forget what has been counted of runs; the cache keeps its own counts. -/
def resetStatistics (r : Recompiler) : Recompiler := { r with statistics := {} }

/-- Apply a change of memory. -/
def invalidate (r : Recompiler) (change : ByteRange) : Recompiler :=
  if change.length = 0 then r
  else
    let affected := BlockCache.changedRange change
    { r with
      cache := r.cache.invalidate change
      hotCounts := r.hotCounts.filter fun a _ => !affected.contains a.toNat
      statistics := r.statistics.noteInvalidation change.length }

/-- Apply several changes, in order. -/
def invalidateAll (r : Recompiler) (changes : List ByteRange) : Recompiler :=
  changes.foldl invalidate r

/-- Count a visit of an entry point; the answer tells that it is hot.  When too
many are being counted, a new one makes all others forgotten. -/
def visit (r : Recompiler) (start : UInt32) : Bool × Recompiler :=
  let counts :=
    if hotCountLimit ≤ r.hotCounts.size && !r.hotCounts.contains start then {} else r.hotCounts
  let count := counts.getD start 0 + 1
  (r.hotThreshold ≤ count, { r with hotCounts := counts.insert start count })

/-- Forget the visits of an entry point. -/
def forgetVisits (r : Recompiler) (start : UInt32) : Recompiler :=
  { r with hotCounts := r.hotCounts.erase start }

/-- Count one interpreted instruction. -/
def noteFallback (r : Recompiler) (reason : Fallback) : Recompiler :=
  { r with statistics := r.statistics.noteFallback reason }

/-- Count one run of a block, and apply what it wrote. -/
def noteRun (r : Recompiler) (run : BlockRun) : Recompiler :=
  let r := { r with cache := r.cache.noteRun run.exit }
  let r := r.invalidateAll run.writes
  { r with statistics := r.statistics.noteBlock run.exit }

end Recompiler

/-- Work of the recompiler on a machine. -/
abbrev RecompilerM := EStateM BusError (Recompiler × Machine)

namespace Recompiler

/-- Work on the machine alone. -/
@[inline] def onMachine {α : Type} (x : MachineM α) : RecompilerM α := fun (r, m) =>
  match x m with
  | .ok a m => .ok a (r, m)
  | .error e m => .error e (r, m)

/-- Work on the recompiler alone. -/
@[inline] def update {α : Type} (f : Recompiler → α × Recompiler) : RecompilerM α := fun (r, m) =>
  let (a, r) := f r
  .ok a (r, m)

/-- Change the recompiler. -/
@[inline] def change (f : Recompiler → Recompiler) : RecompilerM Unit := fun (r, m) =>
  .ok () (f r, m)

/-- Look at the recompiler. -/
@[inline] def asks {α : Type} (f : Recompiler → α) : RecompilerM α := fun s => .ok (f s.1) s

/-- Apply the writes that the bus has recorded. -/
def applyWrites : RecompilerM Unit := do
  let writes ← onMachine (Machine.onBus fun bus =>
    let (writes, bus) := bus.takeWrites
    .ok writes bus)
  change (·.invalidateAll writes)

/-- Where a block may be entered: the physical address of the next instruction,
unless that has to be interpreted. -/
def entryPoint (c : Cpu) : Option UInt32 :=
  -- A delay slot on its own is left to the interpreter, and so is a fetch that will fail
  if c.branchPending || c.pc &&& 3 ≠ 0 then none
  else
    match c.resolve c.pc .fetch with
    | .ok physical => some physical
    | .error _ => none

/-- The word at a physical address, for the compiler. -/
def readCode (a : UInt32) : MachineM (Option UInt32) :=
  Machine.onBus do
    -- A word that cannot be read is no fault of the program, which may never get there
    match ← Bus.attempt (Bus.readWord a) with
    | .ok word => return some word
    | .error _ => return none

/-- Leave one instruction to the interpreter. -/
def interpretOne (reason : Fallback) : RecompilerM Nat := do
  onMachine Machine.step
  change (·.noteFallback reason)
  return 1

/-- Run the block `b` and count it. -/
def runBlock (b : Block) : RecompilerM BlockExit := do
  let run ← onMachine b.run
  change (·.noteRun run)
  return run.exit

/-- The block that execution enters next, if it is in the cache. -/
def nextBlock : RecompilerM (Option Block) := do
  match ← onMachine (Machine.withCpu entryPoint) with
  | some start => asks (·.cache.lookup start)
  | none => return none

/-- Run the block `b` and then up to `links` blocks that follow, as long as none
was left early and fewer than `budget` instructions have been retired.  `total`
of them were before this block. -/
def runChain (budget : Nat) (b : Block) (total : Nat) : (links : Nat) → RecompilerM Nat
  | 0 => return total + (← runBlock b).retired
  | links + 1 => do
    let exit ← runBlock b
    let total := total + exit.retired
    match exit with
    | .redirected _ => return total
    | _ =>
      -- The budget is looked at between blocks only
      if budget ≤ total then return total
      match ← nextBlock with
      | none => return total
      | some next =>
        change fun r => { r with statistics := r.statistics.noteChained }
        runChain budget next total links

/-- Run the chain of blocks that starts with the one at `start`.  Where that gets
nowhere, one instruction is interpreted. -/
def runCached (budget : Nat) (start : UInt32) : RecompilerM Nat := do
  match ← asks (·.cache.lookup start) with
  | none => interpretOne .noBlock
  | some b =>
    let retired ← runChain budget b 0 (← asks (·.chainLimit))
    if retired = 0 then interpretOne .noBlock else return retired

/-- See that the block at `start` is there, unless it cannot be compiled. -/
def ensureBlock (start : UInt32) : RecompilerM EnsureResult := do
  let entry ← onMachine (Machine.withCpu (·.pc))
  let cache ← asks (·.cache)
  let (result, cache) ← onMachine (cache.ensure start entry readCode)
  change fun r => { r with cache }
  return result

/-- Run from the current instruction on; the answer is the number of instructions
retired.  No block is chained to others once `budget` instructions have been. -/
def executeWithin (budget : Nat) : RecompilerM Nat := do
  -- What transfers and interpreted stores have changed is applied before a block is looked up
  applyWrites
  match ← onMachine (Machine.withCpu entryPoint) with
  | none => interpretOne .guarded
  | some start =>
    if (← asks (·.cache.lookup start)).isSome then runCached budget start
    else if ← asks (·.cache.isFailed start) then interpretOne .failedCache
    else if !(← update (·.visit start)) then interpretOne .cold
    else
      match ← ensureBlock start with
      | .compileFailed => interpretOne .noBlock
      | .cacheHit => runCached budget start
      | .compiled =>
        change (·.forgetVisits start)
        runCached budget start

end Recompiler

end Console64
