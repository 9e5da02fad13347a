import Console64.Block.Execute
import Std.Data.HashMap
import Std.Data.HashSet

/-! # The block cache

Compiled blocks by the physical address of their first instruction, and the
addresses where compiling failed.  A change of memory drops the blocks that share
a byte with it and the failures recorded inside it. -/

namespace Console64

/-- What the cache has done so far. -/
structure CacheStatistics where
  cacheHits : Nat := 0
  /-- Hits on addresses where compiling had failed before. -/
  failedCacheHits : Nat := 0
  blocksCompiled : Nat := 0
  compileFailures : Nat := 0
  /-- Blocks and failures dropped. -/
  invalidatedBlocks : Nat := 0
  blocksExecuted : Nat := 0
  instructionsExecuted : Nat := 0
  deriving DecidableEq, Repr, Inhabited

/-- The counts, in the order of the fields. -/
def CacheStatistics.toList (s : CacheStatistics) : List Nat :=
  [s.cacheHits, s.failedCacheHits, s.blocksCompiled, s.compileFailures, s.invalidatedBlocks,
    s.blocksExecuted, s.instructionsExecuted]

/-- What a request for a block led to. -/
inductive EnsureResult where
  | cacheHit
  | compiled
  | compileFailed
  deriving DecidableEq, Repr, Inhabited

/-- Compiled blocks and failed addresses. -/
structure BlockCache where
  maxInstructions : Nat
  blocks : Std.HashMap UInt32 Block := {}
  failed : Std.HashSet UInt32 := {}
  statistics : CacheStatistics := {}
  lastError : Option CompileError := none

namespace BlockCache

/-- The kind of code that blocks hold. -/
def backendName : String := "threaded"

/-- The most instructions in a block, unless configured. -/
def defaultMaxInstructions : Nat := 64

/-- A cache with nothing in it. -/
def empty (maxInstructions : Nat) : BlockCache := { maxInstructions }

/-- The block at an address. -/
def lookup (c : BlockCache) (start : UInt32) : Option Block := c.blocks[start]?

/-- Compiling failed at an address. -/
def isFailed (c : BlockCache) (start : UInt32) : Bool := c.failed.contains start

/-- Note a request that was answered from the cache. -/
def noteHit (c : BlockCache) (failed : Bool) : BlockCache :=
  let s := c.statistics
  { c with
    statistics :=
      { s with
        cacheHits := s.cacheHits + 1
        failedCacheHits := s.failedCacheHits + if failed then 1 else 0 } }

/-- Take in what compiling at `start` led to. -/
def record (c : BlockCache) (start : UInt32) :
    Except CompileError Block → EnsureResult × BlockCache
  | .ok b =>
    (.compiled,
      { c with
        -- An address is not in both tables
        blocks := c.blocks.insert start b
        failed := c.failed.erase start
        statistics.blocksCompiled := c.statistics.blocksCompiled + 1 })
  | .error e =>
    (.compileFailed,
      { c with
        failed := c.failed.insert start
        lastError := some e
        statistics.compileFailures := c.statistics.compileFailures + 1 })

/-- See that the block at `start` is there, unless it cannot be compiled. -/
def ensure {m : Type → Type} [Monad m] (c : BlockCache) (start : UInt32) (entry : UInt64)
    (source : UInt32 → m (Option UInt32)) : m (EnsureResult × BlockCache) := do
  if (c.lookup start).isSome then return (.cacheHit, c.noteHit false)
  else if c.isFailed start then return (.cacheHit, c.noteHit true)
  else return c.record start (← Block.compile source ⟨start, entry, c.maxInstructions⟩)

/-- Count a run of a block. -/
def noteRun (c : BlockCache) (exit : BlockExit) : BlockCache :=
  let s := c.statistics
  { c with
    statistics :=
      { s with
        blocksExecuted := s.blocksExecuted + 1
        instructionsExecuted := s.instructionsExecuted + exit.retired } }

/-- Keep the blocks and failures that satisfy `block` and `failure`; the others
count as invalidated. -/
def keep (c : BlockCache) (block : Block → Bool) (failure : UInt32 → Bool) : BlockCache :=
  let blocks := c.blocks.filter fun _ b => block b
  let failed := c.failed.filter failure
  -- What is dropped is counted by how much the tables have shrunk
  let dropped := (c.blocks.size - blocks.size) + (c.failed.size - failed.size)
  { c with
    blocks, failed
    statistics.invalidatedBlocks := c.statistics.invalidatedBlocks + dropped }

/-- The bytes of a changed range that code can lie in: it ends at the last
address at the latest. -/
def changedRange (r : ByteRange) : ByteRange := ⟨r.start, min r.length (0xFFFFFFFF - r.start)⟩

/-- Drop what a change of memory in the range `r` affects. -/
def invalidate (c : BlockCache) (r : ByteRange) : BlockCache :=
  if r.length = 0 then c
  else
    let r := changedRange r
    c.keep (fun b => !b.overlaps r) (fun a => !r.contains a.toNat)

/-- Drop everything. -/
def flush (c : BlockCache) : BlockCache := c.keep (fun _ => false) (fun _ => false)

end BlockCache

end Console64
