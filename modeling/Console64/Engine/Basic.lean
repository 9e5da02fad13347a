import Console64.Engine.Recompiler

/-! # Engines

What carries out instructions: the interpreter, one at a time, or the recompiler,
by chains of blocks. -/

namespace Console64

/-- An engine. -/
inductive Engine where
  | interpreter
  | recompiler (state : Recompiler)

/-- An engine and the machine that it runs. -/
structure Session where
  engine : Engine
  machine : Machine

/-- Work on a session that may end in a bus fault. -/
abbrev SessionM := EStateM BusError Session

namespace Engine

/-- The engine that the settings ask for. -/
def ofSettings (s : Settings) : Engine :=
  if s.recompiler.enabled then .recompiler (.ofSettings s.recompiler) else .interpreter

/-- The engine compiles blocks. -/
def usesRecompiler : Engine → Bool
  | .interpreter => false
  | .recompiler _ => true

def name : Engine → String
  | .interpreter => "interpreter"
  | .recompiler _ => BlockCache.backendName

/-- Apply a change of memory. -/
def invalidate (e : Engine) (change : ByteRange) : Engine :=
  match e with
  | .interpreter => .interpreter
  | .recompiler r => .recompiler (r.invalidate change)

/-- Forget what has been counted of runs. -/
def resetStatistics : Engine → Engine
  | .interpreter => .interpreter
  | .recompiler r => .recompiler r.resetStatistics

end Engine

namespace Recompiler

/-- The statistics as labelled numbers. -/
def labelledStatistics (r : Recompiler) : List (String × Nat) :=
  [("blocks", r.statistics.blocksExecuted),
    ("block_instr", r.statistics.blockInstructions),
    ("chained", r.statistics.chainedBlocks),
    ("redirected", r.statistics.redirectedExits),
    ("fallback_instr", r.statistics.fallbackInstructions),
    ("fallback_guard", r.statistics.fallbackGuarded),
    ("fallback_no_block", r.statistics.fallbackNoBlock),
    ("fallback_failed_cache", r.statistics.fallbackFailedCache),
    ("fallback_cold", r.statistics.fallbackCold),
    ("compiled", r.cache.statistics.blocksCompiled),
    ("compile_failures", r.cache.statistics.compileFailures),
    ("invalidated", r.cache.statistics.invalidatedBlocks),
    ("invalidate_calls", r.statistics.invalidateCalls),
    ("invalidate_bytes", r.statistics.invalidateBytes),
    ("block_cache_len", r.cache.blocks.size),
    ("failed_cache_len", r.cache.failed.size),
    ("hot_entries", r.hotCounts.size),
    ("hot_threshold", r.hotThreshold),
    ("max_block_insns", r.cache.maxInstructions),
    ("chain_limit", r.chainLimit)]

/-- The statistics as a line of text. -/
def statisticsLine (r : Recompiler) : String :=
  String.intercalate " " (r.labelledStatistics.map fun (label, n) => label ++ "=" ++ toString n)

end Recompiler

namespace Session

/-- The machine in power-on state under its engine.  Writes are recorded where
blocks depend on them. -/
def start (cartridge : Cartridge) (s : Settings) : Session :=
  let engine := Engine.ofSettings s
  let bus := (Bus.initial cartridge s.rdramSize).watchWrites engine.usesRecompiler
  let cpu := { Cpu.initial with trace := TraceLog.ofCapacity? s.traceDepth }
  { engine, machine := ⟨cpu, bus⟩ }

/-- Work on the machine alone. -/
@[inline] def onMachine {α : Type} (x : MachineM α) : SessionM α := fun ⟨engine, machine⟩ =>
  match x machine with
  | .ok a machine => .ok a ⟨engine, machine⟩
  | .error e machine => .error e ⟨engine, machine⟩

/-- Let the engine run once: one instruction, or one chain of blocks, with no
further block once `budget` instructions have been retired.  The answer is the
number of instructions retired. -/
def executeWithin (budget : Nat) : SessionM Nat := fun ⟨engine, machine⟩ =>
  match engine with
  | .interpreter =>
    match Machine.step machine with
    | .ok _ machine => .ok 1 ⟨.interpreter, machine⟩
    | .error e machine => .error e ⟨.interpreter, machine⟩
  | .recompiler r =>
    match Recompiler.executeWithin budget (r, machine) with
    | .ok retired (r, machine) => .ok retired ⟨.recompiler r, machine⟩
    | .error e (r, machine) => .error e ⟨.recompiler r, machine⟩

/-- The budget of a run that nothing else limits. -/
def unlimited : Nat := 0xFFFFFFFFFFFFFFFF

/-- Let the engine run once, without a budget. -/
def execute : SessionM Nat := executeWithin unlimited

end Session

end Console64
