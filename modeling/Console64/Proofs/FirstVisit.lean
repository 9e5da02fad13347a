import Console64.Proofs.BlockEntry

/-!
# Blocks compiled at the first visit

With a threshold of one, a block is compiled and entered as soon as execution gets to its
start for the first time.  This is the shortest way into the cache, and without chaining a
call is one run of the block, at the first visit as at later ones.

## Key results

- `Recompiler.FirstVisit.prepare`: at the first visit, a call compiles the block
- `Recompiler.prepare_of_cached`: at later ones, it finds the block
- `Recompiler.executeWithin_unchained`: then it runs the block
-/

namespace Console64

namespace Machine

/-- The block that can be compiled at the next instruction, if there is one. -/
def firstBlock (m : Machine) (maxInstructions : Nat) : Option Block :=
  match Recompiler.entryPoint m.cpu with
  | none => none
  | some start =>
    match Block.compile Recompiler.readCode ⟨start, m.cpu.pc, maxInstructions⟩ m with
    | .ok (.ok b) _ => some b
    | _ => none

/-- It starts there, and compiling it changes nothing unless that is among the registers of
the signal processor. -/
theorem firstBlock_eq_some {m : Machine} {maxInstructions : Nat} {b : Block}
    (h : m.firstBlock maxInstructions = some b) (hquiet : quiet b.start = true) :
    Recompiler.entryPoint m.cpu = some b.start ∧
      Block.compile Recompiler.readCode ⟨b.start, m.cpu.pc, maxInstructions⟩ m =
        .ok (.ok b) m := by
  simp only [firstBlock] at h
  cases hentry : Recompiler.entryPoint m.cpu with
  | none =>
    rw [hentry] at h
    exact nomatch h
  | some start =>
    -- The block that was found says where it starts, so that the two compilations are one
    simp only [hentry] at h
    split at h
    case h_1 b' m' hcompile =>
      cases h
      obtain ⟨rfl, -⟩ := Block.compile_start hcompile
      obtain ⟨_, hrun, -⟩ := Block.compile_run m.cpu.pc maxInstructions m
        (Recompiler.entryPoint_eq_some hentry).2.2.2 hquiet
      rw [hcompile] at hrun
      cases hrun
      exact ⟨rfl, hcompile⟩
    case h_2 => exact nomatch h

end Machine

namespace Block

/-- The block runs to an end, and the check holds of the run and of what it leaves. -/
def finishes (b : Block) (m : Machine) (check : BlockRun → Machine → Bool) : Bool :=
  match b.run m with
  | .ok run m' => check run m'
  | .error _ _ => false

/-- The block fails, and the check holds of what it leaves. -/
def faults (b : Block) (m : Machine) (check : Machine → Bool) : Bool :=
  match b.run m with
  | .ok _ _ => false
  | .error _ m' => check m'

/-- The run finishes, with a result that passes the check. -/
theorem finishes_iff {b : Block} {m : Machine} {check : BlockRun → Machine → Bool} :
    b.finishes m check = true ↔ ∃ run m', b.run m = .ok run m' ∧ check run m' = true := by
  cases h : b.run m with
  | ok run m' => simp [finishes, h, and_assoc]
  | error e m' => simp [finishes, h]

/-- The run ends in a fault, on a machine that passes it. -/
theorem faults_iff {b : Block} {m : Machine} {check : Machine → Bool} :
    b.faults m check = true ↔ ∃ e m', b.run m = .error e m' ∧ check m' = true := by
  cases h : b.run m with
  | ok run m' => simp [faults, h]
  | error e m' => simp [faults, h, and_assoc]

end Block

namespace Recompiler

/-- The next call gets to `b` for the first time, and compiles it. -/
structure FirstVisit (r : Recompiler) (m : Machine) (b : Block) : Prop where
  clean : m.bus.writes.ranges = #[]
  entry : entryPoint m.cpu = some b.start
  compiles : Block.compile readCode ⟨b.start, m.cpu.pc, r.cache.maxInstructions⟩ m = .ok (.ok b) m
  missing : r.cache.lookup b.start = none
  untried : r.cache.isFailed b.start = false
  hot : r.hotThreshold ≤ 1

/-- The recompiler after it has compiled `b`. -/
def withBlock (r : Recompiler) (b : Block) : Recompiler :=
  { (r.visit b.start).2 with cache := (r.cache.record b.start (.ok b)).2 }.forgetVisits b.start

/-- The block is found there, and the others as before. -/
theorem lookup_withBlock (r : Recompiler) (b : Block) (k : UInt32) :
    (r.withBlock b).cache.lookup k = if b.start = k then some b else r.cache.lookup k :=
  BlockCache.lookup_record_ok r.cache b.start k b

/-- It adds no failure. -/
theorem isFailed_withBlock {r : Recompiler} {k : UInt32} (h : r.cache.isFailed k = false)
    (b : Block) : (r.withBlock b).cache.isFailed k = false :=
  BlockCache.isFailed_record_ok h b.start b

/-- A fresh recompiler has compiled nothing yet, and has not failed to. -/
theorem lookup_ofSettings (settings : RecompilerSettings) (k : UInt32) :
    (ofSettings settings).cache.lookup k = none :=
  BlockCache.lookup_empty _ k

/-- So it knows of no failures. -/
theorem isFailed_ofSettings (settings : RecompilerSettings) (k : UInt32) :
    (ofSettings settings).cache.isFailed k = false :=
  BlockCache.isFailed_empty _ k

/-- With nothing in the log, there is nothing to apply. -/
theorem applied_of_clean {r : Recompiler} {m : Machine} (h : m.bus.writes.ranges = #[]) :
    applied r m = r ∧ drained m = m := by
  constructor
  · show r.invalidateAll m.bus.writes.ranges.toList = r
    rw [h]
    rfl
  · show { m with bus := { m.bus with writes := { m.bus.writes with ranges := #[] } } } = m
    rw [← h]

/-- Without chaining, a call that enters a block is one run of it. -/
theorem executeWithin_unchained {held : List ByteRange} {s : RunState} {r : Recompiler}
    {m : Machine} {b : Block} (hprepare : prepare s = .ok (.ok b.start) (r, m))
    (hentered : Entered held b (r, m)) (hlimit : r.chainLimit = 0) (budget : Nat) :
    (executeWithin budget s =
      match b.run m with
      | .ok run m' => .ok run.exit.retired (r.noteRun run, m')
      | .error e m' => .error e (r, m')) ∧
    blockRuns budget s = [(b, (r, m))] := by
  constructor
  · rw [executeWithin_eq, bind_of_ok hprepare]
    dsimp only
    rw [runCached_run hentered, hlimit, runChain]
    -- The limit of the chain is zero, so that nothing follows the first block
    have hrun := runBlock_run b r m
    cases hb : b.run m with
    | ok run m' =>
      simp only [hb] at hrun
      rw [bind_of_ok hrun, Nat.zero_add]
      rfl
    | error e m' =>
      simp only [hb] at hrun
      exact bind_of_error hrun
  · simp only [blockRuns, hprepare, hentered.lookup, hlimit]
    rfl

/-- A call prepares for a block that is there by doing nothing. -/
theorem prepare_of_cached {r : Recompiler} {m : Machine} {b : Block}
    (hclean : m.bus.writes.ranges = #[]) (hentry : entryPoint m.cpu = some b.start)
    (hlookup : r.cache.lookup b.start = some b) : prepare (r, m) = .ok (.ok b.start) (r, m) := by
  -- With nothing in the log, applying it is no change
  obtain ⟨happlied, hdrained⟩ := applied_of_clean (r := r) hclean
  have happly : applyWrites (r, m) = .ok () (applied r m, drained m) := rfl
  rw [happlied, hdrained] at happly
  have hcpu : onMachine (Machine.withCpu entryPoint) (r, m) = .ok (entryPoint m.cpu) (r, m) := rfl
  have hask : asks (·.cache.lookup b.start) (r, m) = .ok (some b) (r, m) := by
    rw [← hlookup]
    rfl
  rw [prepare, bind_of_ok happly, bind_of_ok hcpu, hentry]
  dsimp only
  rw [bind_of_ok hask, Option.isSome_some, if_pos rfl]
  rfl

namespace FirstVisit

/-- A block that can be compiled at the next instruction is compiled, if it is not there
and one visit is enough. -/
theorem of_firstBlock {r : Recompiler} {m : Machine} {b : Block}
    (hclean : m.bus.writes.ranges = #[])
    (hfirst : m.firstBlock r.cache.maxInstructions = some b) (hquiet : quiet b.start = true)
    (hmissing : r.cache.lookup b.start = none) (huntried : r.cache.isFailed b.start = false)
    (hhot : r.hotThreshold ≤ 1) : FirstVisit r m b :=
  have ⟨hentry, hcompiles⟩ := Machine.firstBlock_eq_some hfirst hquiet
  ⟨hclean, hentry, hcompiles, hmissing, huntried, hhot⟩

/-- So it is with every block, if the recompiler is fresh. -/
theorem of_fresh {settings : RecompilerSettings} {m : Machine} {b : Block}
    (hclean : m.bus.writes.ranges = #[])
    (hfirst : m.firstBlock settings.maxBlockInstructions = some b) (hquiet : quiet b.start = true)
    (hhot : settings.hotThreshold ≤ 1) : FirstVisit (ofSettings settings) m b :=
  of_firstBlock hclean hfirst hquiet (lookup_ofSettings settings b.start)
    (isFailed_ofSettings settings b.start) (Nat.max_le.mpr ⟨hhot, Nat.le_refl 1⟩)

variable {r : Recompiler} {m : Machine} {b : Block} {held : List ByteRange}

/-- The call prepares by compiling the block. -/
theorem prepare (h : FirstVisit r m b) :
    Recompiler.prepare (r, m) = .ok (.ok b.start) (r.withBlock b, m) := by
  obtain ⟨happlied, hdrained⟩ := applied_of_clean (r := r) h.clean
  have happly : applyWrites (r, m) = .ok () (applied r m, drained m) := rfl
  rw [happlied, hdrained] at happly
  have hcpu : onMachine (Machine.withCpu entryPoint) (r, m) = .ok (entryPoint m.cpu) (r, m) := rfl
  have hask : asks (·.cache.lookup b.start) (r, m) = .ok none (r, m) := by
    rw [← h.missing]
    rfl
  have hasked : asks (·.cache.isFailed b.start) (r, m) = .ok false (r, m) := by
    rw [← h.untried]
    rfl
  have hvisit : update (·.visit b.start) (r, m) = .ok true ((r.visit b.start).2, m) := by
    have htrue : (r.visit b.start).1 = true := by
      simp only [visit, decide_eq_true_eq]
      exact Nat.le_trans h.hot (Nat.le_add_left 1 _)
    rw [← htrue]
    rfl
  -- Neither there nor known to fail, and hot at the first visit
  rw [Recompiler.prepare, bind_of_ok happly, bind_of_ok hcpu, h.entry]
  dsimp only
  rw [bind_of_ok hask, Option.isSome_none, if_neg Bool.false_ne_true, bind_of_ok hasked,
    if_neg Bool.false_ne_true, bind_of_ok hvisit, Bool.not_true, if_neg Bool.false_ne_true]
  rw [bind_of_ok (ensureBlock_run (r := (r.visit b.start).2) h.missing h.untried h.compiles)]
  rfl

/-- Then the block is entered. -/
theorem entered (h : FirstVisit r m b) (hc : r.cache.Coherent held m.bus) :
    Entered held b (r.withBlock b, m) := by
  obtain ⟨result, s, hprepare, hprepared⟩ := prepare_run r m
  rw [h.prepare] at hprepare
  cases hprepare
  obtain ⟨-, -, hfound⟩ := hprepared.coherent hc
  -- Preparing has found a block, which can only be the one that has been compiled
  obtain ⟨b', -, hentered⟩ := hfound b.start rfl
  have heq : b'.start = b.start := by
    have hentry := hentered.entry
    rw [show (r.withBlock b, m).2.cpu = m.cpu from rfl, h.entry] at hentry
    exact (Option.some.inj hentry).symm
  have hlookup := hentered.lookup
  rw [heq, lookup_withBlock, if_pos rfl] at hlookup
  cases hlookup
  exact hentered

/-- Without chaining, the call is one run of the block. -/
theorem executeWithin (h : FirstVisit r m b) (hc : r.cache.Coherent [] m.bus)
    (hlimit : r.chainLimit = 0) (budget : Nat) :
    Recompiler.executeWithin budget (r, m) =
      match b.run m with
      | .ok run m' => .ok run.exit.retired ((r.withBlock b).noteRun run, m')
      | .error e m' => .error e (r.withBlock b, m') :=
  (executeWithin_unchained h.prepare (h.entered hc) hlimit budget).1

end FirstVisit

end Recompiler

/-! ## Small machines -/

/-- The smallest image that is taken for a cartridge. -/
def Cartridge.smallest : Cartridge where
  data := ⟨#[0x80, 0x37, 0x12, 0x40] ++ Array.replicate 60 0⟩
  header :=
    { order := .bigEndian
      piTiming := 0x80371240
      clockRate := 0
      entryPoint := 0
      release := 0
      crc1 := 0
      crc2 := 0
      name := ""
      gameCode := [0, 0, 0, 0]
      country := 0
      version := 0
      tv := .ntsc }
  chip := .x102

example :
    (Cartridge.ofBytes Cartridge.smallest.data).toOption.map (fun c => (c.data, c.header, c.chip)) =
      some (Cartridge.smallest.data, Cartridge.smallest.header, Cartridge.smallest.chip) := by
  decide +kernel

/-- A machine with little main memory that is about to start at `pc`.  Its writes are
recorded from now on; before that, registers were set and words stored into its devices. -/
def Machine.loaded (pc : UInt64) (registers : List (RegisterIndex × UInt64))
    (words : List (Region × Nat × UInt32)) : Machine where
  cpu := registers.foldl (fun cpu (r, v) => cpu.setGpr r v) (Cpu.initial.jumpTo pc)
  bus := words.foldl
    (fun bus (region, offset, word) =>
      bus.deviceStore region offset (BigEndian.bytes 4 word.toUInt64))
    ((Bus.initial .smallest 0x120).watchWrites true)

/-- Settings under which every block is compiled at its first visit and none is chained. -/
def RecompilerSettings.eager : RecompilerSettings where
  enabled := true
  hotThreshold := 1
  maxBlockInstructions := 16
  chainLimit := 0

/-- The first call of a recompiler with such settings is one run of the block at hand. -/
theorem Recompiler.executeWithin_eager {m m' : Machine} {b : Block} {run : BlockRun}
    (hwatch : m.bus.writes.watching = true) (hclean : m.bus.writes.ranges = #[])
    (hfirst : m.firstBlock 16 = some b) (hquiet : quiet b.start = true)
    (hrun : b.run m = .ok run m') (budget : Nat) :
    Recompiler.executeWithin budget (ofSettings .eager, m) =
      .ok run.exit.retired (((ofSettings .eager).withBlock b).noteRun run, m') := by
  have hvisit : FirstVisit (ofSettings .eager) m b :=
    .of_fresh hclean hfirst hquiet (Nat.le_refl 1)
  rw [hvisit.executeWithin (coherent_ofSettings .eager hwatch) rfl budget, hrun]

end Console64
