import Console64.Console
import Console64.Proofs.CacheBookkeeping
import Console64.Proofs.EngineWork
import Console64.Proofs.RetirementMeter

/-!
# How much an engine runs at a time

A block has room for so many instructions and no more, and a call of the recompiler chains so
many blocks and no more, none of them once the budget is used up.  So at most one block runs past
the budget.  The console gives its engine what is left of a video line, of which there always is
something: so a tick runs past the end of the line by less than a block.

## Key results

- `Block.size_compile_le`, `Block.retired_run_le`: a block in bounds, and a run of it
- `BlockCache.Roomy.steps`: all blocks of a cache are in bounds, whatever happens to it
- `Recompiler.runChain_le`: a chain against its limit and against its budget
- `Console.work_bounded`: calls of the recompiler, and ticks of the console
-/

namespace Console64

/-- The most instructions that a block has under the settings. -/
def RecompilerSettings.blockRoom (s : RecompilerSettings) : Nat := max s.maxBlockInstructions 1

/-! ## Blocks -/

namespace Block

section Compile

variable {ε σ : Type} {source : UInt32 → EStateM ε σ (Option UInt32)} {s s' : σ}

/-- A branch is taken along only where there is room for its delay slot. -/
private theorem two_le_of_branch {a : UInt32} {room : Nat} {d slot : DecodedWord}
    (h : pieceAt source a room s = .ok (.ok (.branch d slot)) s') : 2 ≤ room := by
  obtain ⟨word, t, -, h⟩ := bind_eq_ok h
  cases word with
  | none => cases h
  | some word =>
    dsimp only at h
    split at h
    -- A branch is taken up only if there is room for its slot as well
    · split at h
      · cases h
      case isFalse hfits =>
        simp only [Bool.or_eq_true, decide_eq_true_eq, not_or, Nat.not_lt] at hfits
        exact hfits.2
    · split at h
      · cases h
      · cases h

/-- The body of a block keeps to the room it is given. -/
private theorem length_bodyAfter_le {a : UInt32} {v : UInt64} {room : Nat} {body : BlockBody}
    (h : bodyAfter source a v room s = .ok body s') : body.code.length ≤ room := by
  -- Induction on the room left
  induction room generalizing a v s s' body with
  | zero =>
    cases h
    exact Nat.le_refl 0
  | succ room ih =>
    rw [bodyAfter] at h
    split at h
    · cases h
      exact Nat.zero_le _
    · obtain ⟨piece, t, hpiece, h⟩ := bind_eq_ok h
      cases piece with
      | error e =>
        cases h
        exact Nat.zero_le _
      | ok p =>
        cases p with
        | plain d =>
          obtain ⟨rest, u, hrest, h⟩ := bind_eq_ok h
          cases h
          exact Nat.succ_le_succ (ih hrest)
        | last d =>
          cases h
          exact Nat.le_add_left 1 room
        | branch d slot =>
          cases h
          exact two_le_of_branch hpiece

/-- Whatever it is compiled from, a block is not longer than it may be. -/
theorem size_compile_le {request : CompileRequest} {b : Block}
    (h : compile source request s = .ok (.ok b) s') : b.size ≤ max request.maxInstructions 1 := by
  simp only [compile] at h
  obtain ⟨piece, t, hpiece, h⟩ := bind_eq_ok h
  -- The first instruction is refused, is followed by more, ends the block, or is a branch
  cases piece with
  | error e => cases h
  | ok p =>
    cases p with
    | plain d =>
      obtain ⟨body, u, hbody, h⟩ := bind_eq_ok h
      cases h
      have hle := length_bodyAfter_le hbody
      show body.code.length + 1 ≤ _
      omega
    | last d =>
      cases h
      exact Nat.le_max_right _ 1
    | branch d slot =>
      cases h
      exact two_le_of_branch hpiece

end Compile

/-- A run retires no more than the instructions it has been given, and those before. -/
private theorem retired_runFrom_le {b : Block} {pc : UInt64} {retired : Nat}
    {writes : List ByteRange} {code : List DecodedWord} {m m' : Machine} {run : BlockRun}
    (h : b.runFrom pc retired writes code m = .ok run m') :
    run.exit.retired ≤ retired + code.length := by
  -- Induction on the words left
  induction code generalizing pc retired writes m with
  | nil =>
    cases h
    exact Nat.le_of_eq (b.retired_finalExit retired)
  | cons d rest ih =>
    rw [runFrom_cons] at h
    rw [List.length_cons]
    cases hd : b.runInstruction d pc m with
    | error e m₁ =>
      simp only [hd] at h
      exact nomatch h
    | ok answer m₁ =>
      simp only [hd] at h
      split at h
      · cases h
        rw [retired_exitAfter]
        omega
      · have hle := ih h
        omega

/-- A run retires no more instructions than the block has. -/
theorem retired_run_le {b : Block} {m m' : Machine} {run : BlockRun} (h : b.run m = .ok run m') :
    run.exit.retired ≤ b.size := by
  have hle := retired_runFrom_le h
  rwa [Nat.zero_add] at hle

end Block

/-! ## Caches -/

namespace BlockCache

/-- The cache compiles blocks of at most `room` instructions, and holds no longer ones. -/
structure Roomy (c : BlockCache) (room : Nat) : Prop where
  request : max c.maxInstructions 1 = room
  size_le : ∀ {k b}, c.lookup k = some b → b.size ≤ room

namespace Roomy

variable {c c' : BlockCache} {room : Nat}

/-- A new cache has no blocks, -/
theorem empty (maxInstructions : Nat) :
    (BlockCache.empty maxInstructions).Roomy (max maxInstructions 1) where
  request := rfl
  size_le h := by
    rw [lookup_empty] at h
    exact nomatch h

/-- blocks that are kept are those it had, -/
theorem keep (h : c.Roomy room) (block : Block → Bool) (failure : UInt32 → Bool) :
    (c.keep block failure).Roomy room where
  request := h.request
  size_le hb := by
    rw [lookup_keep, Option.filter_eq_some_iff] at hb
    exact h.size_le hb.1

/-- and a block that an operation adds was compiled. -/
theorem step (h : c.Roomy room) (hstep : Step c c') : c'.Roomy room := by
  cases hstep.change with
  | none => exact h
  | hit failed => exact ⟨h.request, h.size_le⟩
  | run exit => exact ⟨h.request, h.size_le⟩
  | @record _ _ start _ _ _ _ compiled _ _ hcompile =>
    cases compiled with
    | error e => exact ⟨h.request, h.size_le⟩
    | ok b =>
      -- A block that is found is the new one or one from before
      refine ⟨h.request, fun {k b'} hb' => ?_⟩
      rw [lookup_record_ok] at hb'
      split at hb'
      · cases hb'
        exact h.request ▸ Block.size_compile_le hcompile
      · exact h.size_le hb'
  | keep block failure => exact h.keep block failure

/-- So it is with any number of operations. -/
theorem steps (h : c.Roomy room) (hsteps : Steps c c') : c'.Roomy room := by
  induction hsteps with
  | refl => exact h
  | tail _ hlast ih => exact ih.step hlast

end Roomy

end BlockCache

/-! ## Calls of the recompiler -/

namespace Recompiler

/-- The recompilers that come of the settings: by calls with any budgets on any machines,
whether they succeed or fail, and by what the host may do in between. -/
inductive Reachable (settings : RecompilerSettings) : Recompiler → Prop where
  | start : Reachable settings (ofSettings settings)
  | call {r : Recompiler} (h : Reachable settings r) (budget : Nat) (m : Machine) :
    Reachable settings (stateOf (executeWithin budget (r, m))).1
  | invalidate {r : Recompiler} (h : Reachable settings r) (change : ByteRange) :
    Reachable settings (r.invalidate change)
  | resetStatistics {r : Recompiler} (h : Reachable settings r) :
    Reachable settings r.resetStatistics

variable {settings : RecompilerSettings} {r : Recompiler} {s s' : RunState} {room budget n : Nat}

/-- They have all come of it by operations on the cache. -/
theorem Reachable.operated (h : r.Reachable settings) : (ofSettings settings).Operated r := by
  induction h with
  | start => exact .refl _
  | call _ budget m ih => exact ih.trans (operates_executeWithin budget (_, m))
  | invalidate _ change ih => exact ih.trans (.invalidate _ change)
  | resetStatistics _ ih => exact ⟨ih.cache, ih.chainLimit⟩

/-- So their blocks are in bounds. -/
theorem Reachable.roomy (h : r.Reachable settings) : r.cache.Roomy settings.blockRoom :=
  (BlockCache.Roomy.empty settings.maxBlockInstructions).steps h.operated.cache

/-- A block is run as a whole at most. -/
private theorem retired_runBlock_le {b : Block} {exit : BlockExit}
    (h : runBlock b s = .ok exit s') : exit.retired ≤ b.size := by
  obtain ⟨r, m⟩ := s
  rw [runBlock_run] at h
  cases hrun : b.run m with
  | error e m' =>
    simp only [hrun] at h
    exact nomatch h
  | ok run m' =>
    simp only [hrun, EStateM.Result.ok.injEq] at h
    rw [← h.1]
    exact Block.retired_run_le hrun

/-- A chain of `links + 1` blocks at most, of which only the last one may reach the budget. -/
theorem runChain_le {b : Block} {start : UInt32} {total links : Nat}
    (hroomy : s.1.cache.Roomy room) (hlookup : s.1.cache.lookup start = some b)
    (h : runChain budget b total links s = .ok n s') :
    n ≤ total + (links + 1) * room ∧ (n ≤ total + room ∨ n < budget + room) := by
  -- Induction on the links left; a block is entered only with some of the budget left
  induction links generalizing b total s start with
  | zero =>
    obtain ⟨exit, t, hrun, hdone⟩ := bind_eq_ok h
    cases hdone
    have hle := Nat.le_trans (retired_runBlock_le hrun) (hroomy.size_le hlookup)
    omega
  | succ links ih =>
    rw [runChain_succ] at h
    cases hrun : runBlock b s with
    | error e t =>
      simp only [hrun] at h
      exact nomatch h
    | ok exit t =>
      have hle := Nat.le_trans (retired_runBlock_le hrun) (hroomy.size_le hlookup)
      have hoperated := operated_runBlock hlookup
      rw [hrun, stateOf_ok] at hoperated
      have hlinks : (links + 1 + 1) * room = (links + 1) * room + room := Nat.succ_mul _ _
      simp only [hrun] at h
      cases hnext : following budget (total + exit.retired) exit t with
      | none =>
        simp only [hnext, EStateM.Result.ok.injEq] at h
        obtain ⟨rfl, -⟩ := h
        omega
      | some next =>
        simp only [hnext] at h
        obtain ⟨hbudget, start', hlookup'⟩ := lookup_of_following hnext
        have hrest := ih (s := chained t) (hroomy.steps hoperated.cache) hlookup' h
        omega

/-- One interpreted instruction. -/
private theorem interpretOne_ok {reason : Fallback} (h : interpretOne reason s = .ok n s') :
    n = 1 := by
  rw [interpretOne_run] at h
  split at h
  · cases h
    rfl
  · exact nomatch h

/-- A call with a block retires something: if the chain is empty, the interpreter does. -/
private theorem runCached_le {start : UInt32} (hroomy : s.1.cache.Roomy room)
    (hbudget : 1 ≤ budget) (h : runCached budget start s = .ok n s') :
    1 ≤ n ∧ n ≤ (s.1.chainLimit + 1) * room ∧ n < budget + room := by
  have hroom : 1 ≤ room := hroomy.request ▸ Nat.le_max_right _ 1
  have hchains : room ≤ (s.1.chainLimit + 1) * room :=
    Nat.le_mul_of_pos_left room (Nat.succ_pos _)
  have hone : n = 1 → 1 ≤ n ∧ n ≤ (s.1.chainLimit + 1) * room ∧ n < budget + room := by omega
  have hask : asks (·.cache.lookup start) s = .ok (s.1.cache.lookup start) s := rfl
  have hlimit : asks (·.chainLimit) s = .ok s.1.chainLimit s := rfl
  rw [runCached, bind_of_ok hask] at h
  cases hlookup : s.1.cache.lookup start with
  | none =>
    simp only [hlookup] at h
    exact hone (interpretOne_ok h)
  | some b =>
    simp only [hlookup] at h
    rw [bind_of_ok hlimit] at h
    obtain ⟨retired, t, hchain, h⟩ := bind_eq_ok h
    obtain ⟨hlinks, hover⟩ := runChain_le hroomy hlookup hchain
    -- Where the chain has retired nothing, an instruction is interpreted after it
    split at h
    case isTrue => exact hone (interpretOne_ok h)
    case isFalse hsome =>
      cases h
      omega

/-- A call that succeeds has retired something, but not more than its chain may have, and it has
run past its budget by less than a block. -/
theorem Reachable.executeWithin_le (hr : s.1.Reachable settings) (hbudget : 1 ≤ budget)
    (h : executeWithin budget s = .ok n s') :
    1 ≤ n ∧ n ≤ (settings.chainLimit + 1) * settings.blockRoom ∧
      n < budget + settings.blockRoom := by
  have hroom : 1 ≤ settings.blockRoom := Nat.le_max_right _ 1
  rw [executeWithin_eq] at h
  obtain ⟨entry, t, hprepare, h⟩ := bind_eq_ok h
  have hprepared := operates_prepare s
  rw [hprepare, stateOf_ok] at hprepared
  -- Preparing may have compiled a block, but the bounds are those of the settings still
  cases entry with
  | error reason =>
    obtain rfl : n = 1 := interpretOne_ok h
    have hchains : settings.blockRoom ≤ (settings.chainLimit + 1) * settings.blockRoom :=
      Nat.le_mul_of_pos_left _ (Nat.succ_pos _)
    omega
  | ok start =>
    have hle := runCached_le (hr.roomy.steps hprepared.cache) hbudget h
    rwa [(hr.operated.trans hprepared).chainLimit] at hle

end Recompiler

/-! ## Sessions -/

/-- The engines that come of the settings. -/
def Engine.Reachable (settings : RecompilerSettings) : Engine → Prop
  | .interpreter => True
  | .recompiler r => r.Reachable settings

namespace Session

variable {settings : RecompilerSettings} {s s' : Session}

/-- A session goes on if its recompiler does. -/
theorem executeWithin_of_ok {budget n : Nat} {r r' : Recompiler} {m m' : Machine}
    (h : Recompiler.executeWithin budget (r, m) = .ok n (r', m')) :
    executeWithin budget ⟨.recompiler r, m⟩ = .ok n ⟨.recompiler r', m'⟩ := by
  simp only [executeWithin, h]

/-- An engine stays one of its settings, whether or not its call succeeds. -/
theorem reachable_executeWithin (h : s.engine.Reachable settings) (budget : Nat) :
    (stateOf (executeWithin budget s)).engine.Reachable settings := by
  obtain ⟨engine, m⟩ := s
  cases engine with
  | interpreter =>
    simp only [executeWithin]
    cases Machine.step m <;> exact trivial
  | recompiler r =>
    have hcall := Recompiler.Reachable.call h budget m
    simp only [executeWithin]
    cases hrun : Recompiler.executeWithin budget (r, m) <;> rw [hrun] at hcall <;> exact hcall

/-- Whatever the engine, it runs past its budget by less than a block. -/
theorem executeWithin_lt (h : s.engine.Reachable settings) {budget n : Nat} (hbudget : 1 ≤ budget)
    (hrun : executeWithin budget s = .ok n s') : n < budget + settings.blockRoom := by
  obtain ⟨engine, m⟩ := s
  simp only [executeWithin] at hrun
  cases engine with
  | interpreter =>
    -- The interpreter makes one step, and a block has room for one
    have hroom : 1 ≤ settings.blockRoom := Nat.le_max_right _ 1
    cases hstep : Machine.step m with
    | error e m' =>
      simp only [hstep] at hrun
      cases hrun
    | ok _ m' =>
      simp only [hstep, EStateM.Result.ok.injEq] at hrun
      omega
  | recompiler r =>
    cases hcall : Recompiler.executeWithin budget (r, m) with
    | error e t =>
      simp only [hcall] at hrun
      cases hrun
    | ok retired t =>
      simp only [hcall, EStateM.Result.ok.injEq] at hrun
      rw [← hrun.1]
      exact (Recompiler.Reachable.executeWithin_le (s := (r, m)) h hbudget hcall).2.2

end Session

/-! ## The video interface -/

namespace VideoInterface

/-- The states of a video interface: its registers may be set to anything, but only time moves
it on. -/
inductive Reachable : VideoInterface → Prop where
  | start : Reachable initial
  | stored {v : VideoInterface} (h : Reachable v) (registers : RegisterMap) :
    Reachable { v with registers }
  | advance {v : VideoInterface} (h : Reachable v) (cycles : UInt64) :
    Reachable (v.advance cycles).1

/-- After any time the next line has not been reached yet. -/
theorem lineCycles_advance_lt (v : VideoInterface) (cycles : UInt64) :
    (v.advance cycles).1.lineCycles.toNat < cyclesPerLine := by
  rw [advance, toNat_lineCycles_endLines]
  exact Nat.mod_lt _ cyclesPerLine_pos

/-- So it is in all states. -/
theorem Reachable.lineCycles_lt {v : VideoInterface} (h : v.Reachable) :
    v.lineCycles.toNat < cyclesPerLine := by
  induction h with
  | start => exact cyclesPerLine_pos
  | stored _ registers ih => exact ih
  | @advance v _ cycles => exact v.lineCycles_advance_lt cycles

/-- So there always is something left of the line. -/
theorem cyclesToNextLine_bounds {v : VideoInterface} (h : v.lineCycles.toNat < cyclesPerLine) :
    1 ≤ v.cyclesToNextLine ∧ v.cyclesToNextLine ≤ cyclesPerLine := by
  rw [cyclesToNextLine]
  omega

end VideoInterface

/-! ## Consoles -/

namespace Machine

/-- What the boot ROM leaves concerns the CPU and other devices; -/
theorem vi_afterBootRom {m m' : Machine} (h : m.afterBootRom = .ok m') : m'.bus.vi = m.bus.vi := by
  rw [afterBootRom] at h
  cases hsp : bootedSignalProcessor m.bus.sp m.bus.cartridge with
  | error e =>
    rw [hsp] at h
    exact nomatch h
  | ok sp =>
    rw [hsp] at h
    rw [← Except.ok.inj h]

/-- Whatever the main memory is, the video interface is another device. -/
private theorem vi_withRdram (m : Machine) (cpu : Cpu) (rdram : Rdram) :
    (Machine.mk cpu { m.bus with rdram }).bus.vi = m.bus.vi := rfl

/-- and so does what the boot code leaves. -/
theorem vi_afterBootCode (m : Machine) (rdramSize : Nat) :
    (m.afterBootCode rdramSize).bus.vi = m.bus.vi := vi_withRdram m _ _

/-- Starting a machine leaves its video interface alone. -/
theorem vi_boot {m m' : Machine} {mode : BootMode} {rdramSize : Nat}
    (h : m.boot mode rdramSize = .ok m') : m'.bus.vi = m.bus.vi := by
  rw [boot.eq_def] at h
  cases mode with
  | pifRom => rw [← Except.ok.inj h]
  | hle => exact vi_afterBootRom h
  | direct =>
    cases hboot : m.afterBootRom with
    | error e =>
      rw [hboot] at h
      exact nomatch h
    | ok m₁ =>
      rw [hboot] at h
      rw [← Except.ok.inj h, vi_afterBootCode, vi_afterBootRom hboot]

end Machine

namespace Console

/-- The consoles that there can be.  Between ticks the host may do what it likes to the machine
and to the cycles. -/
inductive Reachable : Console → Prop where
  | start {cartridge : Cartridge} {settings : Settings} {c : Console}
    (h : ofCartridge cartridge settings = .ok c) : Reachable c
  | tick {c : Console} (h : Reachable c) : Reachable (stateOf (tick c))
  | loadPifRom {c : Console} (h : Reachable c) (bytes : ByteArray) : Reachable (c.loadPifRom bytes)
  | handled {c : Console} (h : Reachable c) (machine : Machine) (hvideo : machine.bus.vi.Reachable)
    (cycles : Nat) :
    Reachable { c with session := { c.session with machine }, cycles }

variable {c c' : Console} {n : Nat}

/-- A console has an engine of its settings, and is somewhere on a line of video. -/
structure InLine (c : Console) : Prop where
  engine : c.session.engine.Reachable c.settings.recompiler
  video : c.session.machine.bus.vi.lineCycles.toNat < VideoInterface.cyclesPerLine

/-- A new console has just started a line. -/
theorem inLine_ofCartridge {cartridge : Cartridge} {settings : Settings}
    (h : ofCartridge cartridge settings = .ok c) : c.InLine := by
  rw [ofCartridge] at h
  cases hboot : (Session.start cartridge settings).machine.boot settings.boot
      settings.rdramSize with
  | error e =>
    simp only [hboot] at h
    exact nomatch h
  | ok machine =>
    simp only [hboot] at h
    cases h
    constructor
    case engine =>
      -- The engine is fresh, and no time has passed
      show (Engine.ofSettings settings).Reachable settings.recompiler
      rw [Engine.ofSettings]
      split
      · exact .start
      · exact trivial
    case video =>
      show machine.bus.vi.lineCycles.toNat < _
      rw [Machine.vi_boot hboot]
      exact VideoInterface.cyclesPerLine_pos

/-- A tick may run past the end of the line, but the devices catch up and start another one. -/
theorem InLine.tick (h : c.InLine) : (stateOf c.tick).InLine := by
  obtain ⟨session, settings, cycles, pifRomLoaded⟩ := c
  simp only [Console.tick]
  split
  · exact h
  · have hengine := Session.reachable_executeWithin h.engine
      session.machine.bus.vi.cyclesToNextLine
    have hvideo := (Session.works_executeWithin session.machine.bus.vi.cyclesToNextLine
      session).lineCycles_eq
    cases hrun : Session.executeWithin session.machine.bus.vi.cyclesToNextLine session with
    | error e session' =>
      rw [hrun, stateOf_error] at hengine hvideo
      exact ⟨hengine, (congrArg UInt64.toNat hvideo).trans_lt h.video⟩
    | ok elapsed session' =>
      rw [hrun, stateOf_ok] at hengine
      refine ⟨hengine, ?_⟩
      -- An interrupt of the video interface leaves its time alone
      show (session'.machine.bus.advanceVideo elapsed).vi.lineCycles.toNat < _
      rw [Bus.advanceVideo]
      dsimp only
      split <;> exact VideoInterface.lineCycles_advance_lt _ _

/-- So it is with every console. -/
theorem Reachable.inLine (h : c.Reachable) : c.InLine := by
  induction h with
  | start h => exact inLine_ofCartridge h
  | tick _ ih => exact ih.tick
  | loadPifRom _ bytes ih => exact ⟨ih.engine, ih.video⟩
  | handled _ machine hvideo cycles ih => exact ⟨ih.engine, hvideo.lineCycles_lt⟩

/-- A tick that succeeds is a run of the engine to the end of the line, after which the devices
catch up. -/
theorem engine_of_tick (h : c.tick = .ok n c') :
    ∃ session, Session.executeWithin c.session.machine.bus.vi.cyclesToNextLine c.session =
      .ok n session ∧
      c' = { c with
        session := { session with machine := catchUp n session.machine }
        cycles := c.cycles + n } := by
  -- Without a boot ROM the tick is refused; otherwise the engine decides
  obtain ⟨session, settings, cycles, pifRomLoaded⟩ := c
  simp only [Console.tick] at h
  split at h
  case isTrue => cases h
  case isFalse =>
    cases hrun : Session.executeWithin session.machine.bus.vi.cyclesToNextLine session with
    | error e session' =>
      rw [hrun] at h
      cases h
    | ok elapsed session' =>
      rw [hrun] at h
      cases h
      exact ⟨session', rfl, rfl⟩

/-- One that fails is a run of the engine that fails, unless there is none at all. -/
theorem engine_of_tick_error {e : ConsoleError} (h : c.tick = .error e c') :
    c' = c ∨ ∃ e' session, Session.executeWithin c.session.machine.bus.vi.cyclesToNextLine
      c.session = .error e' session ∧ c' = { c with session } := by
  obtain ⟨session, settings, cycles, pifRomLoaded⟩ := c
  simp only [Console.tick] at h
  split at h
  case isTrue =>
    cases h
    exact .inl rfl
  case isFalse =>
    cases hrun : Session.executeWithin session.machine.bus.vi.cyclesToNextLine session with
    | ok elapsed session' =>
      rw [hrun] at h
      cases h
    | error e' session' =>
      rw [hrun] at h
      cases h
      exact .inr ⟨e', session', rfl, rfl⟩

/-- A run of the engine makes a tick. -/
theorem tick_of_ok {session : Session}
    (hready : ¬(c.settings.boot = .pifRom && !c.pifRomLoaded) = true)
    (h : Session.executeWithin c.session.machine.bus.vi.cyclesToNextLine c.session =
      .ok n session) :
    tick c = .ok n
      { c with
        session := { session with machine := catchUp n session.machine }
        cycles := c.cycles + n } := by
  simp only [Console.tick, if_neg hready, h]

/-- For every recompiler that comes of some settings, on whatever machine, a call that succeeds
has retired at least one instruction, at most as many as its blocks have room for, and fewer than
a block more than its budget.

For every console some cycles are left of the line of video, and not more than a line has; and a
tick runs past the end of the line by less than a block. -/
theorem work_bounded :
    (∀ {settings : RecompilerSettings} {r : Recompiler}, r.Reachable settings →
      ∀ {m : Machine} {budget n : Nat} {s' : RunState}, 1 ≤ budget →
        Recompiler.executeWithin budget (r, m) = .ok n s' →
          1 ≤ n ∧ n ≤ (settings.chainLimit + 1) * max settings.maxBlockInstructions 1 ∧
            n < budget + max settings.maxBlockInstructions 1) ∧
    ∀ {c : Console}, c.Reachable →
      1 ≤ c.session.machine.bus.vi.cyclesToNextLine ∧
        c.session.machine.bus.vi.cyclesToNextLine ≤ VideoInterface.cyclesPerLine ∧
        ∀ {n : Nat} {c' : Console}, c.tick = .ok n c' →
          n < c.session.machine.bus.vi.cyclesToNextLine +
            max c.settings.recompiler.maxBlockInstructions 1 := by
  refine ⟨fun hr _ _ _ _ hbudget h => hr.executeWithin_le (s := (_, _)) hbudget h, fun hc => ?_⟩
  obtain ⟨hengine, hvideo⟩ := hc.inLine
  obtain ⟨hpos, hle⟩ := VideoInterface.cyclesToNextLine_bounds hvideo
  refine ⟨hpos, hle, fun htick => ?_⟩
  obtain ⟨session, hrun, -⟩ := engine_of_tick htick
  exact Session.executeWithin_lt hengine hpos hrun

/-! ## A tick past the end of the line -/

/-- A machine at a block of three instructions, with one cycle left of the line of video. -/
def nearLineEnd : Machine :=
  let m := Machine.loaded 0xFFFFFFFF80000100 []
    [(.rdram, 0x100, 0x24090001), (.rdram, 0x104, 0x08000040)]
  { m with bus.vi := (VideoInterface.initial.advance 2975).1 }

/-- A console with that machine, started without a boot ROM and given one later. -/
def nearingLineEnd : Console where
  session := { engine := .recompiler (.ofSettings .eager), machine := nearLineEnd }
  settings := { recompiler := .eager, boot := .pifRom }
  pifRomLoaded := true

/-- The host may give it a boot ROM. -/
theorem reachable_nearingLineEnd : nearingLineEnd.Reachable := by
  have hstart : ofCartridge .smallest nearingLineEnd.settings = .ok _ := rfl
  exact .handled (.loadPifRom (.start hstart) .empty) nearLineEnd (.advance .start _) 0

/-- The block is run as a whole with a budget of one. -/
theorem executeWithin_nearLineEnd :
    ∃ s', Recompiler.executeWithin 1 (.ofSettings .eager, nearLineEnd) = .ok 3 s' := by
  have hcheck : (nearLineEnd.firstBlock 16).any (fun b =>
      b.start == 0x100 && b.finishes nearLineEnd fun run _ => run.exit == .jumped 3) = true := by
    decide +kernel
  simp only [Option.any_eq_true, Bool.and_eq_true, Block.finishes_iff, beq_iff_eq] at hcheck
  obtain ⟨b, hb, hstart, ⟨exit, writes⟩, m', hrun, rfl⟩ := hcheck
  exact ⟨_, Recompiler.executeWithin_eager rfl rfl hb (by rw [hstart]; rfl) hrun 1⟩

/-- This is how much of the line it has left. -/
theorem cyclesToNextLine_nearingLineEnd :
    nearingLineEnd.session.machine.bus.vi.cyclesToNextLine = 1 := by
  have hcycles : (VideoInterface.initial.advance 2975).1.lineCycles.toNat = 2975 :=
    VideoInterface.toNat_lineCycles_advance (v := VideoInterface.initial) (by decide)
  show VideoInterface.cyclesPerLine - _ = 1
  exact congrArg (VideoInterface.cyclesPerLine - ·) hcycles

/-- So a tick runs past the end of the line. -/
theorem tick_nearingLineEnd : ∃ c', nearingLineEnd.tick = .ok 3 c' := by
  obtain ⟨⟨r, m⟩, hcall⟩ := executeWithin_nearLineEnd
  have hsession := Session.executeWithin_of_ok hcall
  rw [← cyclesToNextLine_nearingLineEnd] at hsession
  exact ⟨_, tick_of_ok (c := nearingLineEnd) (by decide) hsession⟩

/-- The block is run as a whole, by the recompiler with a budget of one as by a tick. -/
theorem work_bounded_nearLineEnd :
    ∃ s' c', Recompiler.executeWithin 1 (.ofSettings .eager, nearLineEnd) = .ok 3 s' ∧
      (3 ≤ (RecompilerSettings.eager.chainLimit + 1) * 16 ∧ 3 < 1 + 16) ∧
      nearingLineEnd.Reachable ∧
      nearingLineEnd.session.machine.bus.vi.cyclesToNextLine = 1 ∧
      nearingLineEnd.tick = .ok 3 c' ∧
      3 < nearingLineEnd.session.machine.bus.vi.cyclesToNextLine + 16 := by
  obtain ⟨s', hcall⟩ := executeWithin_nearLineEnd
  obtain ⟨c', htick⟩ := tick_nearingLineEnd
  obtain ⟨hcalls, hticks⟩ := work_bounded
  obtain ⟨-, hlimit, hover⟩ := hcalls .start (Nat.le_refl 1) hcall
  exact ⟨s', c', hcall, ⟨hlimit, hover⟩, reachable_nearingLineEnd, cyclesToNextLine_nearingLineEnd,
    htick, (hticks reachable_nearingLineEnd).2.2 htick⟩

end Console

end Console64
