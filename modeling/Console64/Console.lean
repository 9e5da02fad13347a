import Console64.Engine.Basic

/-! # The console

A machine under its engine, started from a cartridge and kept in step with the
video interface: after each run of the engine as many cycles pass there as
instructions were retired, and the interrupt controller's line is driven anew. -/

namespace Console64

/-- Why a console cannot start or go on. -/
inductive ConsoleError where
  | cartridge (cause : CartridgeError)
  | bus (cause : BusError)
  /-- The boot ROM is to be run, but there is none. -/
  | missingPifRom
  deriving DecidableEq, Repr, Inhabited

/-- The text shown for a failure. -/
def ConsoleError.message : ConsoleError → String
  | .cartridge cause => "ROM error: " ++ cause.message
  | .bus cause => "bus error: " ++ cause.message
  | .missingPifRom => "PIF boot requested but no PIF ROM was loaded"

namespace Machine

/-- Where the cartridge's boot code starts, in the signal processor's memory. -/
def bootEntry : UInt64 := 0xFFFFFFFFA4000040

/-- The most game code that the boot code copies, in bytes. -/
def bootCopyLimit : Nat := 0x100000

/-- Where in main memory its size is left for the game. -/
def memorySizeOffset : Nat := 0x318

/-- The coprocessor registers that the boot ROM leaves behind. -/
def bootedRegisters (c : Cop0) : Cop0 :=
  let c := (c.put Cop0.count 0x5000).put Cop0.config 0x0006E463
  let c := (c.put Cop0.epc 0xFFFFFFFF).put Cop0.errorEpc 0xFFFFFFFF
  (c.put Cop0.context 0x007FFFF0).setCause 0xB000007C

/-- The CPU as the boot ROM leaves it. -/
def bootedCpu (c : Cpu) (chip : BootChip) (tv : TvStandard) : Cpu :=
  let c := { c with cop0 := bootedRegisters c.cop0 }.writeStatus 0x34000000
  let gpr := chip.initialRegisters tv c.gpr
  { c with gpr }.jumpTo bootEntry

/-- The signal processor as the boot ROM leaves it, with the boot code in its
memory. -/
def bootedSignalProcessor (s : SignalProcessor) (cartridge : Cartridge) :
    Except BusError SignalProcessor := do
  let bootCode := (cartridge.data.extract 0 BootChip.bootCodeStop).toList
  let s ← s.halt.loadMemory 0 bootCode
  if cartridge.chip = .x105 then
    s.loadMemory 0x1000 (BootChip.x105Fragment.flatMap fun w => BigEndian.bytes 4 w.toUInt64)
  else return s

/-- The state that the boot ROM hands to the cartridge's boot code. -/
def afterBootRom (m : Machine) : Except BusError Machine := do
  let cartridge := m.bus.cartridge
  let sp ← bootedSignalProcessor m.bus.sp cartridge
  let bus := { m.bus with sp, mi := m.bus.mi.setVersion MipsInterface.retailVersion }
  return ⟨bootedCpu m.cpu cartridge.chip cartridge.header.tv, bus⟩

/-- The state that the boot code hands to the game: the start of the game code
copied to its entry point, and the size of main memory noted. -/
def afterBootCode (m : Machine) (rdramSize : Nat) : Machine :=
  let entry := m.bus.cartridge.header.entryPoint
  let start := BootChip.bootCodeStop
  let game := (m.bus.cartridge.data.extract start (start + bootCopyLimit)).toList
  -- The entry point is an address of a direct segment
  let rdram := m.bus.rdram.store (entry &&& 0x1FFFFFFF).toNat game
  let rdram := rdram.storeWord memorySizeOffset (UInt32.ofNat rdramSize)
  ⟨m.cpu.jumpTo (signExtend32 entry), { m.bus with rdram }⟩

/-- A machine started in a boot mode. -/
def boot (m : Machine) (mode : BootMode) (rdramSize : Nat) : Except BusError Machine :=
  match mode with
  | .pifRom => .ok { m with cpu := m.cpu.jumpTo Cop0.resetVector }
  | .hle => m.afterBootRom
  | .direct => return (← m.afterBootRom).afterBootCode rdramSize

end Machine

/-- A console that has been started. -/
structure Console where
  session : Session
  settings : Settings
  /-- Instructions retired so far, one cycle each. -/
  cycles : Nat := 0
  pifRomLoaded : Bool := false

/-- Work on a console that may fail.  What was done before the failure stays
done. -/
abbrev ConsoleM := EStateM ConsoleError Console

/-- When the host asks a run to stop: whether it has, when that is looked up for
the `n`-th time, counted from zero. -/
abbrev StopRequest := Nat → Bool

namespace StopRequest

/-- A request that is never made. -/
def never : StopRequest := fun _ => false

/-- A request made before the `n`-th look. -/
def before (n : Nat) : StopRequest := fun k => n ≤ k

end StopRequest

/-- How a run ended. -/
inductive RunOutcome where
  /-- The host asked for it. -/
  | stopped
  /-- The most ticks allowed were used up. -/
  | exhausted
  deriving DecidableEq, Repr, Inhabited

namespace Console

/-- A console started with a cartridge in its slot. -/
def ofCartridge (cartridge : Cartridge) (settings : Settings) : Except ConsoleError Console := do
  let session := Session.start cartridge settings
  match session.machine.boot settings.boot settings.rdramSize with
  | .ok machine => return { session := { session with machine }, settings }
  | .error e => throw (.bus e)

/-- A console started from a file, or from what the host says instead of its
contents. -/
def ofFile (contents : Except String ByteArray) (settings : Settings) :
    Except ConsoleError Console := do
  match Cartridge.ofFile contents with
  | .ok cartridge => ofCartridge cartridge settings
  | .error e => throw (.cartridge e)

/-- Install a boot ROM. -/
def loadPifRom (c : Console) (bytes : ByteArray) : Console :=
  let machine := c.session.machine
  let bus := machine.bus
  { c with
    session.machine := { machine with bus := { bus with pif := bus.pif.loadRom bytes } }
    pifRomLoaded := true }

/-- Let the other devices catch up with `elapsed` instructions. -/
def catchUp (elapsed : Nat) : Machine → Machine := fun ⟨cpu, bus⟩ =>
  let bus := bus.advanceVideo elapsed
  ⟨{ cpu with cop0 := cpu.cop0.driveLine 2 bus.mi.asserted }, bus⟩

/-- Let the engine run once and the devices catch up; the answer is the number of
cycles.  Blocks are chained up to the next line of video at most, so that its
interrupt is seen about where the interpreter takes it. -/
def tick : ConsoleM Nat := fun ⟨session, settings, cycles, pifRomLoaded⟩ =>
  if settings.boot = .pifRom && !pifRomLoaded then
    .error .missingPifRom ⟨session, settings, cycles, pifRomLoaded⟩
  else
    let budget := session.machine.bus.vi.cyclesToNextLine
    match Session.executeWithin budget session with
    | .ok elapsed ⟨engine, machine⟩ =>
      .ok elapsed ⟨⟨engine, catchUp elapsed machine⟩, settings, cycles + elapsed, pifRomLoaded⟩
    -- A fault leaves the devices and the cycles as they were
    | .error e session => .error (.bus e) ⟨session, settings, cycles, pifRomLoaded⟩

/-- Tick until the host asks to stop, which is looked up before each tick, at
most `limit` times.  `looks` of them were before. -/
def runFrom (stop : StopRequest) (looks : Nat) : (limit : Nat) → ConsoleM RunOutcome
  | 0 => return .exhausted
  | limit + 1 => do
    if stop looks then return .stopped
    discard tick
    runFrom stop (looks + 1) limit

/-- Tick until the host asks to stop, at most `limit` times. -/
def run (stop : StopRequest) (limit : Nat) : ConsoleM RunOutcome := runFrom stop 0 limit

/-- Tick several times. -/
def tickTimes : (ticks : Nat) → ConsoleM Unit
  | 0 => return ()
  | ticks + 1 => do
    discard tick
    tickTimes ticks

/-- Tick `ticks` times; the answer is the number of cycles that took. -/
def runFor (ticks : Nat) : ConsoleM Nat := do
  let before := (← get).cycles
  tickTimes ticks
  return (← get).cycles - before

end Console

end Console64
