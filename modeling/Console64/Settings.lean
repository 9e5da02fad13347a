import Console64.Device.Rdram
import Console64.Text.Blank
import Console64.Text.Decimal

/-! # Settings

How a console is set up, and how that is read from variables of the environment.
Every setting has a default, which also stands in for values that cannot be
read. -/

namespace Console64

/-- How the machine gets from reset to game code. -/
inductive BootMode where
  /-- Start in the cartridge's boot code, with the state that the boot ROM would
  leave for it. -/
  | hle
  /-- Do the boot code's copying too, and start at the cartridge's entry point. -/
  | direct
  /-- Run a boot ROM from the reset vector. -/
  | pifRom
  deriving DecidableEq, Repr, Inhabited

/-- Settings of the recompiler. -/
structure RecompilerSettings where
  enabled : Bool := false
  /-- Visits that turn an entry point hot. -/
  hotThreshold : Nat := 64
  /-- The most instructions in a block. -/
  maxBlockInstructions : Nat := 256
  /-- The most blocks run after the first one of a chain. -/
  chainLimit : Nat := 2
  deriving DecidableEq, Repr, Inhabited

/-- Settings of a console. -/
structure Settings where
  recompiler : RecompilerSettings := {}
  /-- Retired instructions kept in the trace; there is none for zero. -/
  traceDepth : Nat := 0
  /-- Installed main memory in bytes. -/
  rdramSize : Nat := Rdram.fullSize
  boot : BootMode := .hle
  deriving DecidableEq, Repr, Inhabited

namespace Settings

/-! ## Values as text -/

/-- The text without white space around it. -/
def trimmed (text : String) : List Char := trimBy isBlank text.toList

/-- The text without white space around it, in lower case as far as it is ASCII. -/
def normalized (text : String) : String := String.ofList ((trimmed text).map Char.toLower)

/-- A number below 2^32. -/
def readNumber (text : String) : Option Nat := Decimal.readBelow 0x100000000 (trimmed text)

/-- A number that may not be zero. -/
def readPositive (text : String) : Option Nat := (readNumber text).filter (0 < ·)

/-- A switch: on or off, in several words. -/
def readSwitch (text : String) : Option Bool :=
  let word := normalized text
  if word ∈ ["", "0", "off", "false", "no"] then some false
  else if word ∈ ["1", "on", "true", "yes", "threaded"] then some true
  else none

/-- A boot mode. -/
def readBootMode (text : String) : Option BootMode :=
  match normalized text with
  | "hle" => some .hle
  | "direct" => some .direct
  | "pif" | "pifrom" => some .pifRom
  | _ => none

/-- A memory size, given in MiB. -/
def readMemorySize (text : String) : Option Nat :=
  match trimmed text with
  | ['4'] => some (4 * 1024 * 1024)
  | ['8'] => some (8 * 1024 * 1024)
  | _ => none

/-! ## The environment -/

/-- The variables that settings are read from. -/
def variableNames : List String :=
  ["N64_DYNAREC", "N64_DYNAREC_HOT_THRESHOLD", "N64_DYNAREC_MAX_BLOCK_INSNS",
    "N64_DYNAREC_CHAIN_LIMIT", "N64_TRACE_DEPTH", "N64_RDRAM_SIZE", "N64_BOOT"]

/-- The settings that the variables of an environment ask for. -/
def ofEnvironment (lookup : String → Option String) : Settings :=
  let value {α : Type} (name : String) (read : String → Option α) (standard : α) : α :=
    ((lookup name).bind read).getD standard
  let standard : Settings := {}
  { recompiler :=
      { enabled := value "N64_DYNAREC" readSwitch standard.recompiler.enabled
        hotThreshold :=
          value "N64_DYNAREC_HOT_THRESHOLD" readPositive standard.recompiler.hotThreshold
        maxBlockInstructions :=
          value "N64_DYNAREC_MAX_BLOCK_INSNS" readPositive
            standard.recompiler.maxBlockInstructions
        chainLimit := value "N64_DYNAREC_CHAIN_LIMIT" readNumber standard.recompiler.chainLimit }
    traceDepth := value "N64_TRACE_DEPTH" readNumber standard.traceDepth
    rdramSize := value "N64_RDRAM_SIZE" readMemorySize standard.rdramSize
    boot := value "N64_BOOT" readBootMode standard.boot }

end Settings

end Console64
