import Console64.Cartridge.Checksum
import Console64.Console
import Console64.Snapshot

/-! # The command line

What the program is asked for, and the text that it answers with. -/

namespace Console64

/-- What the program is asked for. -/
structure Options where
  image : String
  /-- Ticks to run. -/
  steps : Nat := 10000000
  /-- Retired instructions to show; zero leaves that to the settings. -/
  trace : Nat := 0
  /-- Only write the image with its checksum renewed. -/
  fixChecksum : Bool := false
  deriving DecidableEq, Repr, Inhabited

/-- Why the arguments cannot be used. -/
inductive UsageError where
  | helpWanted
  | missingImage
  | notANumber (option : String)
  | unknownOption (option : String)
  deriving DecidableEq, Repr, Inhabited

namespace UsageError

/-- How the program is called. -/
def usage : String := "Usage: n64 [--steps N] [--trace N] [--fix-checksum] <rom_path>"

/-- The lines shown for arguments that cannot be used. -/
def lines : UsageError → List String
  | helpWanted | missingImage => [usage]
  | notANumber option => [option ++ " expects a number", usage]
  | unknownOption option => ["Unknown option " ++ option, usage]

end UsageError

namespace Options

/-- The arguments read so far: the options, and the image if it has been named. -/
structure ArgumentState where
  image : Option String := none
  options : Options := { image := "" }

/-- The number that follows an option. -/
def readCount (option value : String) : Except UsageError Nat :=
  match Decimal.readBelow 0x10000000000000000 value.toList with
  | some n => .ok n
  | none => .error (.notANumber option)

/-- Read the arguments from left to right; later ones win. -/
def readArguments (p : ArgumentState) : List String → Except UsageError ArgumentState
  | [] => .ok p
  | "--steps" :: [] => .error (.notANumber "--steps")
  | "--steps" :: value :: rest => do
    let steps ← readCount "--steps" value
    readArguments { p with options := { p.options with steps } } rest
  | "--trace" :: [] => .error (.notANumber "--trace")
  | "--trace" :: value :: rest => do
    let trace ← readCount "--trace" value
    readArguments { p with options := { p.options with trace } } rest
  | "--fix-checksum" :: rest =>
    readArguments { p with options := { p.options with fixChecksum := true } } rest
  | "-h" :: _ | "--help" :: _ => .error .helpWanted
  | argument :: rest =>
    if argument.startsWith "--" then .error (.unknownOption argument)
    else readArguments { p with image := some argument } rest

/-- Read the arguments; an image has to be named. -/
def ofArguments (arguments : List String) : Except UsageError Options := do
  let p ← readArguments {} arguments
  match p.image with
  | some image => return { p.options with image }
  | none => throw .missingImage

/-- The settings with what the options ask for. -/
def adjust (o : Options) (s : Settings) : Settings :=
  if o.trace = 0 then s else { s with traceDepth := max s.traceDepth o.trace }

end Options

/-- A file name without its extension.  A name that only starts with a point has
none. -/
def stem (name : List Char) : List Char :=
  match name.reverse.dropWhile (· ≠ '.') with
  | _ :: c :: rest => (c :: rest).reverse
  | _ => name

/-- A path with the extension of its last part replaced. -/
def withExtension (path extension : String) : String :=
  let name := (path.toList.reverse.takeWhile (· ≠ '/')).reverse
  let folder := path.toList.take (path.toList.length - name.length)
  if name = [] || name = ['.', '.'] then path
  else String.ofList (folder ++ stem name) ++ "." ++ extension

/-- An image in the machine's own byte order, its checksum renewed. -/
def renewChecksum (contents : Except String ByteArray) : Except CartridgeError ByteArray := do
  let cartridge ← Cartridge.ofFile contents
  let (data, _) ← Checksum.update cartridge.data cartridge.chip
  return data

/-- A span of time with two places, in the largest unit that is not above it. -/
def describeDuration (nanoseconds : Nat) : String :=
  if 1000000000 ≤ nanoseconds then Decimal.quotient 2 nanoseconds 1000000000 ++ "s"
  else if 1000000 ≤ nanoseconds then Decimal.quotient 2 nanoseconds 1000000 ++ "ms"
  else if 1000 ≤ nanoseconds then Decimal.quotient 2 nanoseconds 1000 ++ "µs"
  else Decimal.quotient 2 nanoseconds 1 ++ "ns"

namespace Console

/-- The trace, newest instructions only if `wanted` says how many. -/
def traceLines (c : Console) (wanted : Nat) : List String :=
  match c.session.machine.cpu.trace with
  | none => []
  | some trace =>
    let shown := if wanted = 0 then trace.size else min wanted trace.size
    s!"--- last {shown} instructions ---" ::
      (trace.recent shown).map RetiredInstruction.describe

/-- What is shown after a run that took so many nanoseconds. -/
def report (c : Console) (wanted nanoseconds : Nat) : List String :=
  let statistics := match c.session.engine with
    | .interpreter => []
    | .recompiler r => [r.statisticsLine]
  c.traceLines wanted ++ [(RegisterSnapshot.ofCpu c.session.machine.cpu).describe] ++
    statistics ++
    [toString c.cycles ++ " cycles in " ++ describeDuration nanoseconds ++ " (" ++
      Decimal.quotient 1 (c.cycles * 1000) (max nanoseconds 1) ++ " MHz)"]

end Console

end Console64
