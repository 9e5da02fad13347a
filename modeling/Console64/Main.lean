import Console64.CommandLine

/-! # The program

Reads the arguments, the environment and the image, runs the console, and shows
what comes of it. -/

namespace Console64

/-- The contents of a file, or what the host says instead. -/
def readImage (path : String) : IO (Except String ByteArray) := do
  try
    return .ok (← IO.FS.readBinFile path)
  catch e => return .error (toString e)

/-- The settings that the environment asks for. -/
def readSettings : IO Settings := do
  let values ← Settings.variableNames.mapM fun name => return (name, ← IO.getEnv name)
  return .ofEnvironment fun name => (values.lookup name).join

/-- Write a file; the answer is what the host says when it cannot. -/
def writeImage (path : String) (data : ByteArray) : IO (Except CartridgeError Unit) := do
  try
    IO.FS.writeBinFile path data
    return .ok ()
  catch e => return .error (.unreadable (toString e))

/-- Write the image with its checksum renewed. -/
def writeRenewed (path : String) : IO UInt32 := do
  let target := withExtension path "z64"
  let written ← match renewChecksum (← readImage path) with
    | .error e => pure (.error e)
    | .ok data => writeImage target data
  match written with
  | .error e =>
    IO.eprintln ("Checksum update failed: " ++ e.message)
    return 1
  | .ok () =>
    IO.println ("wrote " ++ target)
    return 0

/-- Run a console and show what comes of it. -/
def runAndReport (options : Options) (console : Console) : IO UInt32 := do
  let started ← IO.monoNanosNow
  let result ← IO.lazyPure fun _ => Console.runFor options.steps console
  let elapsed := (← IO.monoNanosNow) - started
  let (failure, console) := match result with
    | .ok _ console => (none, console)
    | .error e console => (some e, console)
  for line in console.report options.trace elapsed do
    IO.println line
  match failure with
  | none => return 0
  | some e =>
    IO.eprintln ("Emulation stopped: " ++ e.message)
    return 1

/-- Start a console and run it. -/
def startConsole (options : Options) : IO UInt32 := do
  let settings := options.adjust (← readSettings)
  match Console.ofFile (← readImage options.image) settings with
  | .ok console => runAndReport options console
  | .error e =>
    IO.eprintln ("Failed to load ROM: " ++ e.message)
    return 1

end Console64

open Console64 in
def main (arguments : List String) : IO UInt32 := do
  match Options.ofArguments arguments with
  | .error e =>
    for line in e.lines do
      IO.eprintln line
    return 1
  | .ok options =>
    if options.fixChecksum then writeRenewed options.image else startConsole options
