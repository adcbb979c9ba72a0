import OpenRelay.Command.Outcome
import OpenRelay.Command.Usage
import OpenRelay.Network.Tasks

/-!
# The program

Reads the files that the command line names, scans, and delivers the report.
-/

namespace OpenRelay

/-- The bytes of a file, or why they cannot be had. -/
def readFile (path : String) : IO (Except String (List UInt8)) :=
  SystemFault.catchIn do return (← IO.FS.readBinFile path).toList

/-- The files that a command line names. -/
def Arguments.readFiles (a : Arguments) : IO Files := do
  let contents ← (a.targetsFile.toList ++ a.rulesFile.toList).mapM fun path =>
    return (path, ← readFile path)
  return fun path => (contents.lookup path).getD (.error "file was not read")

/-- Writes a file as a whole or not at all, and says why if it cannot be written. -/
def writeFile? (path text : String) : IO (Option Explanation) := do
  let draft := path ++ ".tmp"
  match ← SystemFault.catchIn (IO.FS.writeFile draft text) with
  | .error e => return some [e]
  | .ok () =>
    match ← SystemFault.catchIn (IO.FS.rename draft path) with
    | .error e => return some ["rename " ++ draft ++ " -> " ++ path, e]
    | .ok () => return none

/-- Writes the file of an ending. -/
def Ending.write (e : Ending) : IO Ending := do
  match e.file with
  | none => return e
  | some (path, text) =>
    let fault? ← writeFile? path text
    return Command.afterWriting e fun _ => fault?

/-- Carries out a command line that was understood. -/
def Arguments.carryOut (a : Arguments) : IO Ending := do
  match Command.prepare (← a.readFiles) a with
  | .error ending => return ending
  | .ok s =>
    let state ← s.scanNetwork (← Interrupt.watch)
    (Command.conclude a s.targets state).write

end OpenRelay

open OpenRelay

/-- Runs the program and gives its code. -/
def main (arguments : List String) : IO UInt32 := do
  match Arguments.parse arguments with
  | .error .help => IO.println Usage.help; return 0
  | .error .version => IO.println Usage.version; return 0
  | .error e =>
    IO.eprintln s!"error: {e.message}"
    IO.eprintln Usage.call
    return Command.usageCode.toUInt32
  | .ok a =>
    let ending ← a.carryOut
    IO.print ending.stdout
    if let some fault := ending.fault then IO.eprintln ("Error: " ++ fault.line)
    return ending.code.toUInt32
