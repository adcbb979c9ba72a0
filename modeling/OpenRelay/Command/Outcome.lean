import OpenRelay.Command.Configure
import OpenRelay.Output.Csv
import OpenRelay.Output.Human
import OpenRelay.Output.Record
import OpenRelay.Scan.Launcher

/-!
# What the command does

* `Arguments.rows`: the hosts that are reported.
* `Format.write`: the report in one of the output formats.
* `Ending`: how a run of the command ends, seen from outside.
* `Command.run`: the whole command, given the files and the network.
-/

namespace OpenRelay

/-- The formats of a report. -/
inductive Format where
  | human
  | json
  | ndjson
  | csv
deriving DecidableEq

/-- The format with a name. -/
def Format.ofName? : String → Option Format
  | "human" => some .human
  | "json" => some .json
  | "ndjson" => some .ndjson
  | "csv" => some .csv
  | _ => none

namespace Arguments

/-- The format asked for. -/
def readFormat (a : Arguments) : Except Explanation Format :=
  match Format.ofName? a.format with
  | some f => .ok f
  | none => .error ["unknown --format '" ++ a.format ++ "', use: human|json|ndjson|csv"]

/-- The hosts that are reported, in scan order. -/
def rows (a : Arguments) (r : Report) : List HostRecord :=
  r.hosts.filter fun h => !a.vulnerableOnly || h.isVulnerable

/-- What is shown to people. -/
def human (a : Arguments) (r : Report) : String :=
  if a.ipsOnly then Report.addresses (a.rows r) else r.human (a.rows r)

/-- The report in a format. -/
def write (a : Arguments) (r : Report) : Format → String
  | .human => a.human r
  | .json => (Json.arr ((a.rows r).map HostRecord.toJson)).pretty
  | .ndjson => unlines ((a.rows r).map fun h => h.toJson.compact)
  | .csv => String.join ((Csv.header :: (a.rows r).map Csv.row).map Csv.writeRow)

/-- The report as it is printed. Only the document of the JSON format lacks a final line feed. -/
def print (a : Arguments) (r : Report) : Format → String
  | .json => a.write r .json ++ "\n"
  | f => a.write r f

end Arguments

/-- How a run of the command ends. -/
structure Ending where
  code : Nat
  stdout : String := ""
  /-- The explanation of a failure. -/
  fault : Option Explanation := none
  /-- The file that is written, with its path. -/
  file : Option (String × String) := none
deriving DecidableEq

namespace Command

/-- The code of a run that found an open relay. -/
def relayCode : Nat := 2

/-- The code of a run that failed. -/
def faultCode : Nat := 1

/-- The code of a run that broke off. -/
def crashCode : Nat := 101

/-- The code of a run whose command line is not understood. -/
def usageCode : Nat := 2

/-- The ending once its file is written. A file that cannot be written is a failure. -/
def afterWriting (e : Ending) (writeFault? : String → Option Explanation) : Ending :=
  match e.file.bind fun (path, _) => writeFault? path with
  | none => e
  | some fault => { code := faultCode, fault := some fault }

/-- Delivers a report: people read it at once, other formats go to a file if one is named. -/
def deliver (a : Arguments) (r : Report) : Ending :=
  let code := if r.vulnerable.isEmpty then 0 else relayCode
  match a.readFormat with
  | .error fault => { code := faultCode, fault := some fault }
  | .ok .human => { code, stdout := a.print r .human }
  | .ok f =>
    match a.out with
    | none => { code, stdout := a.print r f }
    | some path => { code, file := some (path, a.write r f) }

/-- Delivers what a scan found out. A scan that could not start a task is a failure, but what was
found out before is delivered all the same. -/
def conclude (a : Arguments) (targets : Targets) (s : Dispatch.State) : Ending :=
  let e := deliver a (Dispatch.report targets s)
  match e.fault, s.abandoned with
  | none, some left =>
    { e with code := faultCode, fault := some ["scan failed", left.message, left.reason] }
  | _, _ => e

/-- Whether a run breaks off before its scan: at the finest log level the deadline of a host is
worked out, and no duration may be able to hold it. -/
def breaksOff (a : Arguments) (s : Settings) : Bool :=
  a.logLevel = .debug && s.hostDeadline?.isNone

/-- The settings to scan with, or how the run ends without a scan. -/
def prepare (files : Files) (a : Arguments) : Except Ending Settings :=
  match a.settings files with
  | .error fault => .error { code := faultCode, fault := some fault }
  | .ok s => if breaksOff a s then .error { code := crashCode } else .ok s

/-- What the command finds around it. -/
structure Surroundings where
  files : Files
  /-- Why a file cannot be written to a path, if so. -/
  writeFault? : String → Option Explanation
  /-- How a host answers. -/
  peer : Address → Peer

/-- Carries out a command line that was understood. -/
def execute (around : Surroundings) (a : Arguments) : Ending :=
  match prepare around.files a with
  | .error e => e
  | .ok s =>
    let probe index address := probe s (around.peer address) false index address
    let state := (({} : Launcher).scan s probe false).state
    afterWriting (conclude a s.targets state) around.writeFault?

/-- The whole command. -/
def run (around : Surroundings) (arguments : List String) : Except UsageError Ending :=
  (Arguments.parse arguments).map (execute around)

end Command

end OpenRelay
