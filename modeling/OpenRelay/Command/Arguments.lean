import OpenRelay.Text.Number
import OpenRelay.Text.Pieces

/-!
# Arguments of the command line

Options have long names, and some a short one. A parameter takes a value: the next argument, what
follows an equals sign, or what follows a short name directly. Each option is given once at most,
but for the one that makes the output more verbose. There are no other arguments.

A value that stands in an argument of its own is kept until the next option, or the end, shows
that it is complete; only then is it read. An argument that cannot be placed at all is therefore
reported before a faulty value just in front of it.

* `Arguments`: the options with the values given or taken for granted.
* `Arguments.parse`: reads a command line.
-/

namespace OpenRelay

/-- Options that take no value. -/
inductive Switch where
  | resolve
  | sendData
  | allowLargeScan
  | vulnerableOnly
  | ipsOnly
  | verbose
  | help
  | version
deriving DecidableEq

/-- Options that take a value. -/
inductive Parameter where
  | range
  | targetsFile
  | rulesFile
  | externalDomain
  | relayAddress
  | threads
  | connectTimeout
  | readTimeout
  | mailTimeout
  | port
  | maxTargets
  | format
  | out
deriving DecidableEq

/-- An option of either kind. -/
inductive Choice where
  | switch (s : Switch)
  | parameter (p : Parameter)
deriving DecidableEq

/-- The long name. -/
def Switch.name : Switch → String
  | .resolve => "resolve"
  | .sendData => "send-data"
  | .allowLargeScan => "allow-large-scan"
  | .vulnerableOnly => "vulnerable-only"
  | .ipsOnly => "ips-only"
  | .verbose => "verbose"
  | .help => "help"
  | .version => "version"

/-- The long name. -/
def Parameter.name : Parameter → String
  | .range => "range"
  | .targetsFile => "targets-file"
  | .rulesFile => "rules-file"
  | .externalDomain => "external-domain"
  | .relayAddress => "relay-address"
  | .threads => "threads"
  | .connectTimeout => "connect-timeout"
  | .readTimeout => "read-timeout"
  | .mailTimeout => "mail-timeout"
  | .port => "port"
  | .maxTargets => "max-targets"
  | .format => "format"
  | .out => "out"

namespace Choice

/-- All options, in the order in which they are explained. -/
def all : List Choice :=
  [.parameter .range, .parameter .targetsFile, .parameter .rulesFile, .parameter .externalDomain,
   .parameter .relayAddress, .parameter .threads, .parameter .connectTimeout,
   .parameter .readTimeout, .parameter .mailTimeout, .parameter .port, .switch .resolve,
   .switch .sendData, .parameter .maxTargets, .switch .allowLargeScan, .parameter .format,
   .parameter .out, .switch .vulnerableOnly, .switch .ipsOnly, .switch .verbose, .switch .help,
   .switch .version]

/-- The long name. -/
def name : Choice → String
  | .switch s => s.name
  | .parameter p => p.name

/-- The short name, if there is one. -/
def letter? : Choice → Option Char
  | .parameter .relayAddress => some 'b'
  | .switch .ipsOnly => some 'q'
  | .switch .verbose => some 'v'
  | .switch .help => some 'h'
  | .switch .version => some 'V'
  | _ => none

/-- The option with a long name. -/
def ofLong? (name : String) : Option Choice := all.find? fun c => c.name = name

/-- The option with a short name. -/
def ofShort? (letter : Char) : Option Choice := all.find? fun c => c.letter? = some letter

/-- Every option is explained. -/
theorem mem_all (c : Choice) : c ∈ all := by
  cases c with
  | switch s => cases s <;> decide
  | parameter p => cases p <;> decide

end Choice

/-- Why a command line is not carried out. -/
inductive UsageError where
  | unknownArgument
  /-- An option is given twice, or two options exclude each other. -/
  | conflict
  /-- Neither a range nor a list of targets is given. -/
  | missingTargets
  /-- A parameter has no value, or an empty one where a path is needed. -/
  | missingValue
  /-- A value cannot be read. -/
  | badValue
  /-- A switch is given a value. -/
  | needlessValue
  /-- The user asks for help. -/
  | help
  /-- The user asks for the version. -/
  | version
deriving DecidableEq

/-- The options of a command line. -/
structure Arguments where
  range : Option String := none
  targetsFile : Option String := none
  rulesFile : Option String := none
  externalDomain : String := "relay-test.invalid"
  relayAddress : Option String := none
  threads : Nat := 32
  /-- In seconds, as are the other timeouts. -/
  connectTimeout : Nat := 10
  readTimeout : Nat := 30
  mailTimeout : Nat := 60
  port : Nat := 25
  resolve : Bool := false
  sendData : Bool := false
  maxTargets : Nat := 65536
  allowLargeScan : Bool := false
  format : String := "human"
  out : Option String := none
  vulnerableOnly : Bool := false
  ipsOnly : Bool := false
  verbose : Nat := 0
deriving DecidableEq

namespace Arguments

/-- The largest number that a 64-bit word can hold. -/
def maxWord : Nat := 0xFFFFFFFFFFFFFFFF

/-- The most times that verbosity is counted. -/
def maxVerbose : Nat := 255

/-- Reads a number that fits into a word. -/
def readWord (s : String) : Except UsageError Nat :=
  match Text.readUnsigned? maxWord s.toList with
  | some n => .ok n
  | none => .error .badValue

/-- Reads a port. A sign is taken as long as the number is one that ports have. -/
def readPort (s : String) : Except UsageError Nat :=
  match Text.readSigned? s.toList with
  | some n => if 0 ≤ n ∧ n ≤ 65535 then .ok n.toNat else .error .badValue
  | none => .error .badValue

/-- Reads a path. It must not be empty. -/
def readPath (s : String) : Except UsageError String :=
  if s.isEmpty then .error .missingValue else .ok s

/-- Sets a parameter to a value. -/
def set (a : Arguments) (p : Parameter) (value : String) : Except UsageError Arguments :=
  match p with
  | .range => .ok { a with range := some value }
  | .targetsFile => do return { a with targetsFile := some (← readPath value) }
  | .rulesFile => do return { a with rulesFile := some (← readPath value) }
  | .externalDomain => .ok { a with externalDomain := value }
  | .relayAddress => .ok { a with relayAddress := some value }
  | .threads => do return { a with threads := ← readWord value }
  | .connectTimeout => do return { a with connectTimeout := ← readWord value }
  | .readTimeout => do return { a with readTimeout := ← readWord value }
  | .mailTimeout => do return { a with mailTimeout := ← readWord value }
  | .port => do return { a with port := ← readPort value }
  | .maxTargets => do return { a with maxTargets := ← readWord value }
  | .format => .ok { a with format := value }
  | .out => .ok { a with out := some value }

/-- Turns a switch on. -/
def turnOn (a : Arguments) : Switch → Except UsageError Arguments
  | .resolve => .ok { a with resolve := true }
  | .sendData => .ok { a with sendData := true }
  | .allowLargeScan => .ok { a with allowLargeScan := true }
  | .vulnerableOnly => .ok { a with vulnerableOnly := true }
  | .ipsOnly => .ok { a with ipsOnly := true }
  | .verbose => .ok { a with verbose := min (a.verbose + 1) maxVerbose }
  | .help => .error .help
  | .version => .error .version

/-! ## Reading a command line -/

/-- A parameter whose value is still to be read. -/
structure Pending where
  parameter : Parameter
  value : Option String := none
deriving DecidableEq

/-- A command line read in part. -/
structure Reading where
  arguments : Arguments := {}
  /-- The options given so far. -/
  given : List Choice := []
  pending : Option Pending := none
deriving DecidableEq

namespace Reading

/-- Notes that an option is given. Only verbosity may be asked for again. -/
def note (r : Reading) (c : Choice) : Except UsageError Reading :=
  if c ∈ r.given ∧ c ≠ .switch .verbose then .error .conflict
  else .ok { r with given := c :: r.given }

/-- Gives a parameter its value. -/
def assign (r : Reading) (p : Parameter) (value : String) : Except UsageError Reading := do
  let r ← r.note (.parameter p)
  return { r with arguments := ← r.arguments.set p value }

/-- Reads the value that was kept. -/
def settle (r : Reading) : Except UsageError Reading :=
  match r.pending with
  | none => .ok r
  | some { parameter := _, value := none } => .error .missingValue
  | some { parameter, value := some value } => { r with pending := none }.assign parameter value

/-- Takes a switch. -/
def takeSwitch (r : Reading) (s : Switch) : Except UsageError Reading := do
  let r ← r.settle
  match s with
  | .help => .error .help
  | .version => .error .version
  | s => do
    let r ← r.note (.switch s)
    return { r with arguments := ← r.arguments.turnOn s }

/-- Takes a parameter, with its value if that is attached. -/
def takeParameter (r : Reading) (p : Parameter) (attached : Option String) :
    Except UsageError Reading := do
  let r ← r.settle
  match attached with
  | some value => r.assign p value
  | none => return { r with pending := some { parameter := p } }

/-- Takes an argument that opens with two hyphens, without these. -/
def takeLong (r : Reading) (text : List Char) : Except UsageError Reading :=
  let (name, attached) := match Text.splitFirst '=' text with
    | some (name, value) => (name, some (String.ofList value))
    | none => (text, none)
  match Choice.ofLong? (String.ofList name), attached with
  | none, _ => .error .unknownArgument
  | some (.parameter p), _ => r.takeParameter p attached
  | some (.switch _), some _ => .error .needlessValue
  | some (.switch s), none => r.takeSwitch s

/-- Takes an argument that opens with one hyphen, without it: short names one after the other, the
rest behind a parameter being its value. -/
def takeShort (r : Reading) : List Char → Except UsageError Reading
  | [] => .ok r
  | c :: rest =>
    match Choice.ofShort? c with
    | none => .error .unknownArgument
    | some (.switch s) => do (← r.takeSwitch s).takeShort rest
    | some (.parameter p) =>
      match rest with
      | [] => r.takeParameter p none
      | '=' :: value => r.takeParameter p (some (String.ofList value))
      | value => r.takeParameter p (some (String.ofList value))

/-- Takes an argument that is no option: it is a value if a parameter waits for one. -/
def takeValue (r : Reading) (value : String) : Except UsageError Reading :=
  match r.pending with
  | some { parameter, value := none } =>
    .ok { r with pending := some { parameter, value := some value } }
  | _ => .error .unknownArgument

/-- Takes the arguments. Behind two hyphens alone there is no option, so nothing can be placed. -/
def takeAll (r : Reading) : List String → Except UsageError Reading
  | [] => r.settle
  | argument :: rest =>
    match argument.toList with
    | ['-', '-'] => if rest.isEmpty then r.settle else .error .unknownArgument
    | '-' :: '-' :: text => do (← r.takeLong text).takeAll rest
    | '-' :: c :: text => do (← r.takeShort (c :: text)).takeAll rest
    | _ => do (← r.takeValue argument).takeAll rest

end Reading

/-- Reads a command line. The targets are a range or a list, and not both. -/
def parse (arguments : List String) : Except UsageError Arguments := do
  let r ← ({} : Reading).takeAll arguments
  let a := r.arguments
  if a.range.isSome ∧ a.targetsFile.isSome then .error .conflict
  else if a.range.isNone ∧ a.targetsFile.isNone then .error .missingTargets
  else .ok a

end Arguments

end OpenRelay
