import OpenRelay.Command.Arguments

/-!
# What is said about the command line

* `Usage.help`: the options and what they are for.
* `UsageError.message`: what is wrong with a command line.
-/

namespace OpenRelay

/-- What an option is for. -/
def Choice.purpose : Choice → String
  | .parameter .range => "range: a.b.c.d-e.f.g.h, or per-octet spans such as 10.0.0-3.*"
  | .parameter .targetsFile => "one IPv4 address per line, # comments allowed"
  | .parameter .rulesFile => "rule file, one helo|mail_from|rcpt_to per line"
  | .parameter .externalDomain => "foreign domain used by the built-in rules"
  | .parameter .relayAddress => "mailbox you control (name@domain), implies --send-data"
  | .parameter .threads => "maximum number of hosts probed at once"
  | .parameter .connectTimeout => "TCP connect timeout (seconds)"
  | .parameter .readTimeout => "per-reply timeout (seconds)"
  | .parameter .mailTimeout => "timeout after the DATA terminator (seconds)"
  | .parameter .port => "TCP port to connect to"
  | .parameter .maxTargets => "refuse larger scans unless --allow-large-scan is given"
  | .parameter .format => "format: human|json|ndjson|csv"
  | .parameter .out => "write the report to a file (not for human)"
  | .switch .resolve => "reverse-resolve every target before connecting"
  | .switch .sendData => "send a short test message on accepted relays"
  | .switch .allowLargeScan => "scan whatever the number of targets"
  | .switch .vulnerableOnly => "only report hosts that relayed at least once"
  | .switch .ipsOnly => "human format: print bare addresses, no summary"
  | .switch .verbose => "-v for info, -vv for debug"
  | .switch .help => "print this text"
  | .switch .version => "print the version"

namespace Usage

/-- The name of the command. -/
def command : String := "openrelay"

/-- The names of an option, and a mark for its value if it takes one. -/
def names (c : Choice) : String :=
  let letter := match c.letter? with
    | some l => "  -" ++ l.toString ++ ", "
    | none => "      "
  let value := match c with
    | .switch _ => ""
    | .parameter _ => " <VALUE>"
  letter ++ "--" ++ c.name ++ value

/-- The width of the column of names. -/
def column : Nat := 34

/-- The line of an option. -/
def line (c : Choice) : String :=
  (names c).pushn ' ' (column - (names c).length) ++ c.purpose

/-- How the command is called. -/
def call : String := "Usage: " ++ command ++ " [OPTIONS] --range <VALUE> | --targets-file <VALUE>"

/-- The options and what they are for. -/
def help : String :=
  "\n".intercalate
    (["Scan IPv4 ranges for open SMTP relays", "", call, "", "Options:"] ++ Choice.all.map line)

/-- The name of the command and its version. -/
def version : String := command ++ " 0.1.0"

end Usage

/-- What is wrong with a command line, or what its user wants to know. -/
def UsageError.message : UsageError → String
  | .unknownArgument => "unknown argument"
  | .conflict => "an option is given twice, or two options exclude each other"
  | .missingTargets => "either --range or --targets-file is needed"
  | .missingValue => "an option lacks its value"
  | .badValue => "the value of an option cannot be read"
  | .needlessValue => "an option that takes no value is given one"
  | .help => Usage.help
  | .version => Usage.version

end OpenRelay
