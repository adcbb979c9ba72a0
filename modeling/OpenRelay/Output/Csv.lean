import OpenRelay.Host.Record

/-!
# Tables with commas

A row is a line of fields with commas between them. A field that holds a comma, a quote or a line
break stands in quotes, and its own quotes are doubled.
-/

namespace OpenRelay.Csv

/-- Whether a field must stand in quotes. -/
def needsQuotes (field : List Char) : Bool :=
  field.any fun c => c = ',' || c = '"' || c = '\r' || c = '\n'

/-- A field as it is written. -/
def writeField (field : List Char) : List Char :=
  if needsQuotes field then
    '"' :: field.flatMap (fun c => if c = '"' then ['"', '"'] else [c]) ++ ['"']
  else field

/-- A row as it is written. -/
def writeRow (fields : List String) : String :=
  ",".intercalate (fields.map fun f => String.ofList (writeField f.toList)) ++ "\n"

/-- The names of the columns of a report. -/
def header : List String :=
  ["address", "hostname", "smtp_open", "vulnerable", "passed", "checks", "fatal", "cancelled",
   "banner_code", "error"]

/-- The row of a host. -/
def row (h : HostRecord) : List String :=
  [h.address.toString, h.hostname.getD "", toString h.smtpOpen, toString h.isVulnerable,
   toString h.passed.length, toString h.attempts.length, toString h.isFatal,
   toString h.cancelled, (h.banner.map fun r => toString r.code).getD "", h.error.getD ""]

end OpenRelay.Csv
