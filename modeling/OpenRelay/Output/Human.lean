import OpenRelay.Scan.Report

/-!
# Reports for people

A host takes one line, with a tag for the state it is in, and one more line for each attempt that
went through. The counts follow.

* `HostRecord.tag`: the state of a host. The first that fits in the order of `Tag` is taken.
* `Report.human`, `Report.addresses`: the report, or the bare addresses of its hosts.
-/

namespace OpenRelay

/-- The states of a host in a report, the most telling first. -/
inductive Tag where
  | relay
  | fatal
  | skipped
  | closed
  | secure
deriving DecidableEq

/-- What is printed for a state. All tags are equally wide. -/
def Tag.label : Tag → String
  | .relay => "[RELAY]   "
  | .fatal => "[FATAL]   "
  | .skipped => "[SKIPPED] "
  | .closed => "[CLOSED]  "
  | .secure => "[SECURE]  "

namespace HostRecord

/-- The state of a host. -/
def tag (h : HostRecord) : Tag :=
  if h.isVulnerable then .relay
  else if h.isFatal then .fatal
  else if h.cancelled then .skipped
  else if !h.smtpOpen then .closed
  else .secure

/-- The address and, if it has one, the name. -/
def title (h : HostRecord) : String :=
  h.address.toString ++ (h.hostname.map fun name => " (" ++ name ++ ")").getD ""

/-- How many attempts were refused for now. -/
def temporary (h : HostRecord) : Nat := h.attempts.countP Attempt.isTemporary

/-- What is said about a host behind its title. -/
def remark (h : HostRecord) : String :=
  match h.tag with
  | .relay => s!" :: {h.passed.length}/{h.attempts.length} rule(s) relayed"
  | .fatal => " :: " ++ h.error.getD "unknown error"
  | .skipped => ""
  | .closed => " :: " ++ h.error.getD "no answer"
  | .secure =>
    s!" :: {h.attempts.length} rule(s) refused" ++
      if 0 < h.temporary then s!", {h.temporary} temporarily (retry later)" else ""

/-- The line of a host. -/
def line (h : HostRecord) : String := h.tag.label ++ h.title ++ h.remark

end HostRecord

/-- The line of an attempt that went through. -/
def Attempt.line (a : Attempt) : String :=
  s!"          rule {a.ruleIndex}: HELO {a.rule.helo} / MAIL FROM:<{a.rule.mailFrom}> / " ++
  s!"RCPT TO:<{a.rule.rcptTo}>"

/-- The lines of a host. -/
def HostRecord.lines (h : HostRecord) : List String := h.line :: h.passed.map Attempt.line

/-- Lines as text. -/
def unlines (lines : List String) : String := String.join (lines.map (· ++ "\n"))

namespace Report

/-- The lines behind the hosts: the counts, and a notice if the scan was interrupted. -/
def closing (r : Report) : List String :=
  toString r.tally ::
    if r.cancelled then ["scan interrupted before every host was checked"] else []

/-- The report on some of its hosts. -/
def human (r : Report) (rows : List HostRecord) : String :=
  unlines (rows.flatMap HostRecord.lines ++ r.closing)

/-- The bare addresses of some hosts. -/
def addresses (rows : List HostRecord) : String :=
  unlines (rows.map fun h => h.address.toString)

end Report

end OpenRelay
