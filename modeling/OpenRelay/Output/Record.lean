import OpenRelay.Host.Record
import OpenRelay.Output.Json

/-!
# Records as JSON

Every field is present, `null` where it has no value, in the order in which a reader meets them:
first what the host is, then how the check ended, then the conversation.
-/

namespace OpenRelay

/-- A reply as an object. -/
def Reply.toJson (r : Reply) : Json :=
  .obj [("code", .num r.code), ("message", .str r.text)]

/-- A rule as an object. -/
def Rule.toJson (r : Rule) : Json :=
  .obj [("helo", .str r.helo), ("mail_from", .str r.mailFrom), ("rcpt_to", .str r.rcptTo)]

/-- A failure as an object. A failure that is no refusal has no code. -/
def Failure.toJson (f : Failure) : Json :=
  .obj [("stage", .str f.stage.name), ("kind", .str f.cause.name),
    ("code", .ofOption .num f.code), ("message", .str f.message)]

/-- An attempt as an object. -/
def Attempt.toJson (a : Attempt) : Json :=
  .obj [("rule_index", .num a.ruleIndex), ("rule", a.rule.toJson),
    ("outcome", .str a.verdict.name), ("failure", .ofOption Failure.toJson a.failure),
    ("helo_request", .ofOption .str a.heloRequest),
    ("mail_from_request", .ofOption .str a.mailFromRequest),
    ("rcpt_to_request", .ofOption .str a.rcptToRequest),
    ("banner", .ofOption Reply.toJson a.banner), ("helo", .ofOption Reply.toJson a.helo),
    ("mail_from", .ofOption Reply.toJson a.mailFrom),
    ("rcpt_to", .ofOption Reply.toJson a.rcptTo),
    ("data_start", .ofOption Reply.toJson a.dataStart),
    ("data_end", .ofOption Reply.toJson a.dataEnd), ("rset", .ofOption Reply.toJson a.rset)]

/-- A record as an object. -/
def HostRecord.toJson (h : HostRecord) : Json :=
  .obj [("index", .num h.index), ("address", .str h.address.toString),
    ("hostname", .ofOption .str h.hostname), ("resolved", .bool h.resolved),
    ("smtp_open", .bool h.smtpOpen), ("fatal", .bool h.fatal),
    ("fatal_error", .bool h.fatalError), ("cancelled", .bool h.cancelled),
    ("visited", .bool h.visited), ("error", .ofOption .str h.error),
    ("banner", .ofOption Reply.toJson h.banner), ("checks", .arr (h.attempts.map Attempt.toJson)),
    ("quit", .ofOption Reply.toJson h.quit)]

end OpenRelay
