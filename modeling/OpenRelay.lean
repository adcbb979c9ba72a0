import OpenRelay.Target.Cursor
import OpenRelay.Smtp.Inbox
import OpenRelay.Smtp.Hostname
import OpenRelay.Main
import OpenRelay.Proofs.Conversation.Verdict
import OpenRelay.Proofs.Conversation.Lockstep
import OpenRelay.Proofs.Conversation.Order
import OpenRelay.Proofs.Conversation.Commands
import OpenRelay.Proofs.Conversation.Stops
import OpenRelay.Proofs.Conversation.Cancellation
import OpenRelay.Proofs.Conversation.Injection
import OpenRelay.Proofs.Scan.Schedule
import OpenRelay.Proofs.Scan.Secure
import OpenRelay.Proofs.Rule.Origin
import OpenRelay.Proofs.Conversation.Budget
import OpenRelay.Proofs.Scan.Launches
import OpenRelay.Proofs.Smtp.Inbox
import OpenRelay.Proofs.Scan.Clients
import OpenRelay.Proofs.Target.Enumeration
import OpenRelay.Proofs.Conversation.Classes
import OpenRelay.Proofs.Conversation.Requests
import OpenRelay.Proofs.Conversation.Extension
import OpenRelay.Proofs.Rule.Placeholder
import OpenRelay.Proofs.Conversation.Anonymity
import OpenRelay.Proofs.Smtp.RoundTrip
import OpenRelay.Proofs.Rule.Sendable
import OpenRelay.Proofs.Rule.Leftover
import OpenRelay.Proofs.Smtp.Agreement
import OpenRelay.Proofs.Smtp.LineLimit
import OpenRelay.Proofs.Smtp.Separator
import OpenRelay.Proofs.Scan.Tries
import OpenRelay.Proofs.Conversation.Deadline
import OpenRelay.Proofs.Scan.States
import OpenRelay.Proofs.Scan.Tally
import OpenRelay.Proofs.Scan.Tags
import OpenRelay.Proofs.Conversation.Notice
import OpenRelay.Proofs.Scan.Interrupted
import OpenRelay.Proofs.Rule.File
import OpenRelay.Proofs.Target.Reading
import OpenRelay.Proofs.Output.Addresses
import OpenRelay.Proofs.Target.Walks
import OpenRelay.Proofs.Smtp.Draft
import OpenRelay.Proofs.Scan.Moments
