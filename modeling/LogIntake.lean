import LogIntake.Framing.Decoder
import LogIntake.Main
import LogIntake.Queue.Session
import LogIntake.Settings.Environment
import LogIntake.Settings.Files
import LogIntake.Proofs.Framing.Answers
import LogIntake.Proofs.Framing.Recovery
import LogIntake.Proofs.Connection.Reader
import LogIntake.Proofs.Queue.Flow
import LogIntake.Proofs.Queue.Traffic
import LogIntake.Proofs.Connection.Worker
import LogIntake.Proofs.Listener
import LogIntake.Proofs.Site
import LogIntake.Proofs.Delivery
import LogIntake.Proofs.Execution
import LogIntake.Proofs.Connection.Outcome
import LogIntake.Proofs.Connection.Cancellation
import LogIntake.Proofs.Daemon.Execution
import LogIntake.Proofs.Daemon.Career
import LogIntake.Proofs.Metrics
import LogIntake.Proofs.Settings.Building
import LogIntake.Proofs.Settings.Layering
import LogIntake.Proofs.Connection.Balance
import LogIntake.Proofs.Site.Accounts
import LogIntake.Proofs.Site.Grace
import LogIntake.Proofs.Site.Timed
import LogIntake.Proofs.Connection.Prospect
import LogIntake.Proofs.Connection.Verdict
import LogIntake.Proofs.Connection.Heading
import LogIntake.Proofs.Site.Timetable
import LogIntake.Proofs.Site.Ending
import LogIntake.Proofs.Site.Fares
import LogIntake.Proofs.Site.Isolation
import LogIntake.Proofs.Site.Accepting
import LogIntake.Proofs.Framing.Desync
import LogIntake.Proofs.Framing.Reuse
import LogIntake.Proofs.Framing.Limits
import LogIntake.Proofs.Connection.Retention
import LogIntake.Proofs.Queue.Counting
import LogIntake.Proofs.Queue.Discipline
import LogIntake.Proofs.Queue.Closing
import LogIntake.Proofs.Connection.Coherence
import LogIntake.Proofs.Connection.Deadline
import LogIntake.Proofs.Service.Lifecycle
import LogIntake.Proofs.Framing.Safety
import LogIntake.Proofs.Settings.RoundTrip
import LogIntake.Proofs.Service.Construction
import LogIntake.Proofs.Framing.Resumption
import LogIntake.Proofs.Daemon.Exporter
