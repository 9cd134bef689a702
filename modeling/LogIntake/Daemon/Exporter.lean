import LogIntake.Daemon.Error
import LogIntake.Log
import LogIntake.Net.Address.Parser
import LogIntake.Net.Address.Printer
import LogIntake.Settings.Basic

/-!
# The exporter of metrics

Metrics are served on a socket of their own. Its address is written as the listen address of the settings, a
colon and the port, and read as a whole.
-/

namespace LogIntake.Exporter

/-- The text of the address on which metrics are served. -/
def addressText (s : Settings.Metrics) : String :=
  s!"{s.listenAddr}:{s.port.toNat}"

/-- The address on which metrics are served. -/
def address (s : Settings.Metrics) : Except DaemonError SocketAddress :=
  match SocketAddress.parse? (addressText s) with
  | some address => .ok address
  | none => .error .metricsAddress

/-- What is to be warned of when metrics are served on an address. -/
def warnings (address : SocketAddress) : List LogLine :=
  if address.ip.isUnspecified then [⟨.warn, "metrics exporter listens on all interfaces"⟩] else []

/-- What is written when metrics are served. -/
def opened : LogLine := ⟨.info, "metrics exporter listening"⟩

end LogIntake.Exporter
