import LogIntake.Net.Address.Printer
import LogIntake.Text.Utf8

/-!
# Records

A record is a payload with its origin: the peer and the connection it came on, and its place among the
records of that connection.
-/

namespace LogIntake

structure Record where
  payload : Bytes
  peer : SocketAddress
  connection : Nat
  /-- How many records of the connection came before. -/
  sequence : Nat
  deriving DecidableEq, Repr

namespace Record

/-- The payload as text. -/
def text (r : Record) : String :=
  Utf8.lossy r.payload

/-- Where the record came from. -/
def source (r : Record) : String :=
  s!"tcp:{r.peer.text}#{r.connection}"

end Record

end LogIntake
