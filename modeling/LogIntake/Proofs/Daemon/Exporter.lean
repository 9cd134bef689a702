import LogIntake.Daemon.Exporter
import LogIntake.Net.Host
import LogIntake.Proofs.Net.Address
import LogIntake.Settings.Validation

/-!
# The address of the exporter

The listen address of the exporter and its port are joined by a colon and read as a socket address. Between brackets
every address is understood, but an address of eight groups is written without them, and then it is refused. No demand
on the settings tells the two apart, and the address on which connections are accepted is understood either way: its
port is not a part of the text.
-/

namespace LogIntake

/-- The settings with another text for the address of the exporter. -/
def Settings.exportingAt (s : Settings) (text : String) : Settings :=
  { s with metrics := { s.metrics with listenAddr := text } }

namespace IpAddress

variable {ip : IpAddress} {port : UInt16}

/-- The socket address on a port of an address, in no zone. -/
def on : IpAddress → UInt16 → SocketAddress
  | .v4 ip, port => .v4 ip port
  | .v6 ip, port => .v6 ip 0 port

/-- The text of an address in front of a port. -/
def hostText : IpAddress → String
  | .v4 ip => ip.text
  | .v6 ip => "[" ++ ip.text ++ "]"

theorem text_on (ip : IpAddress) (port : UInt16) : (ip.on port).text = ip.hostText ++ ":" ++ port.toNat.repr := by
  cases ip with
  | v4 ip => rfl
  | v6 ip =>
      apply String.toList_inj.mp
      rw [on, SocketAddress.toList_text_v6]
      simp [hostText]

/-! ## The address of the listener -/

theorem allBlank_text (ip : IpAddress) : Text.allBlank ip.text = false := by
  have hsign : ∃ c ∈ ip.text.toList, Text.isBlank c = false := by
    cases ip with
    | v4 ip => exact ⟨'.', by simp [text, Ipv4.toList_text], by decide⟩
    | v6 ip =>
        obtain ⟨gs, cs, htext⟩ := AddressText.exists_text_eq ip
        exact ⟨':', by simp [text, htext], by decide⟩
  obtain ⟨c, hmem, hblank⟩ := hsign
  rw [Text.allBlank, List.all_eq_false]
  exact ⟨c, hmem, by simp [hblank]⟩

theorem resolve_text (ip : IpAddress) (port : UInt16) : HostName.resolve ip.text port = .ok (ip.on port) := by
  cases ip with
  | v4 ip => simp [HostName.resolve, text, on, Ipv4.parse?_text]
  | v6 ip =>
      have hzoned : HostName.zoned? ip.text = some (ip, 0) := by
        simp [HostName.zoned?, AddressText.ipv6_text_alone, AddressText.zone, AddressText.char]
      simp [HostName.resolve, text, on, Ipv6.ipv4_parse?_text, hzoned]

end IpAddress

namespace Exporter

variable {m : Settings.Metrics}

/-! ## The address of the exporter -/

theorem address_hostText (ip : IpAddress) (h : m.listenAddr = ip.hostText) : address m = .ok (ip.on m.port) := by
  have htext : addressText m = (ip.on m.port).text := by
    rw [IpAddress.text_on, ← h]
    rfl
  rw [address, htext, SocketAddress.parse?_text]

/-- Without brackets an address of eight groups is not the front of a socket address. -/
theorem address_ipv6 (ip : Ipv6) (h : m.listenAddr = ip.text) : address m = .error .metricsAddress := by
  have htext : (addressText m).toList = ip.text.toList ++ ':' :: Nat.toDigits 10 m.port.toNat := by
    simp [addressText, h, AddressText.toString_text]
  have hnone : SocketAddress.parse? (addressText m) = none := by
    rw [SocketAddress.parse?, AddressText.whole, htext]
    simp [AddressText.socketV4, AddressText.socketV6, AddressText.ipv4_ipv6_text, AddressText.char_bracket_text]
  rw [address, hnone]

theorem validate_exportingAt (s : Settings) (text : String) : (s.exportingAt text).validate = s.validate := rfl

/-- An address of four bytes serves the exporter as it is written, one of eight groups only between brackets, while
either serves the listener as it is written; whether the settings are valid is the same for all texts. -/
theorem serves_as_written (ip : IpAddress) (s : Settings) (host : Host) :
    (match ip with
      | .v4 inner => address (s.exportingAt ip.text).metrics = .ok (.v4 inner s.metrics.port)
      | .v6 _ => address (s.exportingAt ip.text).metrics = .error .metricsAddress) ∧
    address (s.exportingAt ip.hostText).metrics = .ok (ip.on s.metrics.port) ∧
    (∀ text, (s.exportingAt text).validate = s.validate) ∧
    Text.allBlank ip.text = false ∧ host.listen ip.text s.metrics.port = host.bind (ip.on s.metrics.port) := by
  refine ⟨?_, address_hostText ip rfl, validate_exportingAt s, ip.allBlank_text, ?_⟩
  · cases ip with
    | v4 inner => exact address_hostText (m := (s.exportingAt inner.text).metrics) (.v4 inner) rfl
    | v6 inner => exact address_ipv6 inner rfl
  · rw [Host.listen, IpAddress.resolve_text]
    rfl

theorem refused_loopback :
    let ip : Ipv6 := ⟨#v[0, 0, 0, 0, 0, 0, 0, 1]⟩
    let s : Settings := { metrics := { enabled := true, listenAddr := "::1" } }
    s.metrics.listenAddr = ip.text ∧ s.metrics.port = 9100 ∧ s.validate = .ok () ∧
      HostName.resolve s.metrics.listenAddr s.metrics.port = .ok (.v6 ip 0 9100) ∧
      address s.metrics = .error .metricsAddress := by
  intro ip s
  have htext : s.metrics.listenAddr = ip.text := by decide +kernel
  have hvalid : s.validate = .ok () := by cbv
  refine ⟨htext, rfl, hvalid, ?_, address_ipv6 ip htext⟩
  rw [htext]
  exact IpAddress.resolve_text (.v6 ip) 9100

end Exporter

end LogIntake
