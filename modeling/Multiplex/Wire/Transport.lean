import Multiplex.Fault
import Multiplex.Peer

/-! The byte transport under a connection. A request to close it may be answered at once, with or without a
cause, or later. -/
namespace Multiplex.Wire

inductive LossReport where
  | later
  | clean
  | failed (cause : Fault)
  deriving DecidableEq

class Transport (τ : Type) where
  /-- Hands bytes over; zero for success. -/
  write : τ → Bytes → Int32 × τ
  lose : τ → LossReport × τ
  isConnected : τ → Bool
  peer : τ → PeerAddress
  /-- The protocol agreed on in the handshake; empty for none. -/
  negotiated : τ → Bytes
  certificate : τ → CertificateReport

end Multiplex.Wire
