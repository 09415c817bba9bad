import Multiplex.Decimal

/-! The other end of a connection: the address that was dialled and the certificate that it showed. -/
namespace Multiplex

structure PeerAddress where
  host : Bytes := []
  port : UInt16 := 0
  deriving DecidableEq, Inhabited

def PeerAddress.text (a : PeerAddress) : Bytes :=
  let port := 58 :: Decimal.write a.port.toNat
  if 58 ∈ a.host then 91 :: a.host ++ 93 :: port else a.host ++ port

structure Certificate where
  der : Bytes
  subject : Bytes
  deriving DecidableEq

/-- What a transport knows of the peer's certificate: nothing, why it cannot be read, or the certificate. -/
inductive CertificateReport where
  | absent
  | unreadable (why : Bytes)
  | shown (certificate : Certificate)
  deriving DecidableEq

end Multiplex
