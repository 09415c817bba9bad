import Multiplex.Scripted.Codec
import Multiplex.Wire.Transport

/-! A transport that follows a script: the return codes of its writes, what it knows of the peer, and how it answers
a request to close. -/
namespace Multiplex.Scripted

open Bytes

structure Transport where
  connected : Bool := true
  writes : Returns := {}
  negotiated : Bytes := ascii "h2"
  der : Bytes := []
  peer : PeerAddress := ⟨ascii "93.184.216.34", 443⟩
  onLose : Wire.LossReport := .clean

namespace Transport

instance : Wire.Transport Transport where
  write t _ :=
    let (ret, writes) := t.writes.next
    (ret, { t with writes })
  lose t := (t.onLose, { t with connected := false })
  isConnected t := t.connected
  peer t := t.peer
  negotiated t := t.negotiated
  certificate t :=
    if t.der.isEmpty then .absent else .unreadable (ascii "Failed to parse certificate: " ++ t.der)

end Transport

structure TransportChange where
  connected : Option Bool := none
  writeRet : Option Int32 := none
  writeQueue : Option (List Int32) := none
  negotiated : Option Bytes := none
  der : Option Bytes := none
  peer : Option PeerAddress := none
  onLose : Option Wire.LossReport := none

def Transport.change (t : Transport) (d : TransportChange) : Transport where
  connected := d.connected.getD t.connected
  writes := t.writes.change d.writeQueue d.writeRet
  negotiated := d.negotiated.getD t.negotiated
  der := d.der.getD t.der
  peer := d.peer.getD t.peer
  onLose := d.onLose.getD t.onLose

end Multiplex.Scripted
