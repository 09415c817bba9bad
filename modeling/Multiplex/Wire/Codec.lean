import Multiplex.Fault
import Multiplex.Wire.Event
import Multiplex.Wire.Settings

/-! The frame codec seen from a connection: it turns received bytes into events, and calls into bytes that wait
to be sent. Calls about a stream answer with a return code, zero for success. -/
namespace Multiplex.Wire

class Codec (κ : Type) where
  /-- The events in some received bytes, or why the bytes are not acceptable. -/
  receive : κ → Bytes → Except Fault (List Event) × κ
  /-- All bytes that wait to be sent; afterwards none do. -/
  takeOutput : κ → Bytes × κ
  initiate : κ → Settings → κ
  close : κ → ErrorCode → κ
  sendHeaders : κ → UInt32 → Headers → Bool → Int32 × κ
  sendData : κ → UInt32 → Bytes → Bool → Int32 × κ
  reset : κ → UInt32 → ErrorCode → Int32 × κ
  /-- Returns received bytes to the peer's send window. -/
  acknowledge : κ → Nat → UInt32 → κ
  window : κ → UInt32 → Int32
  maxFrame : κ → UInt32
  localLimit : κ → UInt32
  remoteLimit : κ → UInt32
  openOutbound : κ → UInt32
  openInbound : κ → UInt32

def Codec.streamLimit {κ : Type} [Codec κ] (c : κ) : UInt32 := min (localLimit c) (remoteLimit c)

end Multiplex.Wire
