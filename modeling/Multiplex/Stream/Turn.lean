import Multiplex.Stream.Basic
import Multiplex.Wire.Codec

/-! One turn of an exchange at the codec. A turn may end the exchange; what its caller is to be told, and
whether the connection has to hear of it, is then left in `ending` for whoever ran the turn. An exchange ends
only once, and always as the last act of its turn. -/
namespace Multiplex

open Bytes Wire

structure Ending where
  outcome : Outcome
  announce : Bool
  deriving DecidableEq

structure Turn (κ : Type) where
  stream : Stream
  codec : κ
  history : History
  ending : Option Ending := none

namespace Turn

variable {κ : Type} [Codec κ]

def note (t : Turn κ) (level : Log.Level) (message : Bytes) : Turn κ :=
  { t with history := t.history.note level "Stream" message }

def record (t : Turn κ) (codec : κ) (c : Call) : Turn κ :=
  { t with codec, history := .call c :: t.history }

def warnStray (t : Turn κ) (what : String) : Turn κ :=
  t.note .warn (t.stream.label ++ ascii what ++ ascii t.stream.state.name)

def markPending (t : Turn κ) : Turn κ :=
  if t.stream.state = .created then { t with stream.state := .pending }
  else t.warnStray " cannot be queued in state "

def close (m : Metadata) (reason : CloseReason) (causes : List Fault) (announce : Bool) (t : Turn κ) : Turn κ :=
  if t.stream.state = .closed then
    t.note .warn (t.stream.label ++ ascii " already closed with " ++ ascii t.stream.closeReason.name
      ++ ascii ", ignoring " ++ ascii reason.name)
  else
    let t : Turn κ := { t with stream.state := .closed, stream.closeReason := reason }
    let t := t.note .debug (t.stream.label ++ ascii " closed: " ++ ascii reason.name)
    let t :=
      match reason, t.stream.sizeMismatch with
      | .ended, some n =>
        t.note .warn (t.stream.label ++ ascii ": received " ++ Decimal.write t.stream.response.body.length
          ++ ascii " bytes, content-length was " ++ Decimal.write n)
      | _, _ => t
    { t with ending := some ⟨t.stream.outcome m reason causes, announce⟩ }

/-- Tells the peer that the exchange is over and ends it, whatever the codec answers. -/
def resetAndClose (m : Metadata) (code : ErrorCode) (reason : CloseReason) (t : Turn κ) : Turn κ :=
  let (ret, codec) := Codec.reset t.codec t.stream.id code
  let t := t.record codec (.reset t.stream.id code ret)
  let t :=
    if ret = 0 then t
    else t.note .warn (t.stream.label ++ ascii ": failed to send RST_STREAM(" ++ code.text ++ ascii "), ret="
      ++ Decimal.writeInt ret.toInt)
  t.close m reason [] true

end Turn

end Multiplex
