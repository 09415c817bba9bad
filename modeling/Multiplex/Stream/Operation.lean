import Multiplex.Stream.Receive
import Multiplex.Stream.Send

/-! What can be asked of an exchange, one turn for each. -/
namespace Multiplex.Turn

open Bytes Wire

variable {κ : Type} [Codec κ]

inductive Operation where
  | markPending
  | initiate
  | receiveHeaders (fields : Headers)
  | receiveData (data : Bytes) (flowLength : Nat)
  | receiveWindowUpdate
  | close (reason : CloseReason) (causes : List Fault) (announce : Bool)

def perform (m : Metadata) (op : Operation) (t : Turn κ) : Turn κ :=
  match op with
  | .markPending => t.markPending
  | .initiate => t.initiate m
  | .receiveHeaders fields => t.receiveHeaders m fields
  | .receiveData data flowLength => t.receiveData m data flowLength
  | .receiveWindowUpdate => t.receiveWindowUpdate m
  | .close reason causes announce => t.close m reason causes announce

end Multiplex.Turn
