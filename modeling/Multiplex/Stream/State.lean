import Multiplex.Fault
import Multiplex.Response

/-! How far an exchange has come, why it ended, and what its caller is told. -/
namespace Multiplex

inductive StreamState where
  | created
  | pending
  | opened
  | halfClosed
  | closed
  deriving DecidableEq, Inhabited

namespace StreamState

def name : StreamState → String
  | created => "CREATED"
  | pending => "PENDING_ADMISSION"
  | opened => "OPEN"
  | halfClosed => "HALF_CLOSED_LOCAL"
  | closed => "CLOSED"

def all : List StreamState := [created, pending, opened, halfClosed, closed]

def nameOf (n : UInt8) : String := (all[n.toNat]?.map name).getD "UNKNOWN"

def rank : StreamState → Nat
  | created => 0
  | pending => 1
  | opened => 2
  | halfClosed => 3
  | closed => 4

end StreamState

/-- Why an exchange ended. A number without a meaning is carried along. -/
inductive CloseReason where
  | ended
  | reset
  | connectionLost
  | inactive
  | maxsizeExceeded
  | invalidHostname
  | unlisted (number : UInt8)
  deriving DecidableEq, Inhabited

namespace CloseReason

def name : CloseReason → String
  | ended => "ENDED"
  | reset => "RESET"
  | connectionLost => "CONNECTION_LOST"
  | inactive => "INACTIVE"
  | maxsizeExceeded => "MAXSIZE_EXCEEDED"
  | invalidHostname => "INVALID_HOSTNAME"
  | unlisted _ => "UNKNOWN"

def faultCode : CloseReason → FaultCode
  | ended => .success
  | reset => .streamReset
  | connectionLost => .streamConnectionLost
  | inactive => .streamInactive
  | maxsizeExceeded => .streamMaxsizeExceeded
  | invalidHostname => .streamInvalidHostname
  | unlisted _ => .unknown

def ofNumber (n : UInt8) : CloseReason :=
  [ended, reset, connectionLost, inactive, maxsizeExceeded, invalidHostname].getD n.toNat (unlisted n)

end CloseReason

structure Outcome where
  reason : CloseReason := .ended
  code : FaultCode := .success
  message : Bytes := []
  causes : List Fault := []
  response : Response := {}
  deriving DecidableEq, Inhabited

def Outcome.isOk (o : Outcome) : Bool := o.reason == .ended

end Multiplex
