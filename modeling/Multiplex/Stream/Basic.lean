import Multiplex.History
import Multiplex.Request
import Multiplex.Url

/-! One exchange: the request with the part of its body that is still unsent, and the response received so far. -/
namespace Multiplex

open Bytes

structure Metadata where
  baseUrl : Url := {}
  peer : PeerAddress := {}
  certificate : Option Certificate := none
  maxSize : Int := 0
  warnSize : Int := 0
  deriving DecidableEq

structure Stream where
  id : UInt32
  ticket : Ticket
  request : Request
  unsent : Bytes
  maxSize : Int
  warnSize : Int
  state : StreamState := .created
  closeReason : CloseReason := .ended
  requestSent : Bool := false
  warned : Bool := false
  headersReceived : Bool := false
  expectedSize : Option Nat := none
  response : Response := {}
  deriving DecidableEq

namespace Stream

def new (id : UInt32) (ticket : Ticket) (request : Request) (m : Metadata) : Stream where
  id := id
  ticket := ticket
  request := request
  unsent := request.body
  maxSize := if 0 ≤ request.maxSize then request.maxSize else m.maxSize
  warnSize := if 0 ≤ request.warnSize then request.warnSize else m.warnSize

def isClosed (s : Stream) : Bool := s.state == .closed

def label (s : Stream) : Bytes := ascii "Stream " ++ Decimal.write s.id.toNat

def abandonedMessage (s : Stream) : Bytes :=
  s.label ++ ascii " destroyed in state " ++ ascii s.state.name ++ ascii " without being closed"

/-- The fields of a request: four of the protocol, those of the caller under lower-case names, and the length of
a body whose length the caller does not give. -/
def requestFields (s : Stream) (url : Url) : Headers :=
  let own := s.request.headers.map fun h => (lower h.1, h.2)
  let length := ascii "content-length"
  [(ascii ":method", s.request.method), (ascii ":authority", url.authority), (ascii ":scheme", url.scheme),
      (ascii ":path", url.path)] ++ own ++
    if !s.request.body.isEmpty && !own.any (·.1 == length) then
      [(length, Decimal.write s.request.body.length)]
    else []

def finalResponse (s : Stream) (m : Metadata) : Response :=
  { s.response with
    url := s.request.url
    protocol := ascii "h2"
    ip := m.peer.host
    certificate := m.certificate }

def closeMessage (s : Stream) (m : Metadata) : CloseReason → Bytes
  | .reset => s.label ++ ascii " was reset"
  | .connectionLost => ascii "Connection lost after request was sent"
  | .inactive => ascii "Connection closed before request was sent"
  | .maxsizeExceeded => ascii "Response size exceeded download max size " ++ Decimal.writeInt s.maxSize
  | .invalidHostname =>
    ascii "Request url " ++ s.request.url ++ ascii " does not match connection " ++ m.baseUrl.authority
  | .ended | .unlisted _ => []

def outcome (s : Stream) (m : Metadata) (reason : CloseReason) (causes : List Fault) : Outcome where
  reason := reason
  code := reason.faultCode
  message := s.closeMessage m reason
  causes := causes
  response := if reason = .ended then s.finalResponse m else {}

@[simp] theorem reason_outcome (s : Stream) (m : Metadata) (r : CloseReason) (cs : List Fault) :
    (s.outcome m r cs).reason = r := rfl

@[simp] theorem causes_outcome (s : Stream) (m : Metadata) (r : CloseReason) (cs : List Fault) :
    (s.outcome m r cs).causes = cs := rfl

/-- A response whose body differs in size from what was announced. -/
def sizeMismatch (s : Stream) : Option Nat :=
  match s.expectedSize with
  | some n => if s.response.body.length = n then none else some n
  | none => none

end Stream

end Multiplex
