import Multiplex.Header
import Multiplex.Peer

/-! Responses, filled in as the peer sends them. -/
namespace Multiplex

structure Response where
  status : Int32 := 0
  headers : Headers := []
  body : Bytes := []
  url : Bytes := []
  protocol : Bytes := []
  ip : Bytes := []
  certificate : Option Certificate := none
  deriving DecidableEq, Inhabited

namespace Response

def addHeader (r : Response) (name value : Bytes) : Response :=
  { r with headers := r.headers ++ [(name, value)] }

def appendBody (r : Response) (data : Bytes) : Response := { r with body := r.body ++ data }

/-- Appends at most `length` bytes of a buffer; a missing buffer adds nothing. -/
def appendFrom (r : Response) (buffer : Option Bytes) (length : Nat) : Response :=
  match buffer with
  | some data => r.appendBody (data.take length)
  | none => r

@[simp] theorem body_appendBody (r : Response) (data : Bytes) : (r.appendBody data).body = r.body ++ data :=
  rfl

@[simp] theorem headers_addHeader (r : Response) (name value : Bytes) :
    (r.addHeader name value).headers = r.headers ++ [(name, value)] := rfl

end Response

end Multiplex
