import Multiplex.Fault

/-! Verdicts: how an operation ended. A verdict without a value succeeded when its code is success, whatever its
text; one with a value succeeded when the value is there. -/
namespace Multiplex

structure Verdict where
  code : FaultCode
  message : Bytes
  deriving DecidableEq

namespace Verdict

def done : Verdict := ⟨.success, []⟩

def failed (code : FaultCode) (message : Option Bytes) : Verdict :=
  ⟨code, message.getD (Bytes.ascii code.description)⟩

def isOk (v : Verdict) : Bool := v.code.isSuccess

theorem isOk_failed (code : FaultCode) (message : Option Bytes) :
    (failed code message).isOk = (code == .success) := rfl

end Verdict

structure Answer (α : Type) where
  verdict : Verdict
  value : Option α

namespace Answer

variable {α : Type}

def ok (value : α) : Answer α := ⟨.done, some value⟩

def failed (code : FaultCode) (message : Option Bytes) : Answer α := ⟨.failed code message, none⟩

def isOk (a : Answer α) : Bool := a.value.isSome

def valueOr (a : Answer α) (other : α) : α := a.value.getD other

@[simp] theorem valueOr_ok (value other : α) : (ok value).valueOr other = value := rfl

@[simp] theorem valueOr_failed (code : FaultCode) (message : Option Bytes) (other : α) :
    (failed code message).valueOr other = other := rfl

end Answer

end Multiplex
