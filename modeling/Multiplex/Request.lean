import Multiplex.Header

/-! Requests. A negative size limit asks for the limit of the connection. -/
namespace Multiplex

structure Request where
  method : Bytes := Bytes.ascii "GET"
  url : Bytes := []
  headers : Headers := []
  body : Bytes := []
  maxSize : Int := -1
  warnSize : Int := -1
  deriving DecidableEq, Inhabited

namespace Request

def addHeader (r : Request) (name value : Bytes) : Request :=
  { r with headers := r.headers ++ [(name, value)] }

def withBody (r : Request) (body : Bytes) : Request := { r with body }

def withLimits (r : Request) (maxSize warnSize : Int) : Request := { r with maxSize, warnSize }

end Request

end Multiplex
