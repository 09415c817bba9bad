import Multiplex.Bytes

/-! Header fields in the order of the message, repetitions kept. Names are compared without regard to letter
case, as terminated texts of equal length: a zero byte in both ends the comparison. -/
namespace Multiplex

open Bytes

abbrev Headers := List (Bytes × Bytes)

namespace Header

def nameEq (a b : Bytes) : Bool :=
  a.length == b.length && lower (untilNul a) == lower (untilNul b)

def find (headers : Headers) (name : Bytes) : Option Bytes :=
  (headers.find? fun h => nameEq h.1 name).map (·.2)

def isPseudo (name : Bytes) : Bool := name.head? == some 58

@[simp] theorem nameEq_refl (a : Bytes) : nameEq a a = true := by simp [nameEq]

theorem nameEq_comm (a b : Bytes) : nameEq a b = nameEq b a := by
  simp only [nameEq, Bool.beq_comm]

@[simp] theorem find_nil (name : Bytes) : find [] name = none := rfl

end Header

end Multiplex
