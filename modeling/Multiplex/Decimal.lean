import Multiplex.Bytes

/-! Decimal numerals. Reading stops short of a limit without ever forming a larger number: before a digit is
appended, the number read so far is compared with what still fits. -/
namespace Multiplex.Decimal

open Bytes

def write (n : Nat) : Bytes := (Nat.toDigits 10 n).map fun c => UInt8.ofNat c.toNat

def writeInt (n : Int) : Bytes := if n < 0 then 45 :: write n.natAbs else write n.natAbs

def digitValue (b : UInt8) : Nat := b.toNat - 48

def value (s : Bytes) : Nat := s.foldl (fun n b => 10 * n + digitValue b) 0

def extend (limit : Nat) : Nat → Bytes → Option Nat
  | n, [] => some n
  | n, b :: s =>
    if isDigit b = false then none
    else if (limit - digitValue b) / 10 < n then none
    else extend limit (10 * n + digitValue b) s

def readUpTo (limit : Nat) (s : Bytes) : Option Nat :=
  if s.isEmpty then none else extend limit 0 s

def largest : Nat := 9223372036854775807

def read (s : Bytes) : Option Nat := readUpTo largest s

/-- Reads into a place that may be missing; a refused numeral leaves the place as it was. -/
def readInto (place : Option Int) (s : Bytes) : Bool × Option Int :=
  match place, read s with
  | some _, some n => (true, some n)
  | place, _ => (false, place)

@[simp] theorem readUpTo_nil (limit : Nat) : readUpTo limit [] = none := rfl

theorem extend_le {limit n m : Nat} {s : Bytes} (hn : n ≤ limit) (hl : 9 ≤ limit)
    (h : extend limit n s = some m) : m ≤ limit := by
  induction s generalizing n with
  | nil => simp [extend] at h; omega
  | cons b s ih =>
    by_cases hb : isDigit b = false
    · simp [extend, hb] at h
    by_cases hg : (limit - digitValue b) / 10 < n
    · simp [extend, hb, hg] at h
    have hd : digitValue b ≤ 9 := by
      have : 48 ≤ b ∧ b ≤ 57 := by simpa [isDigit] using hb
      have := UInt8.le_iff_toNat_le.1 this.2
      simp [digitValue] at this ⊢
      omega
    refine ih (n := 10 * n + digitValue b) ?_ (by simpa [extend, hb, hg] using h)
    have := Nat.div_mul_le_self (limit - digitValue b) 10
    omega

end Multiplex.Decimal
