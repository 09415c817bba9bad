import Mathlib.Data.List.Induction
import Mathlib.Data.Nat.Digits.Defs
import Multiplex.Proofs.Field

/-! Reading a numeral with signed words. Every number that is formed on the way is checked to be one that its word can
hold. None fails the check, whatever the text and however long, so that words read what numbers without a bound read:
the number that the digits denote if it is at most the largest length, and nothing otherwise. -/
namespace Multiplex.Decimal

open Bytes

theorem le_toNat_of_isDigit {b : UInt8} (h : isDigit b = true) : 48 ≤ b.toNat := by
  have hb : 48 ≤ b ∧ b ≤ 57 := by simpa [isDigit] using h
  exact UInt8.le_iff_toNat_le.1 hb.1

theorem extend_cons (limit n : Nat) (b : UInt8) (s : Bytes) :
    extend limit n (b :: s) = (extend limit n [b]).bind fun next => extend limit next s := by
  rw [extend, extend]
  split
  · rfl
  · split <;> rfl

namespace Word

def fit (bits : Nat) (n : Int) : Option Int := if -2 ^ (bits - 1) ≤ n ∧ n < 2 ^ (bits - 1) then some n else none

theorem fit_natCast {bits n : Nat} (h : n < 2 ^ (bits - 1)) : fit bits n = some (n : Int) := by
  have hpow : ((2 ^ (bits - 1) : Nat) : Int) = 2 ^ (bits - 1) := Int.natCast_pow 2 (bits - 1)
  exact if_pos ⟨by omega, by omega⟩

def largest : Int := 2 ^ 63 - 1

/-- Takes one byte more after the number read so far: the number that follows, or nothing if the byte is refused. There
is no answer at all if a number on the way is one that its word cannot hold. -/
def step (n : Int) (b : UInt8) : Option (Option Int) := do
  if isDigit b = false then return none
  let digit ← fit 32 (b.toNat - 48)
  let room ← fit 64 (largest - digit)
  let bound ← fit 64 (room.tdiv 10)
  if bound < n then return none
  let tens ← fit 64 (n * 10)
  let next ← fit 64 (tens + digit)
  return some next

def extend (n : Int) : Bytes → Option (Option Int)
  | [] => some (some n)
  | b :: s =>
    match step n b with
    | some (some next) => extend next s
    | refused => refused

def readInto (place : Option Int) (s : Bytes) : Option (Bool × Option Int) :=
  if s.isEmpty ∨ place.isNone then some (false, place)
  else (extend 0 s).map fun
    | some n => (true, some n)
    | none => (false, place)

theorem step_eq {n : Nat} (hn : n ≤ Decimal.largest) (b : UInt8) :
    step n b = some ((Decimal.extend Decimal.largest n [b]).map Int.ofNat) := by
  have hlargest : Decimal.largest = 2 ^ 63 - 1 := rfl
  rw [step, Decimal.extend]
  by_cases hb : isDigit b = false
  · simp [hb]
  have hd : digitValue b ≤ 9 := digitValue_le (by simpa using hb)
  have hdigit : fit 32 (b.toNat - 48) = some (digitValue b : Int) := by
    have hlow : 48 ≤ b.toNat := le_toNat_of_isDigit (by simpa using hb)
    rw [show (b.toNat : Int) - 48 = digitValue b from (Int.ofNat_sub hlow).symm]
    exact fit_natCast (by omega)
  have hroom : fit 64 (largest - digitValue b) = some ((Decimal.largest - digitValue b : Nat) : Int) := by
    rw [show largest - (digitValue b : Int) = (Decimal.largest - digitValue b : Nat) by rw [largest]; omega]
    exact fit_natCast (by omega)
  have hbound : fit 64 (((Decimal.largest - digitValue b : Nat) : Int).tdiv 10) =
      some (((Decimal.largest - digitValue b) / 10 : Nat) : Int) := by
    rw [show ((Decimal.largest - digitValue b : Nat) : Int).tdiv 10 = ((Decimal.largest - digitValue b) / 10 : Nat)
      from (Int.ofNat_tdiv _ 10).symm]
    exact fit_natCast (by omega)
  rw [if_neg hb, if_neg hb]
  simp only [Option.bind_eq_bind]
  rw [hdigit, Option.bind_some, hroom, Option.bind_some, hbound, Option.bind_some]
  simp only [Int.ofNat_lt]
  by_cases hover : (Decimal.largest - digitValue b) / 10 < n
  · rw [if_pos hover, if_pos hover]
    rfl
  -- the guard admits the digit, so neither the product nor the sum leaves the word
  have hfits : 10 * n + digitValue b ≤ Decimal.largest := Nat.not_lt.1 (mt (guard_iff (by omega)).2 hover)
  have htens : fit 64 (n * 10) = some ((10 * n : Nat) : Int) := by
    rw [show (n : Int) * 10 = (10 * n : Nat) by omega]
    exact fit_natCast (by omega)
  have hnext : fit 64 (((10 * n : Nat) : Int) + digitValue b) = some ((10 * n + digitValue b : Nat) : Int) :=
    fit_natCast (by omega)
  rw [if_neg hover, if_neg hover, htens, Option.bind_some, hnext]
  rfl

theorem extend_eq {n : Nat} (hn : n ≤ Decimal.largest) (s : Bytes) :
    extend n s = some ((Decimal.extend Decimal.largest n s).map Int.ofNat) := by
  induction s generalizing n with
  | nil => rfl
  | cons b s ih =>
    rw [extend, step_eq hn b, Decimal.extend_cons _ n b s]
    cases hnext : Decimal.extend Decimal.largest n [b] with
    | none => rfl
    | some next => exact ih (extend_le hn (by decide) hnext)

/-- No number on the way is too large for its word, and words read what numbers read. -/
theorem readInto_eq (place : Option Int) (s : Bytes) : readInto place s = some (Decimal.readInto place s) := by
  unfold readInto Decimal.readInto read readUpTo
  by_cases hs : s.isEmpty
  · rw [if_pos (.inl hs), if_pos hs]
    cases place <;> rfl
  · rw [if_neg hs]
    cases place with
    | none => rw [if_pos (.inr rfl)]
    | some n =>
      rw [if_neg (by simpa using hs), show extend 0 s = _ from extend_eq (Nat.zero_le _) s]
      cases Decimal.extend Decimal.largest 0 s <;> rfl

end Word

theorem value_eq_ofDigits (s : Bytes) : value s = Nat.ofDigits 10 (s.reverse.map digitValue) := by
  induction s using List.reverseRecOn with
  | nil => rfl
  | append_singleton s b ih =>
    rw [value, List.foldl_append, List.foldl_cons, List.foldl_nil, ← value, ih, List.reverse_append]
    simp only [List.reverse_singleton, List.singleton_append, List.map_cons, Nat.ofDigits_cons]
    exact Nat.add_comm _ _

/-- Exactly the numerals of digits alone that denote at most the largest word are read, as the number that they denote;
for all else the place keeps what it holds. No word on the way overflows. -/
theorem readInto_exact (place : Int) (s : Bytes) :
    let n : Nat := Nat.ofDigits 10 (s.reverse.map digitValue)
    ((readInto (some place) s).1 = true ↔ s ≠ [] ∧ (∀ b ∈ s, isDigit b = true) ∧ n ≤ 2 ^ 63 - 1) ∧
    (readInto (some place) s).2 = some (if (readInto (some place) s).1 then (n : Int) else place) ∧
    Word.readInto (some place) s = some (readInto (some place) s) := by
  intro n
  have hvalue : value s = n := value_eq_ofDigits s
  by_cases hs : Readable s
  · have hread : readInto (some place) s = (true, some (value s : Int)) := by
      unfold readInto
      rw [read_eq_some_iff.2 ⟨hs, rfl⟩]
    rw [Word.readInto_eq, hread, ← hvalue]
    exact ⟨iff_of_true rfl hs, rfl, rfl⟩
  · have hread : readInto (some place) s = (false, some place) := by
      unfold readInto
      rw [read_eq_none_iff.2 hs]
    rw [Word.readInto_eq, hread, ← hvalue]
    exact ⟨iff_of_false Bool.false_ne_true hs, rfl, rfl⟩

/-- Zeros in front of the largest word; the next number has no word. -/
example : readInto (some (-7)) (ascii "009223372036854775807") = (true, some 9223372036854775807) ∧
    Word.fit 64 9223372036854775808 = none := by decide

end Multiplex.Decimal
