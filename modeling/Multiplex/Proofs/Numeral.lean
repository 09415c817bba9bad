import Mathlib.Algebra.Group.Nat.Defs
import Mathlib.Data.List.Basic
import Multiplex.Decimal

/-! Reading and writing numerals. A reader with a limit takes exactly the numerals whose value the limit admits, with
any zeros in front, although it never forms a number above the limit; and what is written reads back. -/
namespace Multiplex.Decimal

open Bytes

variable {limit n k : Nat} {s : Bytes}

def valueFrom (n : Nat) (s : Bytes) : Nat := s.foldl (fun n b => 10 * n + digitValue b) n

theorem valueFrom_cons (n : Nat) (b : UInt8) (s : Bytes) :
    valueFrom n (b :: s) = valueFrom (10 * n + digitValue b) s := List.foldl_cons ..

theorem le_valueFrom (n : Nat) (s : Bytes) : n ≤ valueFrom n s := by
  induction s generalizing n with
  | nil => exact Nat.le_refl n
  | cons b s ih =>
    have hnext := ih (10 * n + digitValue b)
    rw [valueFrom_cons]
    omega

theorem digitValue_le {b : UInt8} (h : isDigit b = true) : digitValue b ≤ 9 := by
  have hb : 48 ≤ b ∧ b ≤ 57 := by simpa [isDigit] using h
  have htop : b.toNat ≤ 57 := UInt8.le_iff_toNat_le.1 hb.2
  simp only [digitValue]
  omega

theorem guard_iff {d : Nat} (hd : d ≤ limit) : (limit - d) / 10 < n ↔ limit < 10 * n + d := by
  omega

theorem extend_eq_some_iff (hl : 9 ≤ limit) (hk : k ≤ limit) :
    extend limit k s = some n ↔ (∀ b ∈ s, isDigit b = true) ∧ valueFrom k s = n ∧ n ≤ limit := by
  induction s generalizing k with
  | nil =>
    simp only [extend, valueFrom, List.foldl_nil, List.not_mem_nil, false_implies, implies_true, true_and,
      Option.some.injEq]
    exact ⟨fun h => ⟨h, h ▸ hk⟩, fun h => h.1⟩
  | cons b s ih =>
    rw [valueFrom_cons, List.forall_mem_cons, extend]
    by_cases hb : isDigit b = true
    · have hd : digitValue b ≤ limit := Nat.le_trans (digitValue_le hb) hl
      by_cases hfits : limit < 10 * k + digitValue b
      · have hvalue := le_valueFrom (10 * k + digitValue b) s
        rw [if_neg (by simp [hb]), if_pos ((guard_iff hd).2 hfits)]
        refine iff_of_false (by simp) ?_
        rintro ⟨-, heq, hle⟩
        omega
      · rw [if_neg (by simp [hb]), if_neg fun h => hfits ((guard_iff hd).1 h), ih (Nat.not_lt.1 hfits)]
        simp [hb]
    · simp [hb]

theorem readUpTo_eq_some_iff (hl : 9 ≤ limit) :
    readUpTo limit s = some n ↔ s ≠ [] ∧ (∀ b ∈ s, isDigit b = true) ∧ value s = n ∧ n ≤ limit := by
  rw [readUpTo]
  cases s with
  | nil => simp
  | cons b s =>
    rw [List.isEmpty_cons, if_neg Bool.false_ne_true, extend_eq_some_iff hl (Nat.zero_le limit)]
    exact (and_iff_right (List.cons_ne_nil b s)).symm

/-! Writing. -/

theorem digit_of_char {c : Char} (h : c.isDigit = true) :
    isDigit (UInt8.ofNat c.toNat) = true ∧ digitValue (UInt8.ofNat c.toNat) = c.toNat - '0'.toNat := by
  have hc : 48 ≤ c.toNat ∧ c.toNat ≤ 57 := by
    simpa [Char.isDigit, UInt32.le_iff_toNat_le] using h
  have hbyte : (UInt8.ofNat c.toNat).toNat = c.toNat := by
    rw [UInt8.toNat_ofNat']
    omega
  constructor
  · simp only [isDigit, Bool.and_eq_true, decide_eq_true_eq, UInt8.le_iff_toNat_le, hbyte]
    exact hc
  · rw [digitValue, hbyte]
    rfl

theorem isDigit_of_mem_write {b : UInt8} (h : b ∈ write n) : isDigit b = true := by
  obtain ⟨c, hc, rfl⟩ := List.mem_map.1 h
  exact (digit_of_char (Nat.isDigit_of_mem_toDigits (by decide) (by decide) hc)).1

theorem write_ne_nil (n : Nat) : write n ≠ [] := by
  simp [write, Nat.toDigits_ne_nil]

theorem length_write_le_iff (hk : 0 < k) : (write n).length ≤ k ↔ n < 10 ^ k := by
  rw [write, List.length_map, Nat.length_toDigits_le_iff (by decide) hk]

@[simp] theorem value_write (n : Nat) : value (write n) = n := by
  have hchars : ∀ (cs : List Char) (k : Nat), (∀ c ∈ cs, c.isDigit = true) →
      valueFrom k (cs.map fun c => UInt8.ofNat c.toNat) = Nat.ofDigitChars 10 cs k := by
    intro cs
    induction cs with
    | nil => exact fun _ _ => rfl
    | cons c cs ih =>
      intro k hcs
      obtain ⟨hc, hrest⟩ := List.forall_mem_cons.1 hcs
      rw [List.map_cons, valueFrom_cons, (digit_of_char hc).2, ih _ hrest]
      rfl
  have hdigits := hchars (Nat.toDigits 10 n) 0 fun c => Nat.isDigit_of_mem_toDigits (by decide) (by decide)
  exact hdigits.trans (Nat.ofDigitChars_toDigits (by decide) (by decide))

end Multiplex.Decimal
