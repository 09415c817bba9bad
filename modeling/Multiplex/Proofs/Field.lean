import Multiplex.Header
import Multiplex.Proofs.Numeral

/-! Fields of a response head. A field is looked up by its name in any letter case, a length is announced by the first
field of that name, and the status is that of the last status field that can be read. -/
namespace Multiplex

open Bytes

namespace Bytes

theorem lowerByte_eq_zero_iff {b : UInt8} : lowerByte b = 0 ↔ b = 0 := by
  have hall : ∀ n : Fin 256, lowerByte (UInt8.ofFin n) = 0 ↔ UInt8.ofFin n = 0 := by decide +kernel
  exact hall b.toFin

theorem eq_zero_iff_of_lowerByte_eq {a b : UInt8} (h : lowerByte a = lowerByte b) : a = 0 ↔ b = 0 := by
  rw [← lowerByte_eq_zero_iff, h, lowerByte_eq_zero_iff]

theorem zero_mem_lower_iff {s : Bytes} : 0 ∈ lower s ↔ 0 ∈ s := by
  simp [lower, lowerByte_eq_zero_iff]

theorem eq_of_length_untilNul {s : Bytes} (h : (untilNul s).length = s.length) : untilNul s = s :=
  (List.takeWhile_prefix _).eq_of_length h

end Bytes

namespace Decimal

variable {s : Bytes} {n : Nat}

def Readable (s : Bytes) : Prop := s ≠ [] ∧ (∀ b ∈ s, isDigit b = true) ∧ value s ≤ largest

instance (s : Bytes) : Decidable (Readable s) :=
  decidable_of_iff (s ≠ [] ∧ s.all isDigit = true ∧ value s ≤ largest) (by rw [Readable, List.all_eq_true])

theorem read_eq_some_iff : read s = some n ↔ Readable s ∧ value s = n := by
  rw [read, readUpTo_eq_some_iff (by decide)]
  constructor
  · rintro ⟨hs, hdigits, rfl, hle⟩
    exact ⟨⟨hs, hdigits, hle⟩, rfl⟩
  · rintro ⟨⟨hs, hdigits, hle⟩, rfl⟩
    exact ⟨hs, hdigits, rfl, hle⟩

theorem read_eq_none_iff : read s = none ↔ ¬Readable s := by
  constructor
  · intro hnone hs
    rw [read_eq_some_iff.2 ⟨hs, rfl⟩] at hnone
    cases hnone
  · intro hs
    cases hread : read s with
    | none => rfl
    | some n => exact absurd (read_eq_some_iff.1 hread).1 hs

end Decimal

namespace Header

variable {name name' value : Bytes} {fields before after : Headers} {field : Bytes × Bytes}

/-! Looking up a name. -/

theorem nameEq_iff {a b : Bytes} (hb : 0 ∉ b) : nameEq a b = true ↔ lower a = lower b := by
  rw [nameEq, untilNul_of_notMem hb, Bool.and_eq_true, beq_iff_eq, beq_iff_eq]
  constructor
  · rintro ⟨hlength, hlower⟩
    have hshort : (untilNul a).length = a.length := by
      rw [← length_lower, hlower, length_lower, hlength]
    rw [← eq_of_length_untilNul hshort, hlower]
  · intro hlower
    have ha : 0 ∉ a := by rwa [← zero_mem_lower_iff, hlower, zero_mem_lower_iff]
    refine ⟨?_, by rw [untilNul_of_notMem ha, hlower]⟩
    rw [← length_lower a, hlower, length_lower]

theorem find_eq_find? (hname : 0 ∉ name) (fields : Headers) :
    find fields name = (fields.find? fun f => lower f.1 == lower name).map Prod.snd := by
  have htest : (fun f : Bytes × Bytes => nameEq f.1 name) = fun f => lower f.1 == lower name := by
    funext f
    rw [Bool.eq_iff_iff, nameEq_iff hname, beq_iff_eq]
  rw [find, htest]

theorem find_eq_some_iff (hname : 0 ∉ name) : find fields name = some value ↔
    ∃ before name' after, fields = before ++ (name', value) :: after ∧ lower name' = lower name ∧
      ∀ f ∈ before, lower f.1 ≠ lower name := by
  simp only [find_eq_find? hname, Option.map_eq_some_iff, List.find?_eq_some_iff_append, beq_iff_eq,
    Bool.not_eq_true', beq_eq_false_iff_ne]
  constructor
  · rintro ⟨⟨name', _⟩, ⟨hfirst, before, after, hfields, hbefore⟩, rfl⟩
    exact ⟨before, name', after, hfields, hfirst, hbefore⟩
  · rintro ⟨before, name', after, hfields, hfirst, hbefore⟩
    exact ⟨(name', value), ⟨hfirst, before, after, hfields, hbefore⟩, rfl⟩

theorem find_eq_none_iff (hname : 0 ∉ name) : find fields name = none ↔ ∀ f ∈ fields, lower f.1 ≠ lower name := by
  simp only [find_eq_find? hname, Option.map_eq_none_iff, List.find?_eq_none, beq_iff_eq]

/-! The announced length. -/

theorem lower_contentLength : lower (ascii "content-length") = ascii "content-length" := by decide

theorem zero_notMem_contentLength : (0 : UInt8) ∉ ascii "content-length" := by decide

def TellsLength (field : Bytes × Bytes) : Prop := lower field.1 = ascii "content-length"

instance : DecidablePred TellsLength := fun field =>
  inferInstanceAs (Decidable (lower field.1 = ascii "content-length"))

theorem TellsLength.not_isPseudo (h : TellsLength field) : isPseudo field.1 = false := by
  obtain ⟨name, value⟩ := field
  cases name with
  | nil => rfl
  | cons b rest =>
    have hb : b ≠ 58 := by
      rintro rfl
      have hhead : some (lowerByte 58) = some 99 := congrArg List.head? h
      exact absurd hhead (by decide)
    simpa [isPseudo] using hb

theorem find_length (hbefore : ∀ f ∈ before, ¬TellsLength f) (hfirst : TellsLength (name', value)) :
    find (before ++ (name', value) :: after) (ascii "content-length") = some value := by
  rw [find_eq_some_iff zero_notMem_contentLength, lower_contentLength]
  exact ⟨before, name', after, rfl, hfirst, hbefore⟩

/-! The status. -/

def TellsStatus (field : Bytes × Bytes) : Prop := field.1 = ascii ":status" ∧ Decimal.Readable field.2

instance : DecidablePred TellsStatus := fun field =>
  inferInstanceAs (Decidable (field.1 = ascii ":status" ∧ Decimal.Readable field.2))

def lastStatus (fields : Headers) : Option Nat :=
  ((fields.filter fun field => TellsStatus field).getLast?).map fun field => Decimal.value field.2

theorem lastStatus_append (a b : Headers) : lastStatus (a ++ b) = (lastStatus b).or (lastStatus a) := by
  unfold lastStatus
  rw [List.filter_append, List.getLast?_append]
  cases (b.filter fun field => TellsStatus field).getLast? <;> rfl

theorem lastStatus_singleton (field : Bytes × Bytes) :
    lastStatus [field] = if TellsStatus field then some (Decimal.value field.2) else none := by
  by_cases h : TellsStatus field <;> simp [lastStatus, h]

end Header

end Multiplex
