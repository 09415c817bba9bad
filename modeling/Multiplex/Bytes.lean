/-! Byte strings. Text, header fields and bodies are lists of bytes: a length is a byte count, and letter case
is that of ASCII letters alone. A string handed on as a terminated text ends before its first zero byte. -/
namespace Multiplex

abbrev Bytes := List UInt8

namespace Bytes

def ascii (s : String) : Bytes := s.toList.map fun c => UInt8.ofNat c.toNat

def isDigit (b : UInt8) : Bool := 48 ≤ b && b ≤ 57

def lowerByte (b : UInt8) : UInt8 := if 65 ≤ b && b ≤ 90 then b + 32 else b

def lower (s : Bytes) : Bytes := s.map lowerByte

@[simp] theorem length_lower (s : Bytes) : (lower s).length = s.length := by simp [lower]

@[simp] theorem lower_nil : lower [] = [] := rfl

theorem lowerByte_lowerByte (b : UInt8) : lowerByte (lowerByte b) = lowerByte b := by
  have h : ∀ n : Fin 256, lowerByte (lowerByte (UInt8.ofFin n)) = lowerByte (UInt8.ofFin n) := by
    decide +kernel
  exact h b.toFin

@[simp] theorem lower_lower (s : Bytes) : lower (lower s) = lower s := by
  simp [lower, lowerByte_lowerByte]

def untilNul (s : Bytes) : Bytes := s.takeWhile (· != 0)

theorem untilNul_of_notMem {s : Bytes} (h : 0 ∉ s) : untilNul s = s := by
  induction s with
  | nil => rfl
  | cons b s ih =>
    have hb : b ≠ 0 := fun e => h (by simp [e])
    simpa [untilNul, List.takeWhile_cons, hb] using ih fun m => h (List.mem_cons_of_mem _ m)

def splitLast (b : UInt8) : Bytes → Option (Bytes × Bytes)
  | [] => none
  | x :: s =>
    match splitLast b s with
    | some (p, q) => some (x :: p, q)
    | none => if x = b then some ([], s) else none

theorem splitLast_eq_none_iff {b : UInt8} {s : Bytes} : splitLast b s = none ↔ b ∉ s := by
  induction s with
  | nil => simp [splitLast]
  | cons x s ih =>
    cases h : splitLast b s with
    | none =>
      have hs : b ∉ s := ih.1 h
      by_cases hx : x = b
      · simp [splitLast, h, hx]
      · simp [splitLast, h, hs, hx, Ne.symm hx]
    | some c =>
      have hs : b ∈ s := Classical.not_not.1 fun m => by simp [ih.2 m] at h
      simp [splitLast, h, hs]

theorem splitLast_append_cons {b : UInt8} (p : Bytes) {q : Bytes} (h : b ∉ q) :
    splitLast b (p ++ b :: q) = some (p, q) := by
  induction p with
  | nil => simp [splitLast, splitLast_eq_none_iff.2 h]
  | cons x p ih => simp [splitLast, ih]

theorem splitLast_eq_some_iff {b : UInt8} {s p q : Bytes} :
    splitLast b s = some (p, q) ↔ s = p ++ b :: q ∧ b ∉ q := by
  refine ⟨fun h => ?_, fun h => h.1 ▸ splitLast_append_cons p h.2⟩
  induction s generalizing p q with
  | nil => simp [splitLast] at h
  | cons x s ih =>
    cases hs : splitLast b s with
    | none =>
      by_cases hx : x = b
      · have : [] = p ∧ s = q := by simpa [splitLast, hs, hx] using h
        obtain ⟨rfl, rfl⟩ := this
        exact ⟨by simp [hx], splitLast_eq_none_iff.1 hs⟩
      · simp [splitLast, hs, hx] at h
    | some c =>
      obtain ⟨p', q'⟩ := c
      have : x :: p' = p ∧ q' = q := by simpa [splitLast, hs] using h
      obtain ⟨rfl, rfl⟩ := this
      simpa using ih hs

def splitFirst (pat : Bytes) : Bytes → Option (Bytes × Bytes)
  | [] => if pat = [] then some ([], []) else none
  | x :: s =>
    if pat.isPrefixOf (x :: s) then some ([], (x :: s).drop pat.length)
    else (splitFirst pat s).map fun c => (x :: c.1, c.2)

theorem eq_of_splitFirst {pat s p q : Bytes} (h : splitFirst pat s = some (p, q)) :
    s = p ++ pat ++ q := by
  induction s generalizing p q with
  | nil =>
    by_cases hp : pat = []
    · have : [] = p ∧ [] = q := by simpa [splitFirst, hp] using h
      simp [← this.1, ← this.2, hp]
    · simp [splitFirst, hp] at h
  | cons x s ih =>
    by_cases hp : pat.isPrefixOf (x :: s) = true
    · have : [] = p ∧ (x :: s).drop pat.length = q := by simpa [splitFirst, hp] using h
      obtain ⟨t, ht⟩ := List.isPrefixOf_iff_prefix.1 hp
      simp [← this.1, ← this.2, ← ht]
    · cases hs : splitFirst pat s with
      | none => simp [splitFirst, hp, hs] at h
      | some c =>
        have : x :: c.1 = p ∧ c.2 = q := by simpa [splitFirst, hp, hs] using h
        simp [← this.1, ← this.2, ih hs]

end Bytes

end Multiplex
