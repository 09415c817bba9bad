/-! A result that is set once, and those who wait for it. Setting it hands over the observers registered so far,
in their order; one that comes later is handed over at once. -/
namespace Multiplex

structure Completion (ω α : Type) where
  value : Option α := none
  observers : List ω := []

namespace Completion

variable {ω α : Type}

def isFulfilled (c : Completion ω α) : Bool := c.value.isSome

/-- The observers to notify and the fulfilled completion; nothing if a value is already there. -/
def fulfil (c : Completion ω α) (value : α) : Option (List ω × Completion ω α) :=
  match c.value with
  | some _ => none
  | none => some (c.observers, ⟨some value, []⟩)

def observe (c : Completion ω α) (o : ω) : Option α × Completion ω α :=
  match c.value with
  | some v => (some v, c)
  | none => (none, { c with observers := c.observers ++ [o] })

theorem fulfil_eq_none_iff {c : Completion ω α} {v : α} : c.fulfil v = none ↔ c.isFulfilled = true := by
  cases h : c.value <;> simp [fulfil, isFulfilled, h]

theorem fulfil_eq_some_iff {c c' : Completion ω α} {v : α} {os : List ω} :
    c.fulfil v = some (os, c') ↔ c.value = none ∧ os = c.observers ∧ c' = ⟨some v, []⟩ := by
  cases h : c.value <;> simp [fulfil, h, eq_comm]

theorem value_observe (c : Completion ω α) (o : ω) : (c.observe o).2.value = c.value := by
  unfold observe
  split <;> simp_all

end Completion

end Multiplex
