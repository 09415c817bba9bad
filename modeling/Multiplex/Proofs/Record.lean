import Multiplex.Proofs.Turn

/-! Views of the record. A view picks the entries of one kind and shows what they say, in the order in which they were
made; what adds no entry of the kind leaves the view as it was. Or every entry is held against those before it. -/
namespace Multiplex

/-- What a view shows of a record, the oldest entry first. -/
def History.select {α : Type} (view : Entry → Option α) (h : History) : List α := h.reverse.filterMap view

namespace Entry

def settlement : Entry → Option (Ticket × Outcome)
  | .settled ticket outcome => some (ticket, outcome)
  | _ => none

def announcement : Entry → Option (List Fault)
  | .lossAnnounced causes => some causes
  | _ => none

def opening : Entry → Option (UInt32 × Int32)
  | .call (.headers id _ _ ret) => some (id, ret)
  | _ => none

def admission : Entry → Option Ticket
  | .admitted ticket _ _ _ => some ticket
  | _ => none

def event : Entry → Option Wire.Event
  | .dispatched event => some event
  | _ => none

end Entry

namespace History

variable {α : Type} {view : Entry → Option α} {h h' : History}

theorem select_append (view : Entry → Option α) (new old : History) :
    select view (new ++ old) = select view old ++ select view new := by
  simp [select]

theorem select_cons (view : Entry → Option α) (e : Entry) (h : History) :
    select view (e :: h) = select view h ++ (view e).toList := by
  simp [select, List.filterMap_cons]
  cases view e <;> rfl

theorem mem_select {a : α} : a ∈ select view h ↔ ∃ e ∈ h, view e = some a := by
  simp [select]

theorem select_eq_nil (hnone : ∀ e ∈ h, view e = none) : select view h = [] := by
  simpa [select] using hnone

theorem Extends.suffix {p : Entry → Prop} (hh : h.Extends p h') : h <:+ h' := by
  obtain ⟨new, rfl, -⟩ := hh
  exact ⟨new, rfl⟩

theorem Extends.select_eq {p : Entry → Prop} (hh : Extends p h h') (hp : ∀ e, p e → view e = none) :
    select view h' = select view h := by
  obtain ⟨new, rfl, hnew⟩ := hh
  rw [select_append, select_eq_nil fun e he => hp e (hnew e he), List.append_nil]

theorem Extends.countP_eq {p : Entry → Prop} {f : Entry → Bool} (hh : h.Extends p h')
    (hp : ∀ e, p e → f e = false) : h'.countP f = h.countP f := by
  obtain ⟨new, rfl, hnew⟩ := hh
  have hnone : new.countP f = 0 := List.countP_eq_zero.2 fun e he => Bool.eq_false_iff.1 (hp e (hnew e he))
  rw [List.countP_append, hnone, Nat.zero_add]

section Grounded

variable {p q : Entry → History → Prop}

/-- Every entry is held against what was on record before it. -/
def Grounded (p : Entry → History → Prop) : History → Prop
  | [] => True
  | e :: earlier => p e earlier ∧ Grounded p earlier

theorem Grounded.at {later earlier : History} {e : Entry} (hg : h.Grounded p) (hsplit : h = later ++ e :: earlier) :
    p e earlier := by
  subst hsplit
  induction later with
  | nil => exact hg.1
  | cons x later ih => exact ih hg.2

theorem Grounded.extend {r : Entry → Prop} (hg : h.Grounded p) (hh : h.Extends r h')
    (hr : ∀ e earlier, r e → p e earlier) : h'.Grounded p := by
  obtain ⟨new, rfl, hnew⟩ := hh
  induction new with
  | nil => exact hg
  | cons e new ih =>
    obtain ⟨he, hrest⟩ := List.forall_mem_cons.1 hnew
    exact ⟨hr e _ he, ih hrest⟩

theorem Grounded.imp (hg : h.Grounded p) (hpq : ∀ e ∈ h, ∀ earlier, p e earlier → q e earlier) : h.Grounded q := by
  induction h with
  | nil => trivial
  | cons e h ih =>
    obtain ⟨he, hrest⟩ := List.forall_mem_cons.1 hpq
    exact ⟨he h hg.1, ih hg.2 hrest⟩

theorem Grounded.countP_le_one {f : Entry → Bool} (hg : h.Grounded p)
    (hf : ∀ e earlier, p e earlier → f e = true → ∀ x ∈ earlier, f x = false) : h.countP f ≤ 1 := by
  induction h with
  | nil => exact Nat.zero_le 1
  | cons e h ih =>
    rw [List.countP_cons]
    by_cases he : f e = true
    · have hzero : h.countP f = 0 := List.countP_eq_zero.2 fun x hx => by simp [hf e h hg.1 he x hx]
      exact Nat.le_of_eq (by rw [hzero, if_pos he])
    · rw [if_neg he]
      exact ih hg.2

end Grounded

end History

theorem Entry.IsStreamLine.unseen {α : Type} {view : Entry → Option α} (hview : ∀ l, view (.log l) = none) {e : Entry}
    (h : e.IsStreamLine) : view e = none := by
  obtain ⟨l, rfl, -⟩ := h
  exact hview l

end Multiplex
