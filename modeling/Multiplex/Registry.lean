import Multiplex.Decimal
import Multiplex.Fault

/-! The register of open exchanges: entries in ascending order of their ids, a queue of those that wait for
admission, and the number of those admitted. -/
namespace Multiplex

open Bytes

structure Registry.Entry (α : Type) where
  id : UInt32
  item : α
  admitted : Bool := false

structure Registry (α : Type) where
  entries : List (Registry.Entry α) := []
  pending : List UInt32 := []
  active : Nat := 0

namespace Registry

inductive Refusal where
  | missing
  | taken (id : UInt32)
  deriving DecidableEq

def Refusal.fault : Refusal → Fault
  | missing => .plain .missingObject "Stream is null"
  | taken id => ⟨.streamInvalidState, ascii "Stream " ++ Decimal.write id.toNat ++ ascii " already registered"⟩

def Refusal.warning : Refusal → Option Bytes
  | missing => none
  | taken id => some (ascii "Stream " ++ Decimal.write id.toNat ++ ascii " already registered")

variable {α : Type}

def Entry.insert (e : Entry α) : List (Entry α) → List (Entry α)
  | [] => [e]
  | x :: xs => if e.id < x.id then e :: x :: xs else x :: insert e xs

def findEntry (r : Registry α) (id : UInt32) : Option (Entry α) := r.entries.find? (·.id == id)

def find (r : Registry α) (id : UInt32) : Option α := (r.findEntry id).map (·.item)

def contains (r : Registry α) (id : UInt32) : Bool := (r.findEntry id).isSome

def size (r : Registry α) : Nat := r.entries.length

def isEmpty (r : Registry α) : Bool := r.entries.isEmpty

def pendingCount (r : Registry α) : Nat := r.pending.length

def snapshot (r : Registry α) : List α := r.entries.map (·.item)

def add (r : Registry α) (id : UInt32) (item : α) : Except Refusal (Registry α) :=
  if r.contains id then .error (.taken id)
  else .ok { r with entries := Entry.insert { id, item } r.entries, pending := r.pending ++ [id] }

def addGiven (r : Registry α) : Option (UInt32 × α) → Except Refusal (Registry α)
  | none => .error .missing
  | some (id, item) => r.add id item

def markAdmitted (r : Registry α) (id : UInt32) : Registry α :=
  { r with
    entries := r.entries.map fun e => if e.id == id then { e with admitted := true } else e
    active := r.active + 1 }

/-- Admits the first of the queue that is still registered. -/
def admitFrom (r : Registry α) : List UInt32 → Option α × Registry α
  | [] => (none, { r with pending := [] })
  | id :: rest =>
    match r.find id with
    | some item => (some item, { r with pending := rest }.markAdmitted id)
    | none => admitFrom r rest

def admitNext (r : Registry α) : Option α × Registry α := r.admitFrom r.pending

def remove (r : Registry α) (id : UInt32) : Option α × Registry α :=
  match r.findEntry id with
  | none => (none, r)
  | some e =>
    let entries := r.entries.filter fun x => x.id != id
    if e.admitted then (some e.item, { r with entries, active := r.active - 1 })
    else (some e.item, { r with entries, pending := r.pending.filter (· != id) })

def replace (r : Registry α) (p : α → Bool) (item : α) : Registry α :=
  { r with entries := r.entries.map fun e => if p e.item then { e with item } else e }

def clear (_ : Registry α) : Registry α := {}

@[simp] theorem snapshot_clear (r : Registry α) : r.clear.snapshot = [] := rfl

@[simp] theorem pending_replace (r : Registry α) (p : α → Bool) (item : α) :
    (r.replace p item).pending = r.pending := rfl

@[simp] theorem active_replace (r : Registry α) (p : α → Bool) (item : α) :
    (r.replace p item).active = r.active := rfl

theorem remove_eq_self_of_none {r : Registry α} {id : UInt32} (h : (r.remove id).1 = none) :
    (r.remove id).2 = r := by
  cases he : r.findEntry id with
  | none => simp [remove, he]
  | some e => cases ha : e.admitted <;> simp [remove, he, ha] at h

end Registry

end Multiplex
