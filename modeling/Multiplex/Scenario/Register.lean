import Multiplex.History
import Multiplex.Registry

/-! A register put through a list of steps, with labels for items. A label always stands for the same item, under
the id that it was first given. -/
namespace Multiplex.Scenario.Register

inductive Step where
  | add (label : Option Bytes) (id : UInt32)
  | admitNext
  | remove (id : UInt32)
  | find (id : UInt32)
  | contains (id : UInt32)
  | snapshot
  | clear

inductive Answer where
  | done
  | nothing
  | refused (cause : Fault)
  | label (l : Option Bytes)
  | flag (b : Bool)
  | labels (l : List Bytes)

structure State where
  registry : Registry Bytes := {}
  ids : List (Bytes × UInt32) := []
  history : History := []

def identify (label : Bytes) (id : UInt32) (s : State) : UInt32 × State :=
  match s.ids.find? (·.1 == label) with
  | some (_, id) => (id, s)
  | none => (id, { s with ids := (label, id) :: s.ids })

def add (label : Option Bytes) (id : UInt32) (s : State) : Answer × State :=
  let (item, s) :=
    match label with
    | none => (none, s)
    | some l =>
      let (id, s) := identify l id s
      (some (id, l), s)
  match s.registry.addGiven item with
  | .ok registry => (.done, { s with registry })
  | .error e =>
    match e.warning with
    | some message => (.refused e.fault, { s with history := s.history.note .warn "Session" message })
    | none => (.refused e.fault, s)

def perform (step : Step) (s : State) : Answer × State :=
  match step with
  | .add label id => add label id s
  | .admitNext =>
    let (label, registry) := s.registry.admitNext
    (.label label, { s with registry })
  | .remove id =>
    let (label, registry) := s.registry.remove id
    (.label label, { s with registry })
  | .find id => (.label (s.registry.find id), s)
  | .contains id => (.flag (s.registry.contains id), s)
  | .snapshot => (.labels s.registry.snapshot, s)
  | .clear => (.nothing, { s with registry := s.registry.clear })

structure Report where
  answer : Answer
  size : Nat
  pending : Nat
  active : Nat
  history : History

def report (step : Step) (s : State) : Report × State :=
  let (answer, s) := perform step { s with history := [] }
  (⟨answer, s.registry.size, s.registry.pendingCount, s.registry.active, s.history⟩, s)

def reports : List Step → State → List Report
  | [], _ => []
  | step :: steps, s =>
    let (first, s) := report step s
    first :: reports steps s

def run (steps : List Step) : List Report := reports steps {}

end Multiplex.Scenario.Register
