import Multiplex.Loop.Machine

/-! A loop and its completions put through a list of actions. -/
namespace Multiplex.Scenario.Rounds

open Loop

inductive Answer where
  | value (v : Value)
  | exception (text : Bytes)
  | asleep

structure Report where
  answer : Answer
  /-- What happened since the last report, in order. -/
  history : List Happening
  pending : Nat
  stopped : Bool

def answerOf (m : Machine) : Answer :=
  match m.signal with
  | .done v => .value v
  | .raised text => .exception text
  | .go => .value .nothing
  | .asleep => .asleep

def perform (a : Action) (m : Machine) : Machine :=
  ({ m with stack := [], signal := .go, history := [] }.call a).settle

def report (m : Machine) : Report :=
  ⟨answerOf m, m.history.reverse, m.loop.queue.length, m.loop.stopped⟩

def reports : List Action → Machine → List Report
  | [], _ => []
  | a :: rest, m =>
    let m := perform a m
    report m :: reports rest m

def run (actions : List Action) : List Report := reports actions {}

end Multiplex.Scenario.Rounds
