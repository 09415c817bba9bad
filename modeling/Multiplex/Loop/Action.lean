import Multiplex.Bytes

/-! What tasks and observers do: lists of actions on one loop and on named completions. Tasks that are posted and
observers that are registered carry actions of their own. -/
namespace Multiplex.Loop

inductive Action where
  | note (text : Bytes)
  | raise (text : Bytes)
  | post (task : List Action)
  | postNothing
  | runPending
  | runUntilIdle (rounds : Nat)
  | run
  | runOnThread
  | stop
  | isStopped
  | pendingCount
  | inLoopThread
  | inLoopThreadFromOther
  | waitForStarted
  | create (name : Bytes) (onLoop : Bool)
  | drop (name : Bytes)
  | onComplete (name : Bytes) (label : Bytes) (andThen : List Action)
  | onCompleteNothing (name : Bytes)
  | fulfil (name : Bytes) (value : Bytes)
  | isFulfilled (name : Bytes)
  | peek (name : Bytes)
  | observerCount (name : Bytes)

namespace Action

def name : Action → String
  | note _ => "note"
  | raise _ => "throw"
  | post _ | postNothing => "post"
  | runPending => "run_pending"
  | runUntilIdle _ => "run_until_idle"
  | run => "run"
  | runOnThread => "run_on_thread"
  | stop => "stop"
  | isStopped => "is_stopped"
  | pendingCount => "pending_count"
  | inLoopThread => "in_loop_thread"
  | inLoopThreadFromOther => "in_loop_thread_from_other"
  | waitForStarted => "wait_for_started"
  | create _ _ => "create"
  | drop _ => "drop"
  | onComplete _ _ _ | onCompleteNothing _ => "on_complete"
  | fulfil _ _ => "fulfill"
  | isFulfilled _ => "is_fulfilled"
  | peek _ => "peek"
  | observerCount _ => "observer_count"

mutual

/-- A bound on the work that an action causes, its tasks and observers included. -/
def weight : Action → Nat
  | post task => weightAll task + 14
  | onComplete _ _ andThen => weightAll andThen + 14
  | _ => 14

def weightAll : List Action → Nat
  | [] => 0
  | a :: as => a.weight + weightAll as

end

end Action

structure Observer where
  label : Bytes
  andThen : List Action

inductive Task where
  | actions (list : List Action)
  | tell (observer : Observer) (value : Bytes)

def Task.script : Task → List Action
  | actions list => list
  | tell o _ => o.andThen

inductive Value where
  | nothing
  | flag (b : Bool)
  | count (n : Nat)
  | text (t : Bytes)
  | returned
  deriving DecidableEq

end Multiplex.Loop
