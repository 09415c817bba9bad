import Multiplex.Scripted.Transport
import Multiplex.Session.Operations

/-! A connection put through a list of steps, with a scripted codec and transport. Observers may carry steps of
their own, which run when they are told. Every step is reported with its answer, the state after it, and what
happened on the way. -/
namespace Multiplex.Scenario.Connection

open Bytes

inductive Step where
  | submit (request : Request) (observed : Bool) (andThen : List Step)
  | established (missing : Bool)
  | handshake
  | feed (data : Bytes) (arrival : Scripted.Arrival)
  | lost (cause : Option Fault)
  | idleTimeout
  | checkIdle
  | streamClosed (id : UInt32)
  | advance (ms : UInt64)
  | setNow (ms : UInt64)
  | codec (change : Scripted.CodecChange)
  | transport (change : Scripted.TransportChange)
  | run
  | runPending
  | stopLoop
  | observe (index : Nat) (andThen : List Step)
  | peek (index : Nat)
  | lossTold
  | causes
  | metadata
  | setNextId (id : UInt32)
  | destroy

namespace Step

def name : Step → String
  | submit _ _ _ => "submit"
  | established _ => "established"
  | handshake => "handshake"
  | feed _ _ => "feed"
  | lost _ => "lost"
  | idleTimeout => "idle_timeout"
  | checkIdle => "check_idle"
  | streamClosed _ => "stream_closed"
  | advance _ => "advance"
  | setNow _ => "set_now"
  | codec _ => "codec"
  | transport _ => "transport"
  | run => "run"
  | runPending => "run_pending"
  | stopLoop => "stop_loop"
  | observe _ _ => "observe"
  | peek _ => "peek"
  | lossTold => "lost_fulfilled"
  | causes => "errors"
  | metadata => "metadata"
  | setNextId _ => "set_next_stream_id"
  | destroy => "destroy"

def standsAlone : Step → Bool
  | advance _ | setNow _ | transport _ | run | runPending | stopLoop | observe _ _ | peek _ | lossTold => true
  | _ => false

mutual

def size : Step → Nat
  | submit _ _ andThen => sizeAll andThen + 1
  | observe _ andThen => sizeAll andThen + 1
  | _ => 1

def sizeAll : List Step → Nat
  | [] => 0
  | s :: ss => s.size + sizeAll ss

end

end Step

inductive Answer where
  | nothing
  | index (n : Nat)
  | count (n : Nat)
  | flag (b : Bool)
  | outcome (o : Outcome)
  | causes (l : List Fault)
  | metadata (m : Metadata)
  | destroyed
  | refused

inductive Happening where
  | done (index : Nat) (outcome : Outcome)
  | lost (causes : List Fault)
  | nested (step : String) (answer : Answer)

inductive Observer where
  | request (index : Nat) (andThen : List Step)
  | loss

structure Program where
  /-- The tickets of the requests whose submission has returned, in that order. -/
  submitted : List Ticket := []
  /-- What happened, the newest first. -/
  happenings : List Happening := []
  /-- The transport as long as the connection has none. -/
  spare : Scripted.Transport := {}
  /-- Whether there still is a connection. -/
  present : Bool := true

abbrev State := Session Scripted.Codec Scripted.Transport Observer Program

abbrev Reaction := Multiplex.Reaction Scripted.Codec Scripted.Transport Observer Program

def happen (h : Happening) (s : State) : State :=
  { s with program.happenings := h :: s.program.happenings }

def transportOf (s : State) : Scripted.Transport := s.transport.getD s.program.spare

def changeTransport (d : Scripted.TransportChange) (s : State) : State :=
  match s.transport with
  | some t => { s with transport := some (t.change d) }
  | none => { s with program.spare := s.program.spare.change d }

def maxRounds : Nat := 1000

def submit (r : Reaction) (request : Request) (observed : Bool) (andThen : List Step) (s : State) :
    Answer × State :=
  let (ticket, s) := Session.submit r request s
  let index := s.program.submitted.length
  let s := { s with program.submitted := s.program.submitted ++ [ticket] }
  (.index index, if observed then s.observe r ticket (.request index andThen) else s)

def perform (r : Reaction) (nested : Bool) (step : Step) (s : State) : Answer × State :=
  if !s.program.present && !step.standsAlone then (.destroyed, s)
  else
    let ticket (index : Nat) : Option Ticket := s.program.submitted[index]?
    match step with
    | .submit request observed andThen => submit r request observed andThen s
    | .established missing => (.nothing, s.established r (if missing then none else some (transportOf s)))
    | .handshake => (.nothing, s.handshakeCompleted r)
    | .feed data arrival => (.nothing, { s with codec.arrival := arrival }.bytesReceived r data)
    | .lost cause => (.nothing, s.transportLost r cause)
    | .idleTimeout => (.nothing, s.idleTimeout r)
    | .checkIdle =>
      let (fired, s) := s.checkIdle r
      (.flag fired, s)
    | .streamClosed id => (.nothing, s.streamClosed r id)
    | .advance ms => (.nothing, { s with clock := s.clock + ms })
    | .setNow ms => (.nothing, { s with clock := ms })
    | .codec change => (.nothing, { s with codec := s.codec.change change })
    | .transport change => (.nothing, changeTransport change s)
    | .run =>
      let (n, s) := s.runUntilIdle r maxRounds
      (.count n, s)
    | .runPending =>
      let (n, s) := s.runPending r
      (.count n, s)
    | .stopLoop => (.nothing, { s with loop := s.loop.stop })
    | .observe index andThen =>
      (.nothing, ((ticket index).map fun t => s.observe r t (.request index andThen)).getD s)
    | .peek index => ((((ticket index).bind s.peek).map Answer.outcome).getD .nothing, s)
    | .lossTold => ((s.lossNotice.map fun c => Answer.flag c.isFulfilled).getD .nothing, s)
    | .causes => (.causes s.causes, s)
    | .metadata => (.metadata s.metadata, s)
    | .setNextId id => (.nothing, { s with nextId := id })
    | .destroy =>
      if nested then (.refused, s)
      else (.nothing, { s with program.present := false }.discard r)

def reaction : Nat → Reaction
  | 0 => ⟨fun _ _ s => s⟩
  | depth + 1 => ⟨fun observer news s =>
      match observer, news with
      | .request index andThen, .settled _ outcome =>
        andThen.foldl (fun s step =>
          let (answer, s) := perform (reaction depth) true step s
          happen (.nested step.name answer) s) (happen (.done index outcome) s)
      | _, .lost causes => happen (.lost causes) s
      | _, _ => s⟩

/-- No observer is told twice, so no nesting is deeper than the number of steps. -/
def reactionFor (steps : List Step) : Reaction := reaction (Step.sizeAll steps + 1)

structure View where
  ready : Bool
  closing : Bool
  lost : Bool
  acknowledged : Bool
  allowed : Nat
  active : Nat
  pending : Nat
  count : Nat
  idleActive : Bool
  idleExpired : Bool
  idleRemaining : UInt64

def view (s : State) : Option View :=
  if s.program.present then
    some {
      ready := s.isReady
      closing := s.closing
      lost := s.lost
      acknowledged := s.acknowledged
      allowed := s.streamLimit
      active := s.registry.active
      pending := s.registry.pendingCount
      count := s.registry.size
      idleActive := s.idle.active
      idleExpired := s.idle.isExpired s.clock
      idleRemaining := s.idle.remaining s.clock }
  else none

structure Report where
  answer : Answer
  view : Option View
  /-- The requests that were settled since the last report. -/
  settled : List Nat
  history : History
  happenings : List Happening

def settledFlags (s : State) : List Bool := s.program.submitted.map fun t => (s.peek t).isSome

def newlyUp (before after : List Bool) : List Nat :=
  (List.range after.length).filter fun i => after.getD i false && !before.getD i false

def report (r : Reaction) (step : Step) (s : State) : Report × State :=
  let before := settledFlags s
  let (answer, s) := perform r false step { s with history := [], program.happenings := [] }
  ({ answer, view := view s, settled := newlyUp before (settledFlags s), history := s.history,
     happenings := s.program.happenings.reverse }, s)

def reports (r : Reaction) : List Step → State → List Report
  | [], _ => []
  | step :: steps, s =>
    let (first, s) := report r step s
    first :: reports r steps s

structure Setup where
  base : Bytes := ascii "https://example.com"
  clock : UInt64 := 1000
  codec : Option Scripted.Codec := some {}
  hasLoop : Bool := true
  observesLoss : Bool := true
  options : Options := {}
  transport : Scripted.Transport := {}

structure Run where
  history : History
  result : Except Fault (List Report)

def run (setup : Setup) (steps : List Step) : Run :=
  let notice : Option (Completion Observer (List Fault)) :=
    if setup.observesLoss then some { observers := [.loss] } else none
  let (history, session) := Session.create setup.base setup.codec (if setup.hasLoop then some {} else none)
    setup.options notice setup.clock { spare := setup.transport }
  ⟨history, session.map (reports (reactionFor steps) steps)⟩

end Multiplex.Scenario.Connection
