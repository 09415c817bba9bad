import Multiplex.Completion
import Multiplex.Config
import Multiplex.Idle
import Multiplex.Loop
import Multiplex.Registry
import Multiplex.Stream.Receive
import Multiplex.Stream.Send
import Multiplex.Wire.Transport

/-! The state of one connection, with the codec, transport and loop that it works on. Results are told to
observers through the loop. Once the loop has stopped, an observer is told at once, in the middle of whatever the
connection is doing; what observers do then is given by a reaction. -/
namespace Multiplex

open Bytes Wire

inductive News where
  | settled (ticket : Ticket) (outcome : Outcome)
  | lost (causes : List Fault)

structure Notice (ω : Type) where
  observer : ω
  news : News

/-- A connection over a codec `κ` and a transport `τ`, observed by `ω`, in a program with a state `σ`. -/
structure Session (κ τ ω σ : Type) where
  codec : κ
  transport : Option τ := none
  loop : Loop (Notice ω) := {}
  clock : UInt64 := 0
  program : σ
  options : Options := {}
  metadata : Metadata := {}
  nextId : UInt32 := 1
  registry : Registry Stream := {}
  acknowledged : Bool := false
  lost : Bool := false
  closing : Bool := false
  admitting : Bool := false
  idle : IdleDeadline
  causes : List Fault := []
  lossNotice : Option (Completion ω (List Fault)) := none
  completions : List (Completion ω Outcome) := []
  /-- Exchanges that operations under way are still working on, once for each such operation. -/
  held : List Ticket := []
  /-- Held exchanges that left the register while they were running. -/
  detached : List Stream := []
  history : History := []

/-- What observers do when they are told at once. -/
structure Reaction (κ τ ω σ : Type) where
  run : ω → News → Session κ τ ω σ → Session κ τ ω σ

namespace Session

variable {κ τ ω σ : Type}

def note (s : Session κ τ ω σ) (level : Log.Level) (message : Bytes) (source : String := "Session") :
    Session κ τ ω σ :=
  { s with history := s.history.note level source message }

def enter (s : Session κ τ ω σ) (e : Entry) : Session κ τ ω σ := { s with history := e :: s.history }

def peerText (s : Session κ τ ω σ) : Bytes := untilNul s.metadata.peer.text

/-- Tells an observer, through the loop if it still takes tasks. -/
def tell (r : Reaction κ τ ω σ) (n : Notice ω) (s : Session κ τ ω σ) : Session κ τ ω σ :=
  match s.loop.post n with
  | some loop => { s with loop }
  | none =>
    r.run n.observer n.news
      (s.note .warn (ascii "Event loop unavailable, notifying observer inline") "Completion")

def tellAll (r : Reaction κ τ ω σ) (os : List ω) (news : News) (s : Session κ τ ω σ) : Session κ τ ω σ :=
  os.foldl (fun s o => s.tell r ⟨o, news⟩) s

def noteTwice (s : Session κ τ ω σ) : Session κ τ ω σ :=
  s.note .warn (ascii "Completion fulfilled more than once, ignoring") "Completion"

def settle (r : Reaction κ τ ω σ) (ticket : Ticket) (outcome : Outcome) (s : Session κ τ ω σ) :
    Session κ τ ω σ :=
  match s.completions[ticket]? with
  | none => s
  | some c =>
    match c.fulfil outcome with
    | none => s.noteTwice
    | some (os, c) =>
      { s with completions := s.completions.set ticket c }
        |>.enter (.settled ticket outcome)
        |>.tellAll r os (.settled ticket outcome)

def announceLoss (r : Reaction κ τ ω σ) (s : Session κ τ ω σ) : Session κ τ ω σ :=
  match s.lossNotice with
  | none => s
  | some c =>
    match c.fulfil s.causes with
    | none => s.noteTwice
    | some (os, c) =>
      { s with lossNotice := some c }
        |>.enter (.lossAnnounced s.causes)
        |>.tellAll r os (.lost s.causes)

/-- Adds an observer of a request; it is told in the end whether it came early or late. -/
def observe (r : Reaction κ τ ω σ) (ticket : Ticket) (o : ω) (s : Session κ τ ω σ) : Session κ τ ω σ :=
  match s.completions[ticket]? with
  | none => s
  | some c =>
    match c.observe o with
    | (none, c) => { s with completions := s.completions.set ticket c }
    | (some outcome, _) => s.tell r ⟨o, .settled ticket outcome⟩

def runPending (r : Reaction κ τ ω σ) (s : Session κ τ ω σ) : Nat × Session κ τ ω σ :=
  (s.loop.queue.length,
    s.loop.queue.foldl (fun s n => r.run n.observer n.news s) { s with loop := s.loop.emptied })

def runUntilIdle (r : Reaction κ τ ω σ) : Nat → Session κ τ ω σ → Nat × Session κ τ ω σ
  | 0, s => (0, s)
  | rounds + 1, s =>
    if s.loop.queue.isEmpty then (0, s)
    else
      let (n, s) := s.runPending r
      let (m, s) := runUntilIdle r rounds s
      (n + m, s)

def peek (s : Session κ τ ω σ) (ticket : Ticket) : Option Outcome := s.completions[ticket]?.bind (·.value)

def lastId : UInt32 := 0x7FFFFFFF

/-- A bound on the requests that can still be taken. -/
def idsLeft (s : Session κ τ ω σ) : Nat := lastId.toNat + 1 - s.nextId.toNat

variable [Codec κ] [Transport τ]

def isReady (s : Session κ τ ω σ) : Bool :=
  s.transport.any Transport.isConnected && !s.lost && !s.closing && s.acknowledged

def streamLimit (s : Session κ τ ω σ) : Nat := (Codec.streamLimit s.codec).toNat

end Session

end Multiplex
