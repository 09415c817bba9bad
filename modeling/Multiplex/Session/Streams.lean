import Multiplex.Session.Basic

/-! The exchanges of a connection. An operation runs a turn of one exchange, and then tells the caller if the turn
ended it. An exchange that is taken off the register before it ends is given up, unless an operation under way
still holds it: then it is given up when the last such operation is done. -/
namespace Multiplex.Session

open Bytes Wire

variable {κ τ ω σ : Type}

def streamOf (s : Session κ τ ω σ) (ticket : Ticket) : Option Stream :=
  (s.registry.snapshot.find? (·.ticket == ticket)).or (s.detached.find? (·.ticket == ticket))

def keep (stream : Stream) (s : Session κ τ ω σ) : Session κ τ ω σ :=
  { s with
    registry := s.registry.replace (·.ticket == stream.ticket) stream
    detached := s.detached.map fun x => if x.ticket == stream.ticket then stream else x }

def hold (tickets : List Ticket) (s : Session κ τ ω σ) : Session κ τ ω σ :=
  { s with held := tickets ++ s.held }

def giveUp (stream : Stream) (s : Session κ τ ω σ) : Session κ τ ω σ :=
  if stream.isClosed then s else s.note .warn stream.abandonedMessage "Stream"

def letGo (ticket : Ticket) (s : Session κ τ ω σ) : Session κ τ ω σ :=
  let s := { s with held := s.held.erase ticket }
  if ticket ∈ s.held then s
  else
    match s.detached.find? (·.ticket == ticket) with
    | none => s
    | some stream => { s with detached := s.detached.filter (·.ticket != ticket) }.giveUp stream

/-- Takes an exchange off the register; tells whether it was there. -/
def release (id : UInt32) (s : Session κ τ ω σ) : Bool × Session κ τ ω σ :=
  match s.registry.remove id with
  | (none, _) =>
    (false, s.note .warn (ascii "Closed stream " ++ Decimal.write id.toNat ++ ascii " is not registered"))
  | (some stream, registry) =>
    let s := { s with registry }
    if !stream.isClosed && stream.ticket ∈ s.held then (true, { s with detached := s.detached ++ [stream] })
    else (true, s.giveUp stream)

variable [Codec κ]

/-- Runs a turn of an exchange. If the turn ends it, the caller is told, and on a turn that asks for it the
exchange leaves the register; tells whether room may have come free. -/
def turn (r : Reaction κ τ ω σ) (ticket : Ticket) (act : Metadata → Turn κ → Turn κ) (s : Session κ τ ω σ) :
    Bool × Session κ τ ω σ :=
  match s.streamOf ticket with
  | none => (false, s)
  | some stream =>
    let t := act s.metadata { stream, codec := s.codec, history := s.history }
    let s := { s with codec := t.codec, history := t.history }.keep t.stream
    match t.ending with
    | none => (false, s)
    | some e =>
      let s := s.settle r ticket e.outcome
      if e.announce then s.release stream.id else (false, s)

def finish (r : Reaction κ τ ω σ) (stream : Stream) (reason : CloseReason) (causes : List Fault)
    (s : Session κ τ ω σ) : Session κ τ ω σ :=
  let t : Turn κ := { stream, codec := s.codec, history := s.history }
  let t := t.close s.metadata reason causes false
  let s := { s with history := t.history }
  match t.ending with
  | none => s
  | some e => s.settle r stream.ticket e.outcome

end Multiplex.Session
