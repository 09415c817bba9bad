import Multiplex.Session.Streams

/-! Admission: queued exchanges start in the order of their submission, as long as the connection is ready and
fewer are running than both sides allow. An exchange that ends while it is being admitted makes room for the next
one in the same pass, so a pass that is under way is not entered again. -/
namespace Multiplex.Session

open Bytes Wire

variable {κ τ ω σ : Type} [Codec κ] [Transport τ]

def canAdmit (s : Session κ τ ω σ) : Bool :=
  !s.registry.pending.isEmpty && s.registry.active < s.streamLimit && s.isReady

def begin (r : Reaction κ τ ω σ) (stream : Stream) (s : Session κ τ ω σ) : Session κ τ ω σ :=
  let s := s.note .debug (ascii "Admitting stream " ++ Decimal.write stream.id.toNat ++ ascii " (active="
    ++ Decimal.write s.registry.active ++ ascii ", allowed=" ++ Decimal.write s.streamLimit ++ ascii ")")
  let s := s.enter (.admitted stream.ticket s.isReady s.registry.active s.streamLimit)
  (s.turn r stream.ticket Turn.initiate).2

def admitUpTo (r : Reaction κ τ ω σ) : Nat → Session κ τ ω σ → Session κ τ ω σ
  | 0, s => s
  | n + 1, s =>
    if s.canAdmit then
      match s.registry.admitNext with
      | (none, registry) => { s with registry }
      | (some stream, registry) => admitUpTo r n ({ s with registry }.begin r stream)
    else s

/-- A pass starts no more exchanges than are queued and than observers can still submit during it. -/
def admitQueued (r : Reaction κ τ ω σ) (s : Session κ τ ω σ) : Session κ τ ω σ :=
  if s.admitting then s
  else
    let most := s.registry.pendingCount + s.idsLeft
    let s := { s with admitting := true }
    let s := s.admitUpTo r most
    { s with admitting := false }

/-- Runs a turn of an exchange and fills the room that it leaves. -/
def step (r : Reaction κ τ ω σ) (ticket : Ticket) (act : Metadata → Turn κ → Turn κ) (s : Session κ τ ω σ) :
    Session κ τ ω σ :=
  match s.turn r ticket act with
  | (true, s) => s.admitQueued r
  | (false, s) => s

def streamClosed (r : Reaction κ τ ω σ) (id : UInt32) (s : Session κ τ ω σ) : Session κ τ ω σ :=
  match s.release id with
  | (true, s) => s.admitQueued r
  | (false, s) => s

end Multiplex.Session
