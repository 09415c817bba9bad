import Multiplex.Session.Admission
import Multiplex.Session.Loss

/-! What each event does. Events about one exchange reach it by its id; an event about the connection reaches all
exchanges or the connection itself. -/
namespace Multiplex.Session

open Bytes Wire

variable {κ τ ω σ : Type} [Codec κ] [Transport τ]

def withStream (e : Event) (act : Stream → Session κ τ ω σ → Session κ τ ω σ)
    (otherwise : Session κ τ ω σ → Session κ τ ω σ) (s : Session κ τ ω σ) : Session κ τ ω σ :=
  match s.registry.find e.stream with
  | some stream => act stream s
  | none =>
    otherwise (s.note .warn (ascii e.kindName ++ ascii " for unknown stream " ++ Decimal.write e.stream.toNat
      ++ ascii ", ignoring"))

def concludeStream (r : Reaction κ τ ω σ) (e : Event) (act : Stream → Session κ τ ω σ → Session κ τ ω σ)
    (s : Session κ τ ω σ) : Session κ τ ω σ :=
  match s.registry.remove e.stream with
  | (some stream, registry) => act stream { s with registry } |>.admitQueued r
  | (none, _) =>
    s.note .warn (ascii e.kindName ++ ascii " for unknown stream " ++ Decimal.write e.stream.toNat
      ++ ascii ", ignoring")

def resumeAll (r : Reaction κ τ ω σ) (s : Session κ τ ω σ) : Session κ τ ω σ :=
  let tickets := s.registry.snapshot.map (·.ticket)
  let s := tickets.foldl (fun s ticket =>
    match s.streamOf ticket with
    | none => s
    | some stream => if stream.isClosed then s else s.step r ticket Turn.receiveWindowUpdate) (s.hold tickets)
  tickets.foldl (fun s ticket => s.letGo ticket) s

def settingsAcknowledged (r : Reaction κ τ ω σ) (s : Session κ τ ω σ) : Session κ τ ω σ :=
  let s := { s with acknowledged := true }
  let s :=
    match s.transport.map Transport.certificate with
    | some (.shown c) =>
      { s with metadata.certificate := some c }.note .debug (ascii "Peer certificate: " ++ untilNul c.subject)
    | some (.unreadable why) =>
      s.note .warn (ascii "Failed to parse peer certificate: " ++ untilNul why)
    | _ => s
  let s := s.note .info (ascii "Settings acknowledged by " ++ s.peerText ++ ascii ", allowed concurrent streams="
    ++ Decimal.write s.streamLimit)
  s.admitQueued r

def goawayMessage (host : Bytes) (code : ErrorCode) (last : UInt32) (debug : Bytes) : Bytes :=
  ascii "Received GOAWAY from " ++ host ++ ascii " with error " ++ code.text ++ ascii ", last stream "
    ++ Decimal.write last.toNat ++ if debug.isEmpty then [] else ascii ": " ++ debug

def terminated (r : Reaction κ τ ω σ) (code : ErrorCode) (last : UInt32) (debug : Bytes)
    (s : Session κ τ ω σ) : Session κ τ ω σ :=
  let message := goawayMessage s.metadata.peer.host code last debug
  s.note .warn (untilNul message) |>.loseWith r ⟨.protocolGoaway, message⟩

def resetByPeer (r : Reaction κ τ ω σ) (code : ErrorCode) (stream : Stream) (s : Session κ τ ω σ) :
    Session κ τ ω σ :=
  s.note .info (stream.label ++ ascii " reset by peer: " ++ code.text)
    |>.finish r stream .reset [⟨.streamReset, ascii "Stream reset with " ++ code.text⟩]

def hexByte (b : UInt8) : Bytes :=
  let digit (n : Nat) : UInt8 := UInt8.ofNat (if n < 10 then 48 + n else 87 + n)
  [digit (b.toNat / 16), digit (b.toNat % 16)]

def handle (r : Reaction κ τ ω σ) (e : Event) (s : Session κ τ ω σ) : Session κ τ ω σ :=
  match e.body with
  | .response fields =>
    s.withStream e (fun stream s => s.step r stream.ticket fun m => Turn.receiveHeaders m fields) id
  | .data bytes n =>
    s.withStream e (fun stream s => s.step r stream.ticket fun m => Turn.receiveData m bytes n) fun s =>
      { s with codec := Codec.acknowledge s.codec n e.stream }.enter (.call (.acknowledge e.stream n))
  | .ended => s.concludeStream r e fun stream s => s.finish r stream .ended []
  | .reset code => s.concludeStream r e (resetByPeer r code)
  | .windowUpdated =>
    if e.stream = 0 then s.resumeAll r
    else s.withStream e (fun stream s => s.step r stream.ticket Turn.receiveWindowUpdate) id
  | .settingsAcknowledged => s.settingsAcknowledged r
  | .remoteSettingsChanged => s.admitQueued r
  | .terminated code last debug => s.terminated r code last debug
  | .unknownFrame frame => s.note .debug (ascii "Unknown frame received: type=0x" ++ hexByte frame)
  | .unlisted _ => s

/-- Handles the events of one batch, as long as none of them closes the connection. -/
def handleAll (r : Reaction κ τ ω σ) (events : List Event) (s : Session κ τ ω σ) : Session κ τ ω σ :=
  events.foldl (fun s e => if s.lost || s.closing then s else s.enter (.dispatched e) |>.handle r e) s

end Multiplex.Session
