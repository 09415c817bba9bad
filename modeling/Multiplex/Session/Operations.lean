import Multiplex.Session.Dispatch

/-! The operations of a connection: opening it, submitting requests, and what its transport and its clock report. -/
namespace Multiplex.Session

open Bytes Wire

variable {κ τ ω σ : Type}

def create (base : Bytes) (codec : Option κ) (loop : Option (Loop (Notice ω))) (options : Options)
    (lossNotice : Option (Completion ω (List Fault))) (clock : UInt64) (program : σ) :
    History × Except Fault (Session κ τ ω σ) :=
  match codec, loop with
  | some codec, some loop =>
    match Url.parse base with
    | .error e =>
      (History.note [] .error "Session" (ascii "Invalid base url '" ++ untilNul base ++ ascii "': "
        ++ untilNul e.message), .error e)
    | .ok baseUrl =>
      ([], .ok {
        codec, loop, clock, program, options, lossNotice
        metadata := { baseUrl, maxSize := options.maxSize, warnSize := options.warnSize }
        idle := { timeout := options.idleTimeout } })
  | _, _ => ([], .error (.plain .missingObject "Codec and event loop are required"))

variable [Codec κ] [Transport τ]

def refusal (s : Session κ τ ω σ) : Option Fault :=
  if s.lost || s.closing then some (.plain .networkClosed "Connection already closed")
  else if lastId < s.nextId then some (.plain .streamInvalidState "Stream ids exhausted")
  else none

def issueTicket (s : Session κ τ ω σ) : Ticket × Session κ τ ω σ :=
  (s.completions.length, { s with completions := s.completions ++ [{}] })

def submit (r : Reaction κ τ ω σ) (request : Request) (s : Session κ τ ω σ) : Ticket × Session κ τ ω σ :=
  let (ticket, s) := s.issueTicket
  match s.refusal with
  | some cause =>
    let s := s.note .warn (ascii "Rejecting request " ++ untilNul request.url ++ ascii ": "
      ++ untilNul cause.message)
    (ticket, s.finish r (Stream.new 0 ticket request s.metadata) .inactive [cause])
  | none =>
    let id := s.nextId
    let s := { s with nextId := id + 2 }
    let stream := Stream.new id ticket request s.metadata
    match s.registry.add id { stream with state := .pending } with
    | .error e =>
      let s := s.note .warn (e.warning.getD [])
      let s := s.note .error (ascii "Failed to register stream " ++ Decimal.write id.toNat ++ ascii ": "
        ++ e.fault.message)
      (ticket, s.finish r stream .inactive [])
    | .ok registry =>
      let s := { s with registry }
      let s := s.note .debug (stream.label ++ ascii " queued: " ++ untilNul request.method ++ ascii " "
        ++ untilNul request.url ++ ascii " (pending=" ++ Decimal.write registry.pendingCount
        ++ ascii ", active=" ++ Decimal.write registry.active ++ ascii ")")
      (ticket, s.hold [ticket] |>.admitQueued r |>.flush r |>.letGo ticket)

def established (r : Reaction κ τ ω σ) (transport : Option τ) (s : Session κ τ ω σ) : Session κ τ ω σ :=
  match transport with
  | none => s.note .error (ascii "Transport is null")
  | some t =>
    if s.lost then s.note .warn (ascii "Transport established after session was closed, ignoring")
    else
      let s := { s with
        transport := some t
        idle := s.idle.start s.clock
        metadata.peer := Transport.peer t }
      let s := s.note .info (ascii "Connection made to " ++ s.peerText)
      { s with codec := Codec.initiate s.codec s.options.settings }
        |>.enter (.call (.initiate s.options.settings))
        |>.flush r

def handshakeCompleted (r : Reaction κ τ ω σ) (s : Session κ τ ω σ) : Session κ τ ω σ :=
  match s.transport.filter fun _ => !s.lost && !s.closing with
  | none => s
  | some t =>
    let protocol := Transport.negotiated t
    if protocol = ascii "h2" then s
    else
      s.note .error (ascii "Negotiated protocol '" ++ untilNul protocol ++ ascii "' is not h2")
        |>.loseWith r ⟨.tlsInvalidNegotiatedProtocol, ascii "Expected h2 as negotiated protocol, received "
          ++ if protocol.isEmpty then ascii "none" else protocol⟩

def bytesReceived (r : Reaction κ τ ω σ) (data : Bytes) (s : Session κ τ ω σ) : Session κ τ ω σ :=
  if s.lost || s.closing then
    s.note .debug (ascii "Dropping " ++ Decimal.write data.length
      ++ ascii " bytes received while connection is closing")
  else
    let s := { s with idle := s.idle.touch s.clock }
    let (events, codec) := Codec.receive s.codec data
    let s := { s with codec }.enter (.call (.receive data))
    match events with
    | .ok events => s.handleAll r events |>.flush r
    | .error e =>
      s.note .error (ascii "Protocol error from " ++ s.peerText ++ ascii ": " ++ untilNul e.message)
        |>.flush r |>.loseWith r e

/-- Nothing may be going on when a connection is closed for being idle. -/
def isBusy (s : Session κ τ ω σ) : Bool :=
  0 < Codec.openOutbound s.codec || 0 < Codec.openInbound s.codec || 0 < s.registry.active || !s.registry.isEmpty

def idleTimeout (r : Reaction κ τ ω σ) (s : Session κ τ ω σ) : Session κ τ ω σ :=
  if s.lost || s.closing then s
  else
    let code : ErrorCode := if s.isBusy then .protocolError else .noError
    let s := s.note .warn (ascii "Connection to " ++ s.peerText ++ ascii " idle for "
      ++ Decimal.write s.idle.timeout.toNat ++ ascii " ms, closing with " ++ code.text)
    { s with codec := Codec.close s.codec code }
      |>.enter (.call (.close code))
      |>.flush r
      |>.loseWith r ⟨.networkIdleTimeout, ascii "Connection was idle for more than "
        ++ Decimal.write (s.idle.timeout / 1000).toNat ++ ascii "s"⟩

def checkIdle (r : Reaction κ τ ω σ) (s : Session κ τ ω σ) : Bool × Session κ τ ω σ :=
  if s.lost || s.closing || !s.idle.isExpired s.clock then (false, s) else (true, s.idleTimeout r)

end Multiplex.Session
