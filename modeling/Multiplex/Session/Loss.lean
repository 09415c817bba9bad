import Multiplex.Session.Streams

/-! Sending, and the end of a connection. The connection asks its transport to close at most once; when the loss is
reported, every exchange that is left is ended: those whose request went out with the causes, the others without. -/
namespace Multiplex.Session

open Bytes Wire

variable {κ τ ω σ : Type} [Codec κ] [Transport τ]

def transportLost (r : Reaction κ τ ω σ) (cause : Option Fault) (s : Session κ τ ω σ) : Session κ τ ω σ :=
  if s.lost then s.note .debug (ascii "Connection already lost, ignoring")
  else
    let s := { s with
      lost := true
      closing := true
      idle := s.idle.cancel
      causes := s.causes ++ cause.toList }
    let s := s.note .info (ascii "Connection to " ++ s.peerText ++ ascii " lost: "
      ++ Decimal.write s.causes.length ++ ascii " cause(s), " ++ Decimal.write s.registry.size
      ++ ascii " stream(s) remaining")
    let s := s.announceLoss r
    let streams := s.registry.snapshot
    let s := { s with registry := s.registry.clear }
    let s := streams.foldl (fun s stream =>
      if stream.requestSent then s.finish r stream .connectionLost s.causes
      else s.finish r stream .inactive []) s
    { s with codec := Codec.close s.codec .noError }.enter (.call (.close .noError))

/-- Asks the transport to close because of a fault. While the loss is awaited, further faults only add up. -/
def loseWith (r : Reaction κ τ ω σ) (cause : Fault) (s : Session κ τ ω σ) : Session κ τ ω σ :=
  if s.lost then
    s.note .debug (ascii "Connection already lost, dropping cause: " ++ untilNul cause.message)
  else
    let s := { s with causes := s.causes ++ [cause] }
    if s.closing then s
    else
      let s := { s with closing := true, idle := s.idle.cancel }
      match s.transport with
      | none => s.transportLost r none
      | some t =>
        let (report, t) := Transport.lose t
        let s := { s with transport := some t }.enter (.call .lose)
        match report with
        | .later => s
        | .clean => s.transportLost r none
        | .failed cause => s.transportLost r (some cause)

def flush (r : Reaction κ τ ω σ) (s : Session κ τ ω σ) : Session κ τ ω σ :=
  let (data, codec) := Codec.takeOutput s.codec
  let s := { s with codec }
  if data.isEmpty then s
  else
    match s.transport.filter fun _ => !s.lost with
    | none =>
      s.note .debug (ascii "Discarding " ++ Decimal.write data.length ++ ascii " bytes, transport unavailable")
    | some t =>
      let (ret, t) := Transport.write t data
      let s := { s with transport := some t }.enter (.call (.write data ret))
      if ret = 0 then { s with idle := s.idle.touch s.clock }
      else
        let s := s.note .error (ascii "Failed to write " ++ Decimal.write data.length ++ ascii " bytes to "
          ++ s.peerText ++ ascii ", ret=" ++ Decimal.writeInt ret.toInt)
        s.loseWith r ⟨.networkWriteError, ascii "Failed to write " ++ Decimal.write data.length
          ++ ascii " bytes to transport, ret=" ++ Decimal.writeInt ret.toInt⟩

def discard (r : Reaction κ τ ω σ) (s : Session κ τ ω σ) : Session κ τ ω σ :=
  if s.lost then s else { s with transport := none }.transportLost r none

end Multiplex.Session
