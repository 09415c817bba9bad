import Multiplex.Stream.Turn

/-! Sending a request. The body goes out in pieces that fit the window and the largest frame; what does not fit
waits for the window to open. -/
namespace Multiplex.Turn

open Bytes Wire

variable {κ : Type} [Codec κ]

def room (t : Turn κ) : Nat :=
  min (Codec.window t.codec t.stream.id).toInt.toNat (Codec.maxFrame t.codec).toNat

def offer (t : Turn κ) : Int32 × Turn κ :=
  let piece := t.stream.unsent.take t.room
  let rest := t.stream.unsent.drop t.room
  let (ret, codec) := Codec.sendData t.codec t.stream.id piece rest.isEmpty
  let t := t.record codec (.data t.stream.id piece rest.isEmpty ret)
  (ret, if ret = 0 then { t with stream.unsent := rest } else t)

theorem unsent_offer {t : Turn κ} (h : t.offer.1 = 0) :
    t.offer.2.stream.unsent = t.stream.unsent.drop t.room := by
  have h' : (Codec.sendData t.codec t.stream.id (t.stream.unsent.take t.room)
      (t.stream.unsent.drop t.room).isEmpty).1 = 0 := h
  simp [offer, record, h']

def sendBody (m : Metadata) (t : Turn κ) : Turn κ :=
  if t.stream.unsent = [] then
    if t.stream.state = .opened then { t with stream.state := .halfClosed } else t
  else if (Codec.window t.codec t.stream.id).toInt ≤ 0 then
    t.note .debug (t.stream.label ++ ascii ": flow control window exhausted, "
      ++ Decimal.write t.stream.unsent.length ++ ascii " bytes left")
  else if t.room = 0 then t
  else
    let o := t.offer
    if o.1 = 0 then sendBody m o.2
    else
      o.2.note .error (t.stream.label ++ ascii ": failed to send request body, ret="
        ++ Decimal.writeInt o.1.toInt) |>.resetAndClose m .internalError .reset
termination_by t.stream.unsent.length
decreasing_by
  rw [unsent_offer ‹_›, List.length_drop]
  have := List.length_pos_iff.2 ‹¬t.stream.unsent = []›
  omega

def start (m : Metadata) (url : Url) (t : Turn κ) : Turn κ :=
  let fields := t.stream.requestFields url
  let endStream := t.stream.request.body.isEmpty
  let (ret, codec) := Codec.sendHeaders t.codec t.stream.id fields endStream
  let t := t.record codec (.headers t.stream.id fields endStream ret)
  if ret = 0 then
    let state : StreamState := if endStream then .halfClosed else .opened
    let t : Turn κ := { t with stream.requestSent := true, stream.state := state }
    let t := t.note .debug (t.stream.label ++ ascii ": " ++ untilNul t.stream.request.method ++ ascii " "
      ++ untilNul t.stream.request.url ++ ascii " sent")
    if endStream then t else t.sendBody m
  else
    let t := t.note .error (t.stream.label ++ ascii ": failed to send request headers, ret="
      ++ Decimal.writeInt ret.toInt)
    t.close m .reset [.plain .protocolStreamError "Failed to send request headers"] true

/-- Starts a queued exchange if its address is that of the connection. -/
def initiate (m : Metadata) (t : Turn κ) : Turn κ :=
  if t.stream.state ≠ .pending then t.warnStray " cannot initiate request in state "
  else
    match (Url.parse t.stream.request.url).toOption.filter (·.sameOrigin m.baseUrl) with
    | some url => t.start m url
    | none =>
      t.note .warn (t.stream.label ++ ascii ": request url '" ++ untilNul t.stream.request.url
        ++ ascii "' does not match connection '" ++ untilNul m.baseUrl.authority ++ ascii "'")
      |>.close m .invalidHostname [] true

def receiveWindowUpdate (m : Metadata) (t : Turn κ) : Turn κ :=
  if t.stream.state = .opened ∧ t.stream.requestSent ∧ t.stream.unsent ≠ [] then t.sendBody m else t

end Multiplex.Turn
