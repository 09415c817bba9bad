import Multiplex.Stream.Turn

/-! Receiving a response. A limit on its size is checked against what was announced and against what came. -/
namespace Multiplex.Turn

open Bytes Wire

variable {κ : Type} [Codec κ]

def checkSize (m : Metadata) (size : Nat) (t : Turn κ) : Turn κ :=
  if 0 < t.stream.maxSize ∧ t.stream.maxSize < size then
    t.note .error (ascii "Cancelling stream " ++ Decimal.write t.stream.id.toNat ++ ascii ": response size "
        ++ Decimal.write size ++ ascii " larger than download max size " ++ Decimal.writeInt t.stream.maxSize)
      |>.resetAndClose m .cancel .maxsizeExceeded
  else if 0 < t.stream.warnSize ∧ t.stream.warnSize < size ∧ t.stream.warned = false then
    { t with stream.warned := true }
      |>.note .warn (t.stream.label ++ ascii ": response size " ++ Decimal.write size
        ++ ascii " larger than download warn size " ++ Decimal.writeInt t.stream.warnSize)
  else t

/-- Takes up one field of a response head. The status is kept as a 32-bit word. -/
def absorb (t : Turn κ) (field : Bytes × Bytes) : Turn κ :=
  if field.1 = ascii ":status" then
    match Decimal.read field.2 with
    | some n => { t with stream.response.status := Int32.ofNat n }
    | none =>
      t.note .warn (t.stream.label ++ ascii ": invalid :status '" ++ untilNul field.2 ++ ascii "'")
  else if Header.isPseudo field.1 then t
  else { t with stream.response := t.stream.response.addHeader field.1 field.2 }

def announcedSize (r : Response) : Option Nat :=
  (Header.find r.headers (ascii "content-length")).bind Decimal.read

def receiveHeaders (m : Metadata) (fields : Headers) (t : Turn κ) : Turn κ :=
  if t.stream.state = .closed then
    t.note .warn (t.stream.label ++ ascii ": headers received after close, ignoring")
  else
    let t := fields.foldl absorb t
    let t : Turn κ := { t with stream.headersReceived := true }
    match announcedSize t.stream.response with
    | some n => { t with stream.expectedSize := some n }.checkSize m n
    | none => t

def receiveData (m : Metadata) (data : Bytes) (flowLength : Nat) (t : Turn κ) : Turn κ :=
  if t.stream.state = .closed then
    t.note .warn (t.stream.label ++ ascii ": data received after close, ignoring")
  else
    let t :=
      if t.stream.headersReceived = false ∧ t.stream.response.body = [] then
        t.note .warn (t.stream.label ++ ascii ": data received before response headers")
      else t
    let t : Turn κ := { t with stream.response := t.stream.response.appendBody data }
    let t := t.record (Codec.acknowledge t.codec flowLength t.stream.id) (.acknowledge t.stream.id flowLength)
    t.checkSize m t.stream.response.body.length

end Multiplex.Turn
