import Multiplex.Decimal
import Multiplex.Wire.Codec

/-! A codec that follows a script. Its windows, limits and return codes are set from outside, and every call leaves
a short text in place of a frame. -/
namespace Multiplex.Scripted

open Bytes Wire

structure Returns where
  queue : List Int32 := []
  constant : Int32 := 0
  deriving DecidableEq

def Returns.next (r : Returns) : Int32 × Returns :=
  match r.queue with
  | [] => (r.constant, r)
  | c :: queue => (c, { r with queue })

/-- What the next received bytes amount to: events, or a fault with some last output. -/
inductive Arrival where
  | events (events : List Event)
  | failure (cause : Fault) (output : Bytes)

structure Codec where
  defaultWindow : Int32 := 65535
  windows : List (UInt32 × Int32) := []
  maxFrame : UInt32 := 16384
  localLimit : UInt32 := 100
  remoteLimit : UInt32 := 100
  openOutbound : UInt32 := 0
  openInbound : UInt32 := 0
  headers : Returns := {}
  data : Returns := {}
  resets : Returns := {}
  /-- What waits to be sent, the newest part first. -/
  output : List Bytes := []
  arrival : Arrival := .events []

namespace Codec

def window (c : Codec) (id : UInt32) : Int32 := ((c.windows.find? (·.1 == id)).map (·.2)).getD c.defaultWindow

def setWindow (c : Codec) (id : UInt32) (window : Int32) : Codec :=
  { c with windows := (id, window) :: c.windows.filter (·.1 != id) }

def emit (c : Codec) (bytes : Bytes) : Codec := { c with output := bytes :: c.output }

def frame (name : String) (n : UInt32) : Bytes :=
  ascii name ++ ascii "(" ++ Decimal.write n.toNat ++ ascii ");"

def tooLarge : Int32 := -3

def fits (c : Codec) (id : UInt32) (length : Nat) : Bool :=
  length ≤ (c.window id).toInt && length ≤ c.maxFrame.toNat

instance : Wire.Codec Codec where
  receive c _ :=
    match c.arrival with
    | .events events => (.ok events, { c with arrival := .events [] })
    | .failure cause output => (.error cause, { c with arrival := .events [] }.emit output)
  takeOutput c := (c.output.reverse.flatten, { c with output := [] })
  initiate c _ := c.emit (ascii "PREFACE;")
  close c code := c.emit (frame "GOAWAY" code.number)
  sendHeaders c id _ _ :=
    let (ret, headers) := c.headers.next
    let c := { c with headers }
    (ret, if ret = 0 then c.emit (frame "HEADERS" id) else c)
  sendData c id bytes _ :=
    let (ret, data) := c.data.next
    let c := { c with data }
    let ret := if ret = 0 && !c.fits id bytes.length then tooLarge else ret
    (ret, if ret = 0 then (c.setWindow id (c.window id - Int32.ofNat bytes.length)).emit (frame "DATA" id) else c)
  reset c id _ :=
    let (ret, resets) := c.resets.next
    let c := { c with resets }
    (ret, if ret = 0 then c.emit (frame "RST_STREAM" id) else c)
  acknowledge c _ _ := c
  window := window
  maxFrame := Codec.maxFrame
  localLimit := Codec.localLimit
  remoteLimit := Codec.remoteLimit
  openOutbound := Codec.openOutbound
  openInbound := Codec.openInbound

end Codec

/-- A change to the script; what it leaves out stays as it is. -/
structure CodecChange where
  defaultWindow : Option Int32 := none
  windows : List (UInt32 × Int32) := []
  maxFrame : Option UInt32 := none
  localLimit : Option UInt32 := none
  remoteLimit : Option UInt32 := none
  openOutbound : Option UInt32 := none
  openInbound : Option UInt32 := none
  headersRet : Option Int32 := none
  dataRet : Option Int32 := none
  resetRet : Option Int32 := none
  headersQueue : Option (List Int32) := none
  dataQueue : Option (List Int32) := none
  resetQueue : Option (List Int32) := none
  output : Bytes := []

def Returns.change (r : Returns) (queue : Option (List Int32)) (constant : Option Int32) : Returns :=
  ⟨queue.getD r.queue, constant.getD r.constant⟩

def Codec.change (c : Codec) (d : CodecChange) : Codec :=
  let c := { c with
    defaultWindow := d.defaultWindow.getD c.defaultWindow
    maxFrame := d.maxFrame.getD c.maxFrame
    localLimit := d.localLimit.getD c.localLimit
    remoteLimit := d.remoteLimit.getD c.remoteLimit
    openOutbound := d.openOutbound.getD c.openOutbound
    openInbound := d.openInbound.getD c.openInbound
    headers := c.headers.change d.headersQueue d.headersRet
    data := c.data.change d.dataQueue d.dataRet
    resets := c.resets.change d.resetQueue d.resetRet }
  (d.windows.foldl (fun c w => c.setWindow w.1 w.2) c).emit d.output

end Multiplex.Scripted
