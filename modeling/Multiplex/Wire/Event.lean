import Multiplex.Header
import Multiplex.Wire.ErrorCode

/-! What received bytes amount to: a sequence of events, most of them about one stream. -/
namespace Multiplex.Wire

/-- Content of an event. Data counts against the receive window with its padding. -/
inductive EventBody where
  | response (headers : Headers)
  | data (bytes : Bytes) (flowLength : Nat)
  | ended
  | reset (code : ErrorCode)
  | windowUpdated
  | settingsAcknowledged
  | remoteSettingsChanged
  | terminated (code : ErrorCode) (lastStream : UInt32) (debug : Bytes)
  | unknownFrame (frame : UInt8)
  | unlisted (kind : UInt8)
  deriving DecidableEq, Inhabited

namespace EventBody

def kindNames : List String :=
  ["RESPONSE_RECEIVED", "DATA_RECEIVED", "STREAM_ENDED", "STREAM_RESET", "WINDOW_UPDATED",
    "SETTINGS_ACKNOWLEDGED", "REMOTE_SETTINGS_CHANGED", "CONNECTION_TERMINATED", "UNKNOWN_FRAME_RECEIVED"]

def kindName (kind : UInt8) : String := kindNames.getD kind.toNat "UNKNOWN"

def kind : EventBody → UInt8
  | response _ => 0
  | data _ _ => 1
  | ended => 2
  | reset _ => 3
  | windowUpdated => 4
  | settingsAcknowledged => 5
  | remoteSettingsChanged => 6
  | terminated _ _ _ => 7
  | unknownFrame _ => 8
  | unlisted k => k

def blank (kind : UInt8) : EventBody :=
  match kind.toNat with
  | 0 => response []
  | 1 => data [] 0
  | 2 => ended
  | 3 => reset .noError
  | 4 => windowUpdated
  | 5 => settingsAcknowledged
  | 6 => remoteSettingsChanged
  | 7 => terminated .noError 0 []
  | 8 => unknownFrame 0
  | _ => unlisted kind

theorem kind_blank (k : UInt8) : (blank k).kind = k := by
  have h : ∀ n : Fin 256, (blank (UInt8.ofFin n)).kind = UInt8.ofFin n := by decide +kernel
  exact h k.toFin

end EventBody

/-- An event and the stream that it names; zero is the connection itself. -/
structure Event where
  stream : UInt32 := 0
  body : EventBody := .unknownFrame 0
  deriving DecidableEq, Inhabited

namespace Event

def kindName (e : Event) : String := EventBody.kindName e.body.kind

def headers (e : Event) : Headers :=
  match e.body with
  | .response headers => headers
  | _ => []

def bytes (e : Event) : Bytes :=
  match e.body with
  | .data bytes _ => bytes
  | _ => []

def flowLength (e : Event) : Nat :=
  match e.body with
  | .data _ n => n
  | _ => 0

def code (e : Event) : ErrorCode :=
  match e.body with
  | .reset code => code
  | .terminated code _ _ => code
  | _ => .noError

def lastStream (e : Event) : UInt32 :=
  match e.body with
  | .terminated _ last _ => last
  | _ => 0

def debug (e : Event) : Bytes :=
  match e.body with
  | .terminated _ _ debug => debug
  | _ => []

def frame (e : Event) : UInt8 :=
  match e.body with
  | .unknownFrame frame => frame
  | _ => 0

end Event

end Multiplex.Wire
