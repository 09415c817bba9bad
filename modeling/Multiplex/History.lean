import Multiplex.Log.Line
import Multiplex.Stream.State
import Multiplex.Wire.Event
import Multiplex.Wire.Settings

/-! The record of a connection: every call on codec and transport with its return code, every log line, every
settled request. The newest entry stands first. -/
namespace Multiplex

/-- Requests are told apart by the order in which they were submitted. -/
abbrev Ticket := Nat

/-- A call on the codec or, for the last two, on the transport. -/
inductive Call where
  | receive (bytes : Bytes)
  | initiate (settings : Wire.Settings)
  | close (code : Wire.ErrorCode)
  | headers (stream : UInt32) (fields : Headers) (endStream : Bool) (ret : Int32)
  | data (stream : UInt32) (bytes : Bytes) (endStream : Bool) (ret : Int32)
  | reset (stream : UInt32) (code : Wire.ErrorCode) (ret : Int32)
  | acknowledge (stream : UInt32) (length : Nat)
  | write (bytes : Bytes) (ret : Int32)
  | lose
  deriving DecidableEq

inductive Entry where
  | call (call : Call)
  | log (line : Log.Line)
  | settled (ticket : Ticket) (outcome : Outcome)
  | dispatched (event : Wire.Event)
  /-- Whether the connection was ready, and how many exchanges were running with this one. -/
  | admitted (ticket : Ticket) (ready : Bool) (active limit : Nat)
  | lossAnnounced (causes : List Fault)
  deriving DecidableEq

abbrev History := List Entry

namespace History

def calls (h : History) : List Call :=
  h.reverse.filterMap fun
    | .call c => some c
    | _ => none

def lines (h : History) : List Log.Line :=
  h.reverse.filterMap fun
    | .log l => some l
    | _ => none

def linesFrom (threshold : Log.Level) (h : History) : List Log.Line :=
  h.lines.filter fun l => threshold.admits l.level

def note (h : History) (level : Log.Level) (source : String) (message : Bytes) : History :=
  .log (Log.line level source message) :: h

@[simp] theorem calls_nil : calls [] = [] := rfl

@[simp] theorem calls_cons_call (c : Call) (h : History) : calls (.call c :: h) = calls h ++ [c] := by
  simp [calls]

@[simp] theorem calls_cons_log (l : Log.Line) (h : History) : calls (.log l :: h) = calls h := by
  simp [calls]

@[simp] theorem calls_note (h : History) (level : Log.Level) (source : String) (message : Bytes) :
    calls (h.note level source message) = calls h := by simp [note]

end History

end Multiplex
