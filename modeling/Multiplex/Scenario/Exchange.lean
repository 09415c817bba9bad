import Multiplex.Completion
import Multiplex.Loop
import Multiplex.Scripted.Codec
import Multiplex.Stream.Operation

/-! A single exchange at a codec, without a connection around it. Its end is told to observers through a loop and, on a
turn that asks for it, to a listener. With a scripted codec it can be put through a list of steps. -/
namespace Multiplex.Scenario.Exchange

open Bytes

structure Listener where
  answer : Option (List Turn.Operation)

def Listener.absent : Listener := ⟨none⟩

def Listener.recording : Listener := ⟨some []⟩

def Listener.reclosing : Listener := ⟨some [.close .reset [] true]⟩

inductive Step where
  | markPending
  | initiate
  | headers (fields : Headers)
  | data (bytes : Bytes) (flowLength : Nat)
  | windowUpdate
  | close (reason : CloseReason) (causes : List Fault) (announce : Bool)
  | request
  | destroy
  | run
  | stopLoop
  | codec (change : Scripted.CodecChange)
  | observe
  | peek

def Step.standsAlone : Step → Bool
  | run | stopLoop | codec _ | observe | peek => true
  | _ => false

inductive Answer where
  | nothing
  | count (n : Nat)
  | request (r : Request)
  | outcome (o : Outcome)
  | destroyed

inductive Happening where
  | done (outcome : Outcome)
  | closed (id : UInt32)

structure State (κ : Type) where
  metadata : Metadata
  listener : Listener
  stream : Stream
  /-- Whether there still is an exchange. -/
  present : Bool := true
  codec : κ
  completion : Completion Unit Outcome := { observers := [()] }
  loop : Loop Outcome := {}
  history : History := []
  happenings : List Happening := []

variable {κ : Type}

def happen (h : Happening) (s : State κ) : State κ := { s with happenings := h :: s.happenings }

def note (level : Log.Level) (source : String) (message : Bytes) (s : State κ) : State κ :=
  { s with history := s.history.note level source message }

def tell (o : Outcome) (s : State κ) : State κ :=
  match s.loop.post o with
  | some loop => { s with loop }
  | none =>
    s |> note .warn "Completion" (ascii "Event loop unavailable, notifying observer inline") |> happen (.done o)

def refusal : Bytes := ascii "Completion fulfilled more than once, ignoring"

def settle (o : Outcome) (s : State κ) : State κ :=
  match s.completion.fulfil o with
  | none => note .warn "Completion" refusal s
  | some (os, completion) =>
    os.foldl (fun s _ => tell o s) { s with completion, history := .settled s.stream.ticket o :: s.history }

def State.turn (s : State κ) : Turn κ := { stream := s.stream, codec := s.codec, history := s.history }

section Calls

variable [Wire.Codec κ]

/-- Does what is asked of the exchange, up to telling the outcome; says whether the listener is to hear of it. -/
def ask (op : Turn.Operation) (s : State κ) : Bool × State κ :=
  let t := s.turn.perform s.metadata op
  let s := { s with stream := t.stream, codec := t.codec, history := t.history }
  match t.ending with
  | none => (false, s)
  | some e => (e.announce, settle e.outcome s)

/-- What the listener asks in answer. If it were to hear once more while it answers, it would take note only. -/
def answer (op : Turn.Operation) (s : State κ) : State κ :=
  let (announce, s) := ask op s
  if announce then happen (.closed s.stream.id) s else s

def act (op : Turn.Operation) (s : State κ) : State κ :=
  let (announce, s) := ask op s
  if announce then
    match s.listener.answer with
    | none => s
    | some ops => ops.foldl (fun s op => answer op s) (happen (.closed s.stream.id) s)
  else s

end Calls

/-- Rounds of the loop until one finds it empty. Observers post nothing, so the first round is the last. -/
def runLoop (s : State κ) : Nat × State κ :=
  (s.loop.queue.length, s.loop.queue.foldl (fun s o => happen (.done o) s) { s with loop := s.loop.emptied })

def perform (step : Step) (s : State Scripted.Codec) : Answer × State Scripted.Codec :=
  if !s.present && !step.standsAlone then (.destroyed, s)
  else
    match step with
    | .markPending => (.nothing, act .markPending s)
    | .initiate => (.nothing, act .initiate s)
    | .headers fields => (.nothing, act (.receiveHeaders fields) s)
    | .data bytes n => (.nothing, act (.receiveData bytes n) s)
    | .windowUpdate => (.nothing, act .receiveWindowUpdate s)
    | .close reason causes announce => (.nothing, act (.close reason causes announce) s)
    | .request => (.request s.stream.request, s)
    | .destroy =>
      let s := { s with present := false }
      (.nothing, if s.stream.isClosed then s else note .warn "Stream" s.stream.abandonedMessage s)
    | .run =>
      let (n, s) := runLoop s
      (.count n, s)
    | .stopLoop => (.nothing, { s with loop := s.loop.stop })
    | .codec change => (.nothing, { s with codec := s.codec.change change })
    | .observe =>
      match s.completion.observe () with
      | (none, completion) => (.nothing, { s with completion })
      | (some o, _) => (.nothing, tell o s)
    | .peek => ((s.completion.value.map Answer.outcome).getD .nothing, s)

structure View where
  state : StreamState
  reason : CloseReason
  requestSent : Bool
  unsent : Nat
  settled : Bool

def view (s : State κ) : Option View :=
  if s.present then
    some ⟨s.stream.state, s.stream.closeReason, s.stream.requestSent, s.stream.unsent.length,
      s.completion.isFulfilled⟩
  else none

structure Report where
  answer : Answer
  view : Option View
  sent : Bytes
  history : History
  happenings : List Happening

def report (step : Step) (s : State Scripted.Codec) : Report × State Scripted.Codec :=
  let (answer, s) := perform step { s with history := [], happenings := [] }
  let (sent, codec) := Wire.Codec.takeOutput s.codec
  ({ answer, view := view s, sent, history := s.history, happenings := s.happenings.reverse }, { s with codec })

def reports : List Step → State Scripted.Codec → List Report
  | [], _ => []
  | step :: steps, s =>
    let (first, s) := report step s
    first :: reports steps s

structure Setup where
  metadata : Metadata
  codec : Scripted.Codec := {}
  id : UInt32 := 1
  request : Request := {}
  listener : Listener := .recording

def Setup.state (setup : Setup) : State Scripted.Codec where
  metadata := setup.metadata
  listener := setup.listener
  stream := Stream.new setup.id 0 setup.request setup.metadata
  codec := setup.codec

def run (setup : Setup) (steps : List Step) : Option View × List Report :=
  (view setup.state, reports steps setup.state)

end Multiplex.Scenario.Exchange
