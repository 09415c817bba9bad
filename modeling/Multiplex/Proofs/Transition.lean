import Multiplex.Proofs.Abort
import Multiplex.Proofs.Activity

/-! What a connection does, on any loop, in small transitions with the guards under which it makes them. On a stopped
loop observers are told in the middle of an operation, and what they then ask runs to its end before the operation goes
on. So an execution nests: the last turn of an exchange encloses what is done while the caller is told, and only then
does the exchange leave the register; the loss of the connection encloses what is done while the loss is announced. -/
namespace Multiplex

open Bytes Wire

def Entry.IsPlainLine (e : Entry) : Prop := ∃ l, e = .log l ∧ l.source ≠ ascii "Completion"

theorem Entry.IsStreamLine.isPlainLine {e : Entry} (h : e.IsStreamLine) : e.IsPlainLine := by
  obtain ⟨l, rfl, hs⟩ := h
  refine ⟨l, rfl, ?_⟩
  rw [hs]
  decide

theorem Entry.isPlainLine_session (level : Log.Level) (message : Bytes) :
    (Entry.log (Log.line level "Session" message)).IsPlainLine :=
  ⟨_, rfl, show ascii "Session" ≠ ascii "Completion" by decide⟩

inductive Wire.EventBody.Ends : EventBody → CloseReason → List Fault → Prop
  | ended : Ends .ended .ended []
  | reset (code : ErrorCode) : Ends (.reset code) .reset [⟨.streamReset, ascii "Stream reset with " ++ code.text⟩]

namespace Session

variable {κ τ ω σ : Type}

/-- What a connection may be asked for, how what is around it may change, and whether its loop may stop. -/
structure Surroundings (κ τ ω σ : Type) where
  may : Demand τ ω → Prop
  around : Session κ τ ω σ → Drift κ τ ω σ → Prop
  stops : Prop

def Surroundings.of (may : Demand τ ω → Prop) : Surroundings κ τ ω σ := ⟨may, fun _ _ => True, True⟩

def Surroundings.any : Surroundings κ τ ω σ := .of fun _ => True

/-- An event that changes no exchange by itself, save that it may open a window. -/
def Overlooks (s : Session κ τ ω σ) (event : Event) : Prop :=
  match event.body with
  | .data _ _ => False
  | .response _ => s.registry.find event.stream = none
  | .ended | .reset _ => ∀ x, s.registry.find event.stream = some x → x.state = .closed
  | _ => True

variable [Codec κ] [Transport τ]

inductive Takes (s : Session κ τ ω σ) : Stream → Session κ τ ω σ → (Metadata → Turn κ → Turn κ) → Prop
  | start {e : Registry.Entry Stream} {rest : List UInt32} (hcan : s.canAdmit = true)
      (hp : s.registry.pending = e.id :: rest) (he : e ∈ s.registry.entries) :
      Takes s e.item (s.popped e rest) Turn.initiate
  | head {x : Stream} (fields : Headers) (hs : s.Serving) (hx : x ∈ s.registry.snapshot) :
      Takes s x (s.enter (.dispatched ⟨x.id, .response fields⟩)) fun m => Turn.receiveHeaders m fields
  | data {x : Stream} (bytes : Bytes) (length : Nat) (hs : s.Serving) (hx : x ∈ s.registry.snapshot) :
      Takes s x (s.enter (.dispatched ⟨x.id, .data bytes length⟩)) fun m => Turn.receiveData m bytes length
  /-- Of a connection that is lost, only those go on that are off the register. -/
  | window {x : Stream} (hx : x ∈ s.inPlay) (hl : s.lost = true → x ∈ s.detached) :
      Takes s x s Turn.receiveWindowUpdate

/-- A transition that is complete in itself. Which exchanges may be ended because the connection is lost is given. -/
inductive Atomic (w : Surroundings κ τ ω σ) (left : Stream → Prop) : Session κ τ ω σ → Session κ τ ω σ → Prop
  | lines {s : Session κ τ ω σ} {history : History} (h : s.history.Extends Entry.IsPlainLine history) :
      Atomic w left s { s with history }
  | inline {s : Session κ τ ω σ} (message : Bytes) (h : s.loop.stopped = true) :
      Atomic w left s (s.note .warn message "Completion")
  | twice {s : Session κ τ ω σ} {c : Completion ω (List Fault)} (hl : s.lost = true) (hc : s.lossNotice = some c)
      (hf : c.isFulfilled = true) : Atomic w left s s.noteTwice
  | notify {s : Session κ τ ω σ} (notices : List (Notice ω)) (h : s.loop.stopped = false) :
      Atomic w left s (s.notify notices)
  | observe {s : Session κ τ ω σ} {ticket : Ticket} {c : Completion ω Outcome} (observers : List ω)
      (hc : s.completions[ticket]? = some c) :
      Atomic w left s { s with completions := s.completions.set ticket { c with observers } }
  | hold (s : Session κ τ ω σ) (held : List Ticket) : Atomic w left s { s with held }
  | drift {s : Session κ τ ω σ} (d : Drift κ τ ω σ) (h : w.around s d) : Atomic w left s (s.drift d)
  | stop (s : Session κ τ ω σ) (h : w.stops) : Atomic w left s { s with loop := s.loop.stop }
  | queue {s : Session κ τ ω σ} (request : Request) (hd : w.may (.operation (.submit request)))
      (h : s.refusal = none) : Atomic w left s (s.queued request)
  | refuse {s : Session κ τ ω σ} (request : Request) {cause : Fault} {history : History}
      (hd : w.may (.operation (.submit request))) (h : s.refusal = some cause)
      (hh : s.history.Extends Entry.IsPlainLine history) :
      Atomic w left s (({ s.issueTicket.2 with history } : Session κ τ ω σ).given s.completions.length
        ((Stream.new 0 s.completions.length request s.metadata).outcome s.metadata .inactive [cause]))
  | turn {s u : Session κ τ ω σ} {x : Stream} {act : Metadata → Turn κ → Turn κ} (h : Takes s x u act)
      (he : (act u.metadata (u.turnOf x)).ending = none) : Atomic w left s (u.turned (act u.metadata (u.turnOf x)))
  /-- What has ended leaves the register. -/
  | leave {s : Session κ τ ω σ} (id : UInt32) (h : ∀ e ∈ s.registry.entries, e.id = id → e.item.state = .closed) :
      Atomic w left s { s with registry := (s.registry.remove id).2 }
  /-- What has not ended is reported closed. -/
  | report {s : Session κ τ ω σ} {x : Stream} {registry : Registry Stream} (hd : w.may (.streamClosed x.id))
      (hx : s.registry.remove x.id = (some x, registry)) (hopen : x.state ≠ .closed) :
      Atomic w left s { s with registry, detached := if x.ticket ∈ s.held then s.detached ++ [x] else s.detached }
  | drop (s : Session κ τ ω σ) (ticket : Ticket) :
      Atomic w left s { s with detached := s.detached.filter (·.ticket != ticket) }
  /-- The peer ends an exchange. -/
  | conclude {s : Session κ τ ω σ} {e : Registry.Entry Stream} {body : EventBody} {reason : CloseReason}
      {causes : List Fault} {history : History} (hs : s.Serving) (he : e ∈ s.registry.entries)
      (hopen : e.item.state ≠ .closed) (hv : s.values[e.item.ticket]? = some none) (hb : body.Ends reason causes)
      (hh : History.Extends Entry.IsPlainLine (.dispatched ⟨e.id, body⟩ :: s.history) history) :
      Atomic w left s (({ s with registry := (s.registry.remove e.id).2, history } : Session κ τ ω σ).given e.item.ticket
        (e.item.outcome s.metadata reason causes))
  | pass {s : Session κ τ ω σ} (event : Event) (hs : s.Serving) (h : s.Overlooks event) :
      Atomic w left s (s.enter (.dispatched event))
  /-- Data that belongs to no registered exchange. -/
  | stray {s : Session κ τ ω σ} (id : UInt32) (bytes : Bytes) (length : Nat) {history : History} (hs : s.Serving)
      (hn : s.registry.find id = none)
      (hh : History.Extends Entry.IsPlainLine (.dispatched ⟨id, .data bytes length⟩ :: s.history) history) :
      Atomic w left s (({ s with codec := Codec.acknowledge s.codec length id, history } : Session κ τ ω σ).enter
        (.call (.acknowledge id length)))
  | acknowledged {s : Session κ τ ω σ} (hs : s.Serving) : Atomic w left s { s with acknowledged := true }
  | certified {s : Session κ τ ω σ} (certificate : Certificate) (hs : s.Serving) :
      Atomic w left s { s with metadata.certificate := some certificate }
  | receive {s : Session κ τ ω σ} (data : Bytes) (hd : w.may (.operation (.bytesReceived data))) (hs : s.Serving) :
      Atomic w left s (s.received data)
  | drain {s : Session κ τ ω σ}
      (h : (Codec.takeOutput s.codec).1.isEmpty = true ∨ s.transport = none ∨ s.lost = true) : Atomic w left s s.drained
  | write {s : Session κ τ ω σ} {t : τ} (hout : (Codec.takeOutput s.codec).1.isEmpty = false)
      (ht : s.transport = some t) (hl : s.lost = false) : Atomic w left s (s.written t)
  | establish {s : Session κ τ ω σ} (t : τ) (hd : w.may (.operation (.established (some t)))) (hl : s.lost = false) :
      Atomic w left s (s.opening t)
  | farewell {s : Session κ τ ω σ} (code : ErrorCode) (hs : s.Serving ∨ s.lost = true) :
      Atomic w left s (s.closeCodec code)
  | blame {s : Session κ τ ω σ} (fault : Fault) (hl : s.lost = false) (hc : s.closing = true) :
      Atomic w left s { s with causes := s.causes ++ [fault] }
  | ask {s : Session κ τ ω σ} {t : τ} (fault : Fault) (hs : s.Serving) (ht : s.transport = some t) :
      Atomic w left s (s.asked fault t)
  | announce {s : Session κ τ ω σ} {c : Completion ω (List Fault)} (hl : s.lost = true) (hc : s.lossNotice = some c)
      (hf : c.isFulfilled = false) :
      Atomic w left s
        (({ s with lossNotice := some ⟨some s.causes, []⟩ } : Session κ τ ω σ).enter (.lossAnnounced s.causes))
  | dismiss {s : Session κ τ ω σ} {x : Stream} {history : History} (hleft : left x) (hl : s.lost = true)
      (hx : s.Retired x.ticket) (hopen : x.state ≠ .closed) (hv : s.values[x.ticket]? = some none)
      (hh : s.history.Extends Entry.IsPlainLine history) :
      Atomic w left s (({ s with history } : Session κ τ ω σ).given x.ticket (x.lossOutcome s.metadata s.causes))

def lossNoted (transport : Option τ) (cause : Option Fault) (s : Session κ τ ω σ) : Session κ τ ω σ :=
  { s with transport, causes := s.causes ++ cause.toList, lost := true, closing := true, idle := s.idle.cancel }

/-- A transition, or the first part of a longer one. -/
inductive Transition (w : Surroundings κ τ ω σ) : Session κ τ ω σ → Session κ τ ω σ → Prop
  | atomic {s s' : Session κ τ ω σ} (h : Atomic w (fun _ => True) s s') : Transition w s s'
  | close {s u : Session κ τ ω σ} {x : Stream} {act : Metadata → Turn κ → Turn κ} {e : Ending} (h : Takes s x u act)
      (hopen : x.state ≠ .closed) (hv : s.values[x.ticket]? = some none)
      (he : (act u.metadata (u.turnOf x)).ending = some e) :
      Transition w s ((u.turned (act u.metadata (u.turnOf x))).given x.ticket e.outcome)
  | lose {s : Session κ τ ω σ} (transport : Option τ) (cause : Option Fault) (hl : s.lost = false)
      (ht : transport = s.transport ∨ transport = none) : Transition w s (s.lossNoted transport cause)
  | clear {s : Session κ τ ω σ} (hl : s.lost = true) : Transition w s { s with registry := s.registry.clear }
  | gate (s : Session κ τ ω σ) (admitting : Bool) : Transition w s { s with admitting }

abbrev Transitions (w : Surroundings κ τ ω σ) : Session κ τ ω σ → Session κ τ ω σ → Prop :=
  Relation.ReflTransGen (Transition w)

def Told (s : Session κ τ ω σ) : Prop := ∀ c, s.lossNotice = some c → c.isFulfilled = true

def nobody : Stream → Prop := fun _ => False

inductive Execution (w : Surroundings κ τ ω σ) : (Stream → Prop) → Session κ τ ω σ → Session κ τ ω σ → Prop
  | refl {left : Stream → Prop} (s : Session κ τ ω σ) : Execution w left s s
  | atomic {left : Stream → Prop} {s s' : Session κ τ ω σ} (h : Atomic w left s s') : Execution w left s s'
  | trans {left : Stream → Prop} {s u s' : Session κ τ ω σ} (h : Execution w left s u) (h' : Execution w left u s') :
      Execution w left s s'
  /-- An admission pass, which is not entered again while it is under way. -/
  | pass {left : Stream → Prop} {s u : Session κ τ ω σ} (hidle : s.admitting = false)
      (h : Execution w left { s with admitting := true } u) : Execution w left s { u with admitting := false }
  /-- The last turn of an exchange. While the caller is told, the exchange is still registered. -/
  | ended {left : Stream → Prop} {s u v : Session κ τ ω σ} {x : Stream} {act : Metadata → Turn κ → Turn κ} {e : Ending}
      (h : Takes s x u act) (hopen : x.state ≠ .closed) (hv : s.values[x.ticket]? = some none)
      (he : (act u.metadata (u.turnOf x)).ending = some e)
      (htold : Execution w left ((u.turned (act u.metadata (u.turnOf x))).given x.ticket e.outcome) v)
      (hlive : s.loop.stopped = false →
        ∃ notices, v = ((u.turned (act u.metadata (u.turnOf x))).given x.ticket e.outcome).notify notices) :
      Execution w left s { v with registry := (v.registry.remove x.id).2 }
  /-- The loss of the connection. What is still registered when it has been announced is ended. -/
  | lost {left : Stream → Prop} {s u v : Session κ τ ω σ} (transport : Option τ) (cause : Option Fault)
      (hl : s.lost = false)
      (ht : transport = s.transport ∨ transport = none) (htold : Execution w left (s.lossNoted transport cause) u)
      (hnotice : u.Told) (hlive : s.loop.stopped = false → u.registry = s.registry)
      (hdismissed : Execution w (· ∈ u.registry.snapshot) { u with registry := u.registry.clear } v)
      (hall : ∀ x ∈ u.registry.snapshot, x.state ≠ .closed →
        v.values[x.ticket]? = some (some (x.lossOutcome u.metadata u.causes))) : Execution w left s v

/-- What follows when the loss is on record: it is announced, and then all that is left is ended. -/
structure LossHandled (w : Surroundings κ τ ω σ) (left : Stream → Prop) (s u v : Session κ τ ω σ) : Prop where
  told : Execution w left s u
  notice : u.Told
  live : s.loop.stopped = false → u.registry = s.registry
  dismissed : Execution w (· ∈ u.registry.snapshot) { u with registry := u.registry.clear } v
  all : ∀ x ∈ u.registry.snapshot, x.state ≠ .closed →
    v.values[x.ticket]? = some (some (x.lossOutcome u.metadata u.causes))

theorem LossHandled.execution {w : Surroundings κ τ ω σ} {left : Stream → Prop} {s u v : Session κ τ ω σ}
    {transport : Option τ} {cause : Option Fault} (h : LossHandled w left (s.lossNoted transport cause) u v)
    (hl : s.lost = false) (ht : transport = s.transport ∨ transport = none) : Execution w left s v :=
  .lost transport cause hl ht h.told h.notice h.live h.dismissed h.all

end Session

end Multiplex
