import Multiplex.Proofs.Account

/-! The parts of an operation, on a loop that takes tasks. The events of a batch are handled one after the other: each
is put on record, and it has its own part in what follows, a turn of the exchange that it names, the end of that
exchange, or nothing. Besides, exchanges may start, send and be given up, and the connection has its own affairs; no
event is put on record by that, and no room is given back for the bytes of one. -/
namespace Multiplex

open Bytes Wire

/-- An entry that a connection makes on its own account: no event is dispatched by it, and nothing is said to the codec
about an exchange. -/
def Entry.Own : Entry → Prop
  | .call (.headers ..) | .call (.data ..) | .call (.reset ..) | .call (.acknowledge ..) => False
  | .dispatched _ | .admitted .. => False
  | _ => True

theorem Entry.Own.event {e : Entry} (h : e.Own) : e.event = none := by
  cases e with
  | dispatched => exact h.elim
  | _ => rfl

theorem Entry.OfTraffic.event {e : Entry} (h : e.OfTraffic) : e.event = none := by
  cases e with
  | dispatched => exact h.elim
  | _ => rfl

theorem Entry.IsStreamLine.own {e : Entry} (h : e.IsStreamLine) : e.Own := by
  obtain ⟨l, rfl, -⟩ := h
  trivial

def Wire.EventBody.isPlain : EventBody → Bool
  | .response _ | .data _ _ | .ended => false
  | _ => true

namespace Session

variable {κ τ ω σ : Type} {s s' : Session κ τ ω σ} {e : Registry.Entry Stream}

theorem OfLoss.own {x : Entry} (h : s.OfLoss x) : x.Own := by
  rcases h with h | (h | ⟨ticket, outcome, rfl⟩) | ⟨l, rfl, -⟩ | rfl
  · cases x with
    | log | lossAnnounced => trivial
    | _ => exact h.elim
  · exact h.own
  · trivial
  · trivial
  · trivial

variable [Codec κ] [Transport τ]

abbrev TrafficPath : Session κ τ ω σ → Session κ τ ω σ → Prop := Relation.ReflTransGen Traffic

inductive EventlessTraffic : Session κ τ ω σ → Session κ τ ω σ → Prop
  | note (s : Session κ τ ω σ) (level : Log.Level) (message : Bytes) : EventlessTraffic s (s.note level message)
  | hold (s : Session κ τ ω σ) (held : List Ticket) : EventlessTraffic s { s with held }
  | gate (s : Session κ τ ω σ) (admitting : Bool) : EventlessTraffic s { s with admitting }
  | start {s : Session κ τ ω σ} (r : Reaction κ τ ω σ) {stream : Stream} {registry : Registry Stream}
      (hcan : s.canAdmit = true) (hnext : s.registry.admitNext = (some stream, registry)) :
      EventlessTraffic s (({ s with registry } : Session κ τ ω σ).begin r stream)
  | window {s : Session κ τ ω σ} (r : Reaction κ τ ω σ) {e : Registry.Entry Stream} (hs : s.Serving)
      (he : e ∈ s.registry.entries) : EventlessTraffic s (s.turn r e.item.ticket Turn.receiveWindowUpdate).2

theorem EventlessTraffic.traffic (h : EventlessTraffic s s') : Traffic s s' := by
  cases h with
  | note level message => exact .note s level message
  | hold held => exact .hold s held
  | gate admitting => exact .gate s admitting
  | start r hcan hnext => exact .start r hcan hnext
  | window r hs he => exact .receive r hs he .window

/-- A move that is no event's own part: such traffic, or an affair of the connection's own. -/
inductive EventlessMove : Session κ τ ω σ → Session κ τ ω σ → Prop
  | traffic {s s' : Session κ τ ω σ} (h : EventlessTraffic s s') : EventlessMove s s'
  | own {s s' : Session κ τ ω σ} (h : Move s s') (hh : s.history.Extends Entry.Own s'.history) : EventlessMove s s'

theorem EventlessMove.move (h : EventlessMove s s') : Move s s' := by
  cases h with
  | traffic h => exact .traffic h.traffic
  | own h => exact h

theorem EventlessMove.eventless (h : EventlessMove s s') (hc : s.Coupled none) :
    s.history.Extends (·.event = none) s'.history := by
  cases h with
  | traffic h => exact (h.traffic.growth hc).imp fun _ => Entry.OfTraffic.event
  | own _ hh => exact hh.imp fun _ => Entry.Own.event

structure EventlessTrafficPath (s s' : Session κ τ ω σ) : Prop where
  steps : Relation.ReflTransGen EventlessTraffic s s'

structure EventlessPath (s s' : Session κ τ ω σ) : Prop where
  steps : Relation.ReflTransGen EventlessMove s s'

namespace EventlessTrafficPath

variable {u : Session κ τ ω σ}

theorem trafficPath (h : EventlessTrafficPath s s') : TrafficPath s s' :=
  Relation.ReflTransGen.mono (fun _ _ => EventlessTraffic.traffic) _ _ h.steps

theorem eventless (h : EventlessTrafficPath s s') : EventlessPath s s' :=
  ⟨Relation.ReflTransGen.mono (fun _ _ => EventlessMove.traffic) _ _ h.steps⟩

theorem refl (s : Session κ τ ω σ) : EventlessTrafficPath s s := ⟨.refl⟩

theorem trans (h : EventlessTrafficPath s u) (h' : EventlessTrafficPath u s') : EventlessTrafficPath s s' :=
  ⟨h.steps.trans h'.steps⟩

theorem single (h : EventlessTraffic s s') : EventlessTrafficPath s s' := ⟨.single h⟩

theorem note (s : Session κ τ ω σ) (level : Log.Level) (message : Bytes) :
    EventlessTrafficPath s (s.note level message) := .single (.note s level message)

theorem hold (s : Session κ τ ω σ) (held : List Ticket) :
    EventlessTrafficPath s { s with held } := .single (.hold s held)

theorem gate (s : Session κ τ ω σ) (admitting : Bool) : EventlessTrafficPath s { s with admitting } :=
  .single (.gate s admitting)

end EventlessTrafficPath

namespace EventlessPath

variable {u : Session κ τ ω σ}

theorem path (h : EventlessPath s s') : Path s s' :=
  Relation.ReflTransGen.mono (fun _ _ => EventlessMove.move) _ _ h.steps

theorem refl (s : Session κ τ ω σ) : EventlessPath s s := ⟨.refl⟩

theorem trans (h : EventlessPath s u) (h' : EventlessPath u s') : EventlessPath s s' := ⟨h.steps.trans h'.steps⟩

theorem own (h : Move s s') (hh : s.history.Extends Entry.Own s'.history) : EventlessPath s s' := ⟨.single (.own h hh)⟩

theorem lost (hc : s.Coupled none) (hl : s.lost = false) (r : Reaction κ τ ω σ) (cause : Option Fault) :
    EventlessPath s (s.transportLost r cause) := by
  have hmove : Move s (s.transportLost r cause) := .lost r cause hl
  obtain ⟨completions, history, notices, -, -, hh, hlost⟩ := transportLost_eq hc hl r cause
  rw [hlost] at hmove ⊢
  exact .own hmove (hh.imp fun _ => OfLoss.own)

theorem discard (hc : s.Coupled none) (hl : s.lost = false) (r : Reaction κ τ ω σ) :
    EventlessPath s (({ s with transport := none } : Session κ τ ω σ).transportLost r none) := by
  have hmove : Move s (({ s with transport := none } : Session κ τ ω σ).transportLost r none) := .discard r hl
  obtain ⟨completions, history, notices, -, -, hh, hlost⟩ := transportLost_eq hc.withoutTransport hl r none
  rw [hlost] at hmove ⊢
  exact .own hmove (hh.imp fun _ => OfLoss.own)

theorem refuse (hc : s.Coupled none) (r : Reaction κ τ ω σ) (request : Request) {cause : Fault}
    (h : s.refusal = some cause) : EventlessPath s
      (s.issueTicket.2.finish r (Stream.new 0 s.issueTicket.1 request s.metadata) .inactive [cause]) := by
  have hmove := Move.refuse r request h
  obtain ⟨history, notices, hh, hfinish⟩ := hc.refuse_eq r request cause
  rw [hfinish] at hmove ⊢
  exact .own hmove (.cons trivial (hh.imp fun _ => Entry.IsStreamLine.own))

end EventlessPath

/-! The part of an event. -/

/-- What a connection does for an event, once it is on record. One about an exchange that is not registered is noted;
the room that its bytes took is given back all the same. -/
inductive EventTraffic (event : Event) : Session κ τ ω σ → Session κ τ ω σ → Prop
  | head {s : Session κ τ ω σ} (r : Reaction κ τ ω σ) {e : Registry.Entry Stream} {fields : Headers}
      (hbody : event.body = .response fields) (hs : s.Serving) (he : e ∈ s.registry.entries)
      (hid : e.id = event.stream) :
      EventTraffic event s (s.turn r e.item.ticket fun m => Turn.receiveHeaders m fields).2
  | data {s : Session κ τ ω σ} (r : Reaction κ τ ω σ) {e : Registry.Entry Stream} {bytes : Bytes} {length : Nat}
      (hbody : event.body = .data bytes length) (hs : s.Serving) (he : e ∈ s.registry.entries)
      (hid : e.id = event.stream) :
      EventTraffic event s (s.turn r e.item.ticket fun m => Turn.receiveData m bytes length).2
  | ended {s : Session κ τ ω σ} (r : Reaction κ τ ω σ) {e : Registry.Entry Stream} (hbody : event.body = .ended)
      (hs : s.Serving) (he : e ∈ s.registry.entries) (hid : e.id = event.stream) :
      EventTraffic event s
        (({ s with registry := (s.registry.remove e.id).2 } : Session κ τ ω σ).finish r e.item .ended [])
  | reset {s : Session κ τ ω σ} (r : Reaction κ τ ω σ) {e : Registry.Entry Stream} {code : ErrorCode}
      (hbody : event.body = .reset code) (hs : s.Serving) (he : e ∈ s.registry.entries) (hid : e.id = event.stream)
      (message : Bytes) :
      EventTraffic event s (({ s.note .info message with registry := (s.registry.remove e.id).2 } :
        Session κ τ ω σ).finish r e.item .reset [⟨.streamReset, ascii "Stream reset with " ++ code.text⟩])
  | stray {s : Session κ τ ω σ} {bytes : Bytes} {length : Nat} (hbody : event.body = .data bytes length)
      (hs : s.Serving) (hn : s.registry.find event.stream = none) (message : Bytes) :
      EventTraffic event s (({ s.note .warn message with
        codec := Codec.acknowledge s.codec length event.stream } : Session κ τ ω σ).enter
          (.call (.acknowledge event.stream length)))
  | ignored {s : Session κ τ ω σ} (hdata : ∀ bytes length, event.body ≠ .data bytes length)
      (hn : s.registry.find event.stream = none) (message : Bytes) : EventTraffic event s (s.note .warn message)
  | passes (s : Session κ τ ω σ) (h : event.body.isPlain = true) : EventTraffic event s s

omit [Transport τ] in
theorem EventTraffic.pass {event : Event} {body : EventBody} (hbody : event.body = body) (h : body.isPlain = true) :
    EventTraffic event s s := .passes s (hbody ▸ h)

theorem EventTraffic.trafficPath {event : Event} (h : EventTraffic event s s') : TrafficPath s s' := by
  cases h with
  | @head r e fields hbody hs he hid => exact .single (.receive r hs he (.head fields))
  | @data r e bytes length hbody hs he hid => exact .single (.receive r hs he (.data bytes length))
  | ended r hbody hs he hid => exact .single (.conclude r hs he .ended)
  | @reset r e code hbody hs he hid message =>
    exact (Relation.ReflTransGen.single (.note s .info message)).tail (.conclude r hs he (.reset code))
  | @stray bytes length hbody hs hn message =>
    have hnote : TrafficPath s (s.note .warn message) := .single (.note s .warn message)
    exact hnote.tail (.acknowledge (s := s.note .warn message) event.stream length hs hn)
  | ignored hdata hn message => exact .single (.note s .warn message)
  | passes => exact .refl

inductive Segment : Session κ τ ω σ → Session κ τ ω σ → Prop
  | eventless {s s' : Session κ τ ω σ} (h : EventlessPath s s') : Segment s s'
  | event {s s' : Session κ τ ω σ} (event : Event) (hs : s.Serving)
      (h : EventTraffic event (s.enter (.dispatched event)) s') : Segment s s'

abbrev Segments : Session κ τ ω σ → Session κ τ ω σ → Prop := Relation.ReflTransGen Segment

theorem EventlessPath.segments (h : EventlessPath s s') : Segments s s' := .single (.eventless h)

theorem EventTraffic.segments {event : Event} (h : EventTraffic event (s.enter (.dispatched event)) s')
    (hs : s.Serving) :
    Segments s s' := .single (.event event hs h)

end Session

end Multiplex
