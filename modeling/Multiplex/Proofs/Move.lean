import Multiplex.Proofs.Coupling

/-! What a connection does, in small moves. On a loop that takes tasks every operation is a path of these moves, so a
property has to be looked at once for each move and not once for each operation. A move carries the guard under
which the connection makes it. -/
namespace Multiplex.Session

open Bytes Wire

variable {κ τ ω σ : Type}

def Serving (s : Session κ τ ω σ) : Prop := s.lost = false ∧ s.closing = false

theorem in_service {s : Session κ τ ω σ} (h : s.Serving) : ¬(s.lost || s.closing) = true := by
  rw [h.1, h.2]
  exact Bool.false_ne_true

theorem out_of_service {s : Session κ τ ω σ} (h : ¬s.Serving) : (s.lost || s.closing) = true := by
  by_contra hserving
  rw [Bool.or_eq_true, not_or, Bool.not_eq_true, Bool.not_eq_true] at hserving
  exact h hserving

def queued (request : Request) (s : Session κ τ ω σ) : Session κ τ ω σ :=
  { s with
    completions := s.completions ++ [{}]
    nextId := s.nextId + 2
    registry := s.registry.enqueue s.nextId
      { Stream.new s.nextId s.completions.length request s.metadata with state := .pending } }

variable [Codec κ]

theorem canAdmit_eq_true_iff [Transport τ] {s : Session κ τ ω σ} : s.canAdmit = true ↔
    s.registry.pending ≠ [] ∧ s.registry.active < s.streamLimit ∧ s.isReady = true := by
  unfold canAdmit
  rw [Bool.and_eq_true, Bool.and_eq_true, decide_eq_true_eq, Bool.not_eq_true', and_assoc]
  cases s.registry.pending with
  | nil => simp
  | cons => simp

inductive Receipt : (Metadata → Turn κ → Turn κ) → Prop
  | head (fields : Headers) : Receipt fun m => Turn.receiveHeaders m fields
  | data (bytes : Bytes) (length : Nat) : Receipt fun m => Turn.receiveData m bytes length
  | window : Receipt Turn.receiveWindowUpdate

theorem Receipt.steps {act : Metadata → Turn κ → Turn κ} (h : Receipt act) (m : Metadata) (t : Turn κ) :
    ∃ d, Turn.Steps m d t (act m t) := by
  cases h with
  | head fields => exact ⟨_, Turn.steps_receiveHeaders t fields⟩
  | data bytes length => exact ⟨_, Turn.steps_receiveData t bytes length⟩
  | window => exact ⟨_, Turn.steps_receiveWindowUpdate t⟩

inductive Conclusion : CloseReason → List Fault → Prop
  | ended : Conclusion .ended []
  | reset (code : ErrorCode) : Conclusion .reset [⟨.streamReset, ascii "Stream reset with " ++ code.text⟩]

def received (data : Bytes) (s : Session κ τ ω σ) : Session κ τ ω σ :=
  { s with
    idle := s.idle.touch s.clock
    codec := (Codec.receive s.codec data).2 }
    |>.enter (.call (.receive data))

def drained (s : Session κ τ ω σ) : Session κ τ ω σ := { s with codec := (Codec.takeOutput s.codec).2 }

variable [Transport τ]

def written (t : τ) (s : Session κ τ ω σ) : Session κ τ ω σ :=
  let output := Codec.takeOutput s.codec
  let answer := Transport.write t output.1
  { s with
    codec := output.2
    transport := some answer.2
    idle := if answer.1 = 0 then s.idle.touch s.clock else s.idle }
    |>.enter (.call (.write output.1 answer.1))

def recordAdmission (stream : Stream) (s : Session κ τ ω σ) : Session κ τ ω σ :=
  let s := s.note .debug (ascii "Admitting stream " ++ Decimal.write stream.id.toNat ++ ascii " (active="
    ++ Decimal.write s.registry.active ++ ascii ", allowed=" ++ Decimal.write s.streamLimit ++ ascii ")")
  s.enter (.admitted stream.ticket s.isReady s.registry.active s.streamLimit)

def popped (e : Registry.Entry Stream) (rest : List UInt32) (s : Session κ τ ω σ) : Session κ τ ω σ :=
  ({ s with registry := { s.registry with pending := rest }.markAdmitted e.id } :
    Session κ τ ω σ).recordAdmission e.item

theorem begin_eq (r : Reaction κ τ ω σ) (e : Registry.Entry Stream) (rest : List UInt32) (s : Session κ τ ω σ) :
    ({ s with registry := { s.registry with pending := rest }.markAdmitted e.id } : Session κ τ ω σ).begin r e.item =
      ((s.popped e rest).turn r e.item.ticket Turn.initiate).2 := rfl

theorem mem_popped {s : Session κ τ ω σ} {e : Registry.Entry Stream} (he : e ∈ s.registry.entries)
    (rest : List UInt32) :
    ({ e with admitted := true } : Registry.Entry Stream) ∈ (s.popped e rest).registry.entries := by
  refine List.mem_map.2 ⟨e, he, ?_⟩
  rw [if_pos (beq_self_eq_true e.id)]

/-- Moves about exchanges. They leave the connection's own standing alone. -/
inductive Traffic : Session κ τ ω σ → Session κ τ ω σ → Prop
  | note (s : Session κ τ ω σ) (level : Log.Level) (message : Bytes) : Traffic s (s.note level message)
  | hold (s : Session κ τ ω σ) (held : List Ticket) : Traffic s { s with held }
  | gate (s : Session κ τ ω σ) (admitting : Bool) : Traffic s { s with admitting }
  | start {s : Session κ τ ω σ} (r : Reaction κ τ ω σ) {stream : Stream} {registry : Registry Stream}
      (hcan : s.canAdmit = true) (hnext : s.registry.admitNext = (some stream, registry)) :
      Traffic s (({ s with registry } : Session κ τ ω σ).begin r stream)
  | receive {s : Session κ τ ω σ} (r : Reaction κ τ ω σ) {e : Registry.Entry Stream}
      {act : Metadata → Turn κ → Turn κ} (hs : s.Serving) (he : e ∈ s.registry.entries) (ha : Receipt act) :
      Traffic s (s.turn r e.item.ticket act).2
  | conclude {s : Session κ τ ω σ} (r : Reaction κ τ ω σ) {e : Registry.Entry Stream} {reason : CloseReason}
      {causes : List Fault} (hs : s.Serving) (he : e ∈ s.registry.entries) (hc : Conclusion reason causes) :
      Traffic s (({ s with registry := (s.registry.remove e.id).2 } : Session κ τ ω σ).finish r e.item reason
        causes)
  | acknowledge {s : Session κ τ ω σ} (id : UInt32) (length : Nat) (hs : s.Serving)
      (hn : s.registry.find id = none) :
      Traffic s (({ s with codec := Codec.acknowledge s.codec length id } : Session κ τ ω σ).enter
        (.call (.acknowledge id length)))

inductive Move : Session κ τ ω σ → Session κ τ ω σ → Prop
  | traffic {s s' : Session κ τ ω σ} (h : Traffic s s') : Move s s'
  | dispatch {s : Session κ τ ω σ} (event : Event) (hs : s.Serving) : Move s (s.enter (.dispatched event))
  | queue {s : Session κ τ ω σ} (request : Request) (h : s.refusal = none) : Move s (s.queued request)
  | refuse {s : Session κ τ ω σ} (r : Reaction κ τ ω σ) (request : Request) {cause : Fault}
      (h : s.refusal = some cause) :
      Move s (s.issueTicket.2.finish r (Stream.new 0 s.issueTicket.1 request s.metadata) .inactive [cause])
  | observe {s : Session κ τ ω σ} {ticket : Ticket} {c : Completion ω Outcome} (observers : List ω)
      (hc : s.completions[ticket]? = some c) :
      Move s { s with completions := s.completions.set ticket { c with observers } }
  | notify (s : Session κ τ ω σ) (notices : List (Notice ω)) : Move s (s.notify notices)
  | acknowledged {s : Session κ τ ω σ} (hs : s.Serving) : Move s { s with acknowledged := true }
  | certified {s : Session κ τ ω σ} (certificate : Certificate) (hs : s.Serving) :
      Move s { s with metadata.certificate := some certificate }
  | receive {s : Session κ τ ω σ} (data : Bytes) (hs : s.Serving) :
      Move s (s.received data)
  | drain {s : Session κ τ ω σ}
      (h : (Codec.takeOutput s.codec).1.isEmpty = true ∨ s.transport = none ∨ s.lost = true) :
      Move s s.drained
  | write {s : Session κ τ ω σ} {t : τ} (hout : (Codec.takeOutput s.codec).1.isEmpty = false)
      (ht : s.transport = some t) (hl : s.lost = false) : Move s (s.written t)
  | establish {s : Session κ τ ω σ} (t : τ) (hl : s.lost = false) :
      Move s { s with transport := some t, idle := s.idle.start s.clock, metadata.peer := Transport.peer t }
  | initiate {s : Session κ τ ω σ} (hl : s.lost = false) :
      Move s (({ s with codec := Codec.initiate s.codec s.options.settings } : Session κ τ ω σ).enter
        (.call (.initiate s.options.settings)))
  | farewell {s : Session κ τ ω σ} (code : ErrorCode) (hs : s.Serving) :
      Move s (s.closeCodec code)
  | blame {s : Session κ τ ω σ} (cause : Fault) (hl : s.lost = false) : Move s { s with causes := s.causes ++ [cause] }
  | closing {s : Session κ τ ω σ} (hs : s.Serving) : Move s { s with closing := true, idle := s.idle.cancel }
  | lose {s : Session κ τ ω σ} {t : τ} (ht : s.transport = some t) (hl : s.lost = false) (hc : s.closing = true) :
      Move s (({ s with transport := some (Transport.lose t).2 } : Session κ τ ω σ).enter (.call .lose))
  | discard {s : Session κ τ ω σ} (r : Reaction κ τ ω σ) (hl : s.lost = false) :
      Move s (({ s with transport := none } : Session κ τ ω σ).transportLost r none)
  | lost {s : Session κ τ ω σ} (r : Reaction κ τ ω σ) (cause : Option Fault) (hl : s.lost = false) :
      Move s (s.transportLost r cause)

abbrev Path : Session κ τ ω σ → Session κ τ ω σ → Prop := Relation.ReflTransGen Move

end Multiplex.Session
