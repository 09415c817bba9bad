import Mathlib.Data.List.Nodup
import Multiplex.Proofs.Live

/-! Register, exchanges and tickets in step. Every registered exchange stands where its entry says, the queue is
in the order of the ids, and the tickets still owed an outcome are those of the registered exchanges. -/
namespace Multiplex

open Bytes Wire

namespace Registry

/-- A register of exchanges, each under its own id, that admits them in the order of their ids. -/
structure Ordered (r : Registry Stream) : Prop where
  coherent : r.Coherent
  fifo : r.pending.Pairwise (· < ·)
  ids : ∀ e ∈ r.entries, e.item.id = e.id

def Fitting (r : Registry Stream) : Prop := ∀ e ∈ r.entries, e.item.Fits e.admitted

def tickets (r : Registry Stream) : List Ticket := r.snapshot.map (·.ticket)

theorem tickets_eq (r : Registry Stream) : r.tickets = r.entries.map (·.item.ticket) := by
  unfold tickets snapshot
  exact List.map_map

namespace Ordered

variable {r : Registry Stream} {e : Entry Stream}

theorem empty : ({} : Registry Stream).Ordered := ⟨coherent_empty, List.Pairwise.nil, by simp⟩

theorem enqueue (h : r.Ordered) {id : UInt32} {stream : Stream} (hid : stream.id = id)
    (habove : ∀ e ∈ r.entries, e.id < id) : (r.enqueue id stream).Ordered := by
  refine ⟨h.coherent.add (add_of_above stream habove), ?_, ?_⟩
  · refine List.pairwise_append.2 ⟨h.fifo, List.pairwise_singleton _ _, ?_⟩
    intro a ha b hb
    obtain ⟨e, he, rfl, -⟩ := (h.coherent.queued a).1 ha
    rw [List.mem_singleton.1 hb]
    exact habove e he
  · intro e he
    rcases List.mem_append.1 he with he | he
    · exact h.ids e he
    · rw [List.mem_singleton.1 he]
      exact hid

theorem remove (h : r.Ordered) (he : e ∈ r.entries) : (r.remove e.id).2.Ordered := by
  have hcoherent := h.coherent.remove e.id
  rw [h.coherent.remove_of_mem he] at hcoherent ⊢
  exact ⟨hcoherent, h.fifo.filter _, fun x hx => h.ids x (List.mem_of_mem_filter hx)⟩

theorem markAdmitted (h : r.Ordered) {id : UInt32} {rest : List UInt32} (hp : r.pending = id :: rest) :
    ({ r with pending := rest }.markAdmitted id).Ordered := by
  refine ⟨h.coherent.markAdmitted hp, ?_, ?_⟩
  · have hfifo := h.fifo
    rw [hp] at hfifo
    exact (List.pairwise_cons.1 hfifo).2
  · intro x hx
    obtain ⟨y, hy, rfl⟩ := List.mem_map.1 hx
    split
    · exact h.ids y hy
    · exact h.ids y hy

theorem replace (h : r.Ordered) {p : Stream → Bool} {stream : Stream}
    (hp : ∀ x ∈ r.entries, p x.item = true → x.id = stream.id) : (r.replace p stream).Ordered := by
  refine ⟨h.coherent.replace p stream, h.fifo, ?_⟩
  intro x hx
  obtain ⟨y, hy, rfl⟩ := List.mem_map.1 hx
  split
  · rename_i hpy
    exact (hp y hy hpy).symm
  · exact h.ids y hy

end Ordered

/-! Tickets tell the entries apart as well. -/

section Tickets

variable {r : Registry Stream} {e : Entry Stream}

theorem eq_of_ticket_eq (hd : r.tickets.Nodup) {a b : Entry Stream} (ha : a ∈ r.entries) (hb : b ∈ r.entries)
    (ht : a.item.ticket = b.item.ticket) : a = b := by
  rw [tickets_eq] at hd
  exact List.inj_on_of_nodup_map hd ha hb ht

theorem find_ticket (hd : r.tickets.Nodup) (he : e ∈ r.entries) :
    r.snapshot.find? (·.ticket == e.item.ticket) = some e.item := by
  unfold snapshot
  rw [List.find?_map, Option.map_eq_some_iff]
  refine ⟨e, ?_, rfl⟩
  cases hf : r.entries.find? ((fun x => x.ticket == e.item.ticket) ∘ (·.item)) with
  | none =>
    have hnone := List.find?_eq_none.1 hf e he
    simp at hnone
  | some x =>
    have hx := List.find?_some hf
    rw [Function.comp_apply, beq_iff_eq] at hx
    rw [eq_of_ticket_eq hd (List.mem_of_find?_eq_some hf) he hx]

theorem mem_tickets (he : e ∈ r.entries) : e.item.ticket ∈ r.tickets := by
  rw [tickets_eq]
  exact List.mem_map_of_mem he

theorem tickets_remove (hc : r.Coherent) (he : e ∈ r.entries) :
    r.tickets.Perm (e.item.ticket :: (r.remove e.id).2.tickets) := by
  rw [hc.remove_of_mem he, tickets_eq, tickets_eq]
  exact (hc.perm_others he).map (·.item.ticket)

theorem tickets_enqueue (r : Registry Stream) (id : UInt32) (stream : Stream) :
    (r.enqueue id stream).tickets = r.tickets ++ [stream.ticket] := by
  simp [tickets_eq, enqueue]

theorem tickets_markAdmitted (r : Registry Stream) (id : UInt32) : (r.markAdmitted id).tickets = r.tickets := by
  rw [tickets_eq, tickets_eq, Registry.markAdmitted, List.map_map]
  refine List.map_congr_left fun x _ => ?_
  rw [Function.comp_apply]
  split <;> rfl

theorem tickets_replace (r : Registry Stream) (stream : Stream) :
    (r.replace (·.ticket == stream.ticket) stream).tickets = r.tickets := by
  rw [tickets_eq, tickets_eq, Registry.replace, List.map_map]
  refine List.map_congr_left fun x _ => ?_
  rw [Function.comp_apply]
  split
  · rename_i ht
    exact (beq_iff_eq.1 ht).symm
  · rfl

end Tickets

/-! A new entry fits, and an entry that does not fit may be put right. -/

theorem Fitting.enqueue {r : Registry Stream} (h : r.Fitting) {stream : Stream} (id : UInt32)
    (hf : stream.Fits false) : (r.enqueue id stream).Fitting := by
  intro x hx
  rcases List.mem_append.1 hx with hx | hx
  · exact h x hx
  · rw [List.mem_singleton.1 hx]
    exact hf

theorem fitting_replace {r : Registry Stream} {p : Stream → Bool} {stream : Stream}
    (h : ∀ e ∈ r.entries, if p e.item then stream.Fits e.admitted else e.item.Fits e.admitted) :
    (r.replace p stream).Fitting := by
  intro x hx
  obtain ⟨y, hy, rfl⟩ := List.mem_map.1 hx
  have hfit := h y hy
  split at hfit
  · rename_i hp
    rw [if_pos hp]
    exact hfit
  · rename_i hp
    rw [if_neg hp]
    exact hfit

/-- Map, queue, count and the exchanges' own states tell the same. -/
structure InStep (r : Registry Stream) : Prop where
  ascending : r.entries.Pairwise fun a b => a.id < b.id
  ids : ∀ e ∈ r.entries, e.item.id = e.id
  states : ∀ e ∈ r.entries, e.item.state = .pending ∨ e.item.state = .opened ∨ e.item.state = .halfClosed
  admitted : ∀ e ∈ r.entries, e.admitted = true ↔ e.item.state = .opened ∨ e.item.state = .halfClosed
  sent : ∀ e ∈ r.entries, e.admitted = true ↔ e.item.requestSent = true
  queue : r.pending = (r.entries.filter fun e => e.item.state = .pending).map (·.id)
  order : r.pending.Pairwise (· < ·)
  count : r.active = r.entries.countP (·.admitted)
  /-- An exchange that leaves takes off the count what it put on it. -/
  leaving : ∀ e ∈ r.entries, (r.remove e.id).2.active + e.admitted.toNat = r.active
  size : r.size = r.active + r.pendingCount

theorem Ordered.inStep {r : Registry Stream} (h : r.Ordered) (hf : r.Fitting) : r.InStep where
  ascending := h.coherent.ascending
  ids := h.ids
  states := by
    intro e he
    have hfit := (hf e he).2
    split at hfit
    · exact Or.inl hfit
    · exact Or.inr hfit
  admitted := fun e he => (hf e he).admitted_iff
  sent := by
    intro e he
    rw [(hf e he).1]
  queue := by
    rw [h.coherent.pending_eq h.fifo]
    refine congrArg (List.map Entry.id) (List.filter_congr fun e he => ?_)
    rw [Bool.eq_iff_iff, Bool.not_eq_true', decide_eq_true_eq]
    exact (hf e he).waiting_iff
  order := h.fifo
  count := h.coherent.counted
  leaving := by
    intro e he
    rw [h.coherent.remove_of_mem he]
    cases ha : e.admitted with
    | false => rfl
    | true => exact Nat.sub_add_cancel (h.coherent.active_pos he ha)
  size := h.coherent.size_eq

end Registry

namespace Session

variable {κ τ ω σ : Type}

def afterTurn (t : Turn κ) (s : Session κ τ ω σ) : Session κ τ ω σ :=
  { s with
    codec := t.codec
    history := t.history
    registry := s.registry.replace (·.ticket == t.stream.ticket) t.stream }

def afterLastTurn (t : Turn κ) (s : Session κ τ ω σ) : Session κ τ ω σ :=
  { s with
    codec := t.codec
    history := t.history
    registry := (s.registry.remove t.stream.id).2 }

def turnOf (stream : Stream) (s : Session κ τ ω σ) : Turn κ :=
  { stream, codec := s.codec, history := s.history }

variable {s : Session κ τ ω σ} {e : Registry.Entry Stream}

theorem streamOf_eq (hd : s.registry.tickets.Nodup) (he : e ∈ s.registry.entries) :
    s.streamOf e.item.ticket = some e.item := by
  unfold streamOf
  rw [Registry.find_ticket hd he]
  rfl

/-- A turn of a registered exchange either leaves it registered or ends it and takes it off the register. -/
theorem turn_cases {r : Reaction κ τ ω σ} (hl : s.loop.stopped = false) (hdet : s.detached = [])
    (ho : s.registry.Ordered) (hd : s.registry.tickets.Nodup) (he : e ∈ s.registry.entries)
    (hv : s.values[e.item.ticket]? = some none) {act : Metadata → Turn κ → Turn κ} {admitted : Bool}
    (hc : Turn.Continues (s.turnOf e.item) (act s.metadata (s.turnOf e.item)))
    (hs : (act s.metadata (s.turnOf e.item)).Sound admitted) :
    ((act s.metadata (s.turnOf e.item)).ending = none ∧
      s.turn r e.item.ticket act = (false, s.afterTurn (act s.metadata (s.turnOf e.item)))) ∨
    ∃ outcome notices, (act s.metadata (s.turnOf e.item)).ending = some ⟨outcome, true⟩ ∧
      s.turn r e.item.ticket act =
        (true, (s.afterLastTurn (act s.metadata (s.turnOf e.item))).resolve e.item.ticket outcome notices) := by
  generalize ht : act s.metadata (s.turnOf e.item) = t at hc hs
  have hturn : act s.metadata { stream := e.item, codec := s.codec, history := s.history } = t := ht
  have hticket : t.stream.ticket = e.item.ticket := hc.ticket
  have hid : t.stream.id = e.id := hc.id.trans (ho.ids e he)
  have hkeep : ({ s with codec := t.codec, history := t.history } : Session κ τ ω σ).keep t.stream =
      s.afterTurn t := by
    unfold keep afterTurn
    simp only [hdet, List.map_nil]
  unfold turn
  rw [streamOf_eq hd he]
  dsimp only
  rw [hturn, hkeep]
  cases hend : t.ending with
  | none => exact Or.inl ⟨rfl, rfl⟩
  | some ending =>
    unfold Turn.Sound at hs
    rw [hend] at hs
    have hv' : (s.afterTurn t).values[e.item.ticket]? = some none := hv
    obtain ⟨notices, hsettle⟩ := settle_eq (r := r) (s := s.afterTurn t) hl hv' ending.outcome
    refine Or.inr ⟨ending.outcome, notices, ?_, ?_⟩
    · rw [← hs.2]
    · dsimp only
      rw [if_pos hs.2, hsettle]
      have hremove : (s.registry.replace (·.ticket == t.stream.ticket) t.stream).remove e.id =
          (some t.stream, (s.registry.remove e.id).2) := by
        refine ho.coherent.remove_replace he (fun x hx => ?_) t.stream
        rw [beq_iff_eq, hticket]
        exact ⟨fun h => congrArg (·.id) (Registry.eq_of_ticket_eq hd hx he h),
          fun h => congrArg (·.item.ticket) (ho.coherent.eq_of_id_eq hx he h)⟩
      have hclosed : t.stream.isClosed = true := beq_iff_eq.2 hs.1
      have hregistry : ((s.afterTurn t).resolve e.item.ticket ending.outcome notices).registry.remove e.item.id =
          (some t.stream, (s.registry.remove e.id).2) := by
        rw [ho.ids e he]
        exact hremove
      unfold release
      rw [hregistry]
      simp only [hclosed, Bool.not_true, Bool.false_and, Bool.false_eq_true, ↓reduceIte, giveUp]
      unfold afterLastTurn
      rw [hid]
      rfl

end Session

end Multiplex
