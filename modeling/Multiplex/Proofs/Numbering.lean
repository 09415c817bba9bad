import Mathlib.Algebra.Group.Nat.Defs
import Multiplex.Proofs.Consistency

/-! The order of the ids. Ids and tickets go up together, the queue keeps that order, and an exchange starts only from
the head of the queue; so whatever leaves in between, heads of requests go out in ascending order of their ids. Seen by
their numbers, transitions are of three kinds: a request is queued, the head of the queue starts, or entries at most
leave. -/
namespace Multiplex

open Bytes Wire

namespace Registry

structure Key where
  id : UInt32
  ticket : Ticket
  admitted : Bool

def Entry.key (e : Entry Stream) : Key := ⟨e.id, e.item.ticket, e.admitted⟩

def keys (r : Registry Stream) : List Key := r.entries.map Entry.key

def Key.marked (id : UInt32) (k : Key) : Key := if k.id = id then { k with admitted := true } else k

theorem Key.id_marked (id : UInt32) (k : Key) : (k.marked id).id = k.id := by
  unfold marked
  split <;> rfl

theorem Key.ticket_marked (id : UInt32) (k : Key) : (k.marked id).ticket = k.ticket := by
  unfold marked
  split <;> rfl

theorem mem_keys {r : Registry Stream} {k : Key} : k ∈ r.keys ↔ ∃ e ∈ r.entries, e.key = k := List.mem_map

theorem key_mem {r : Registry Stream} {e : Entry Stream} (he : e ∈ r.entries) : e.key ∈ r.keys :=
  List.mem_map_of_mem he

theorem keys_replace (r : Registry Stream) (stream : Stream) :
    (r.replace (·.ticket == stream.ticket) stream).keys = r.keys := by
  unfold keys replace
  rw [List.map_map]
  refine List.map_congr_left fun x _ => ?_
  rw [Function.comp_apply]
  split
  · rename_i ht
    rw [Entry.key, Entry.key, beq_iff_eq.1 ht]
  · rfl

theorem keys_remove (r : Registry Stream) (id : UInt32) : (r.remove id).2.keys.Sublist r.keys := by
  unfold remove
  split
  · exact List.Sublist.refl _
  · dsimp only
    split
    · exact List.filter_sublist.map _
    · exact List.filter_sublist.map _

theorem keys_markAdmitted (r : Registry Stream) (id : UInt32) :
    (r.markAdmitted id).keys = r.keys.map (Key.marked id) := by
  unfold keys markAdmitted
  rw [List.map_map, List.map_map]
  refine List.map_congr_left fun x _ => ?_
  rw [Function.comp_apply, Function.comp_apply, Key.marked]
  by_cases hid : x.id = id
  · rw [if_pos (beq_iff_eq.2 hid), if_pos (show x.key.id = id from hid)]
    rfl
  · rw [if_neg fun h => hid (beq_iff_eq.1 h), if_neg (show ¬x.key.id = id from hid)]

theorem keys_enqueue (r : Registry Stream) (id : UInt32) (stream : Stream) :
    (r.enqueue id stream).keys = r.keys ++ [⟨id, stream.ticket, false⟩] := List.map_append

end Registry

/-! Heads of requests in a turn: only the start of an exchange offers one, and it offers one. -/

namespace Turn

variable {κ : Type} [Codec κ] {m : Metadata} {d : Direction} {t t' : Turn κ}

theorem Step.openings (h : Step m d t t') : t'.history.select Entry.opening = t.history.select Entry.opening := by
  cases h with
  | piece =>
    unfold offer record
    dsimp only
    split <;> exact (History.select_cons _ _ _).trans (List.append_nil _)
  | absorb field =>
    unfold Turn.absorb
    split
    · split
      · rfl
      · exact (History.select_cons _ _ _).trans (List.append_nil _)
    · split <;> rfl
  | close causes =>
    exact (extends_close t _ causes true).select_eq fun _ => Entry.IsStreamLine.unseen fun _ => rfl
  | note | acknowledge | reset => exact (History.select_cons _ _ _).trans (List.append_nil _)
  | complete | headReceived | expect | warned | append => rfl

theorem Steps.openings (h : Steps m d t t') : t'.history.select Entry.opening = t.history.select Entry.opening := by
  induction h with
  | refl => rfl
  | tail _ hstep ih => exact hstep.openings.trans ih

theorem openings_initiate (hs : t.stream.state = .pending) :
    ∃ offered, (t.initiate m).history.select Entry.opening = t.history.select Entry.opening ++ offered ∧
      (offered = [] ∨ ∃ ret, offered = [(t.stream.id, ret)]) ∧
      ((t.initiate m).ending = none → offered = [(t.stream.id, 0)]) := by
  have hopen : t.stream.state ≠ .closed := by
    rw [hs]
    exact StreamState.noConfusion
  rcases initiate_cases (m := m) hs with ⟨message, h⟩ | ⟨url, message, -, h⟩ | ⟨url, hret, h⟩
  · refine ⟨[], ?_, Or.inl rfl, ?_⟩
    · rw [h, (extends_close _ _ _ _).select_eq fun _ => Entry.IsStreamLine.unseen fun _ => rfl]
      exact History.select_cons _ _ _
    · rw [h, ending_close (t := t.note .warn message) hopen]
      exact fun hnone => absurd hnone (Option.some_ne_none _)
  · refine ⟨[(t.stream.id, (t.headAnswer url).1)], ?_, Or.inr ⟨_, rfl⟩, ?_⟩
    · rw [h, (extends_close _ _ _ _).select_eq fun _ => Entry.IsStreamLine.unseen fun _ => rfl]
      exact (History.select_cons _ _ _).trans ((List.append_nil _).trans (History.select_cons _ _ _))
    · rw [h, ending_close (t := (t.offerHead url).note .error message) hopen]
      exact fun hnone => absurd hnone (Option.some_ne_none _)
  · have hhead : (t.headTaken url).history.select Entry.opening =
        t.history.select Entry.opening ++ [(t.stream.id, (t.headAnswer url).1)] := History.select_cons _ _ _
    refine ⟨[(t.stream.id, 0)], ?_, Or.inr ⟨0, rfl⟩, fun _ => rfl⟩
    rw [h.openings, hhead, hret]

end Turn

def Entry.Unnumbered (e : Entry) : Prop := e.opening = none ∧ e.admission = none

theorem Entry.IsPlainLine.unnumbered {e : Entry} (h : e.IsPlainLine) : e.Unnumbered := by
  obtain ⟨l, rfl, -⟩ := h
  exact ⟨rfl, rfl⟩

theorem Entry.OfTurn.admission {id : UInt32} {e : Entry} (h : e.OfTurn id) : e.admission = none := by
  cases e with
  | admitted => exact h.elim
  | _ => rfl

namespace Session

variable {κ τ ω σ : Type} {s s' s'' : Session κ τ ω σ} {e : Registry.Entry Stream}

def openings (s : Session κ τ ω σ) : List (UInt32 × Int32) := s.history.select Entry.opening

def opened (s : Session κ τ ω σ) : List UInt32 := s.openings.map (·.1)

def admissions (s : Session κ τ ω σ) : List Ticket := s.history.select Entry.admission

structure Calm (s s' : Session κ τ ω σ) : Prop where
  keys : s'.registry.keys.Sublist s.registry.keys
  nextId : s'.nextId = s.nextId
  tickets : s.completions.length ≤ s'.completions.length
  openings : s'.openings = s.openings
  admissions : s'.admissions = s.admissions

structure Starts (e : Registry.Entry Stream) (heads : List (UInt32 × Int32)) (s s' : Session κ τ ω σ) : Prop where
  mem : e ∈ s.registry.entries
  head : ∃ rest, s.registry.pending = e.id :: rest
  keys : s'.registry.keys.Sublist (s.registry.keys.map (Registry.Key.marked e.id))
  nextId : s'.nextId = s.nextId
  tickets : s.completions.length ≤ s'.completions.length
  openings : s'.openings = s.openings ++ heads
  admissions : s'.admissions = s.admissions ++ [e.item.ticket]
  offered : heads = [] ∨ ∃ ret, heads = [(e.id, ret)]

structure Queues (s s' : Session κ τ ω σ) : Prop where
  taken : s.refusal = none
  keys : s'.registry.keys = s.registry.keys ++ [⟨s.nextId, s.completions.length, false⟩]
  nextId : s'.nextId = s.nextId + 2
  tickets : s'.completions.length = s.completions.length + 1
  openings : s'.openings = s.openings
  admissions : s'.admissions = s.admissions

theorem Calm.of_extends (hkeys : s'.registry.keys.Sublist s.registry.keys) (hnext : s'.nextId = s.nextId)
    (htickets : s.completions.length ≤ s'.completions.length)
    (hh : s.history.Extends Entry.Unnumbered s'.history) : Calm s s' where
  keys := hkeys
  nextId := hnext
  tickets := htickets
  openings := hh.select_eq fun _ hx => hx.1
  admissions := hh.select_eq fun _ hx => hx.2

theorem Calm.of_same (hregistry : s'.registry = s.registry) (hnext : s'.nextId = s.nextId)
    (htickets : s.completions.length ≤ s'.completions.length)
    (hh : s.history.Extends Entry.Unnumbered s'.history) : Calm s s' :=
  .of_extends (hregistry ▸ List.Sublist.refl _) hnext htickets hh

theorem Calm.trans (h : Calm s s') (h' : Calm s' s'') : Calm s s'' where
  keys := h'.keys.trans h.keys
  nextId := h'.nextId.trans h.nextId
  tickets := Nat.le_trans h.tickets h'.tickets
  openings := h'.openings.trans h.openings
  admissions := h'.admissions.trans h.admissions

theorem Starts.calm {heads : List (UInt32 × Int32)} (h : Starts e heads s s') (h' : Calm s' s'') :
    Starts e heads s s'' where
  mem := h.mem
  head := h.head
  keys := h'.keys.trans h.keys
  nextId := h'.nextId.trans h.nextId
  tickets := Nat.le_trans h.tickets h'.tickets
  openings := h'.openings.trans h.openings
  admissions := h'.admissions.trans h.admissions
  offered := h.offered

theorem calm_given (ticket : Ticket) (outcome : Outcome) (s : Session κ τ ω σ) : Calm s (s.given ticket outcome) :=
  .of_same rfl rfl (Nat.le_of_eq List.length_set.symm) (.cons ⟨rfl, rfl⟩ .refl)

/-! What changes of these kinds keep. -/

/-- Ids are odd and below the next one, they go up with the tickets, and all that started is below all that waits. -/
structure Numbered (s : Session κ τ ω σ) : Prop where
  odd : s.nextId.toNat % 2 = 1
  ascending : s.registry.keys.Pairwise fun a b => a.id < b.id ∧ a.ticket < b.ticket
  ids : ∀ k ∈ s.registry.keys, k.id.toNat % 2 = 1 ∧ k.id < s.nextId
  tickets : ∀ k ∈ s.registry.keys, k.ticket < s.completions.length
  opened : s.opened.Pairwise (· < ·)
  started : s.admissions.Pairwise (· < ·)
  openedIds : ∀ id ∈ s.opened, id.toNat % 2 = 1 ∧ id < s.nextId
  admitted : ∀ ticket ∈ s.admissions, ticket < s.completions.length
  waitingIds : ∀ k ∈ s.registry.keys, k.admitted = false → ∀ id ∈ s.opened, id < k.id
  waitingTickets : ∀ k ∈ s.registry.keys, k.admitted = false → ∀ ticket ∈ s.admissions, ticket < k.ticket

theorem Calm.opened (h : Calm s s') : s'.opened = s.opened := congrArg (List.map Prod.fst) h.openings

theorem Calm.numbered (h : Calm s s') (hn : s.Numbered) : s'.Numbered where
  odd := h.nextId ▸ hn.odd
  ascending := hn.ascending.sublist h.keys
  ids := fun k hk => h.nextId ▸ hn.ids k (h.keys.subset hk)
  tickets := fun k hk => Nat.lt_of_lt_of_le (hn.tickets k (h.keys.subset hk)) h.tickets
  opened := h.opened ▸ hn.opened
  started := h.admissions ▸ hn.started
  openedIds := h.opened ▸ h.nextId ▸ hn.openedIds
  admitted := h.admissions ▸ fun ticket ht => Nat.lt_of_lt_of_le (hn.admitted ticket ht) h.tickets
  waitingIds := fun k hk => h.opened ▸ hn.waitingIds k (h.keys.subset hk)
  waitingTickets := fun k hk => h.admissions ▸ hn.waitingTickets k (h.keys.subset hk)

theorem Queues.nextId_lt (h : Queues s s') : s.nextId < s'.nextId := h.nextId ▸ nextId_lt_next h.taken

theorem Queues.nextId_le (h : Queues s s') : s.nextId.toNat ≤ s'.nextId.toNat :=
  Nat.le_of_lt (UInt32.lt_iff_toNat_lt.1 h.nextId_lt)

theorem Queues.numbered (h : Queues s s') (hn : s.Numbered) : s'.Numbered := by
  have hnext : s'.nextId.toNat = s.nextId.toNat + 2 := h.nextId ▸ toNat_next h.taken
  have habove : ∀ id, id < s.nextId → id < s'.nextId := fun _ hid => UInt32.lt_trans hid h.nextId_lt
  have hopened : s'.opened = s.opened := congrArg (List.map Prod.fst) h.openings
  have hlast : ∀ k ∈ s'.registry.keys, k ∈ s.registry.keys ∨ k = ⟨s.nextId, s.completions.length, false⟩ := by
    intro k hk
    rw [h.keys, List.mem_append, List.mem_singleton] at hk
    exact hk
  constructor
  case odd =>
    rw [hnext, Nat.add_mod_right]
    exact hn.odd
  case ascending =>
    rw [h.keys]
    refine List.pairwise_append.2 ⟨hn.ascending, List.pairwise_singleton _ _, ?_⟩
    intro k hk l hl
    rw [List.mem_singleton.1 hl]
    exact ⟨(hn.ids k hk).2, hn.tickets k hk⟩
  case ids =>
    intro k hk
    rcases hlast k hk with hk | rfl
    · exact ⟨(hn.ids k hk).1, habove _ (hn.ids k hk).2⟩
    · exact ⟨hn.odd, h.nextId_lt⟩
  case tickets =>
    intro k hk
    rw [h.tickets]
    rcases hlast k hk with hk | rfl
    · exact Nat.lt_succ_of_lt (hn.tickets k hk)
    · exact Nat.lt_succ_self _
  case opened => exact hopened ▸ hn.opened
  case started => exact h.admissions ▸ hn.started
  case openedIds =>
    rw [hopened]
    exact fun id hid => ⟨(hn.openedIds id hid).1, habove id (hn.openedIds id hid).2⟩
  case admitted =>
    rw [h.admissions, h.tickets]
    exact fun ticket ht => Nat.lt_succ_of_lt (hn.admitted ticket ht)
  case waitingIds =>
    intro k hk hwaits
    rw [hopened]
    rcases hlast k hk with hk | rfl
    · exact hn.waitingIds k hk hwaits
    · exact fun id hid => (hn.openedIds id hid).2
  case waitingTickets =>
    intro k hk hwaits
    rw [h.admissions]
    rcases hlast k hk with hk | rfl
    · exact hn.waitingTickets k hk hwaits
    · exact hn.admitted

theorem Numbered.ticket_lt (hn : s.Numbered) {a b : Registry.Key} (ha : a ∈ s.registry.keys)
    (hb : b ∈ s.registry.keys) (hid : a.id < b.id) : a.ticket < b.ticket := by
  obtain ⟨i, hi, rfl⟩ := List.getElem_of_mem ha
  obtain ⟨j, hj, rfl⟩ := List.getElem_of_mem hb
  have hascending := List.pairwise_iff_getElem.1 hn.ascending
  rcases Nat.lt_trichotomy i j with hij | rfl | hij
  · exact (hascending i j hi hj hij).2
  · exact absurd hid (UInt32.lt_irrefl _)
  · exact absurd hid (UInt32.lt_asymm (hascending j i hj hi hij).1)

theorem Numbered.head (hn : s.Numbered) (ho : s.registry.Ordered) (he : e ∈ s.registry.entries) {rest : List UInt32}
    (hp : s.registry.pending = e.id :: rest) : e.key.admitted = false ∧
      ∀ k ∈ s.registry.keys, k.id ≠ e.id → k.admitted = false → e.id < k.id ∧ e.item.ticket < k.ticket := by
  constructor
  · obtain ⟨x, hx, hid, hwaits⟩ := (ho.coherent.queued e.id).1 (hp ▸ List.mem_cons_self)
    rw [← ho.coherent.eq_of_id_eq hx he hid]
    exact hwaits
  · intro k hk hne hwaits
    obtain ⟨x, hx, rfl⟩ := Registry.mem_keys.1 hk
    have hqueued : x.id ∈ s.registry.pending := (ho.coherent.queued x.id).2 ⟨x, hx, rfl, hwaits⟩
    have hfifo := ho.fifo
    rw [hp] at hqueued hfifo
    have hlt : e.id < x.id := (List.pairwise_cons.1 hfifo).1 _ ((List.mem_cons.1 hqueued).resolve_left hne)
    exact ⟨hlt, hn.ticket_lt (Registry.key_mem he) hk hlt⟩

theorem Starts.old {heads : List (UInt32 × Int32)} (h : Starts e heads s s') {k : Registry.Key}
    (hk : k ∈ s'.registry.keys) : ∃ l ∈ s.registry.keys, k = l.marked e.id := by
  obtain ⟨l, hl, rfl⟩ := List.mem_map.1 (h.keys.subset hk)
  exact ⟨l, hl, rfl⟩

theorem Starts.old_waiting {heads : List (UInt32 × Int32)} (h : Starts e heads s s') {k : Registry.Key}
    (hk : k ∈ s'.registry.keys) (hwaits : k.admitted = false) : k ∈ s.registry.keys ∧ k.id ≠ e.id := by
  obtain ⟨l, hl, rfl⟩ := h.old hk
  unfold Registry.Key.marked at hwaits ⊢
  split at hwaits
  · exact Bool.noConfusion hwaits
  · rename_i hne
    rw [if_neg hne]
    exact ⟨hl, hne⟩

theorem Starts.opened {heads : List (UInt32 × Int32)} (h : Starts e heads s s') :
    s'.opened = s.opened ∨ s'.opened = s.opened ++ [e.id] := by
  unfold Session.opened
  rw [h.openings, List.map_append]
  rcases h.offered with rfl | ⟨ret, rfl⟩
  · exact Or.inl (List.append_nil _)
  · exact Or.inr rfl

theorem Starts.mem_opened {heads : List (UInt32 × Int32)} (h : Starts e heads s s') {id : UInt32}
    (hid : id ∈ s'.opened) : id ∈ s.opened ∨ id = e.id := by
  rcases h.opened with ho | ho
  · exact Or.inl (ho ▸ hid)
  · rw [ho, List.mem_append, List.mem_singleton] at hid
    exact hid

theorem Starts.mem_admissions {heads : List (UInt32 × Int32)} (h : Starts e heads s s') {ticket : Ticket}
    (ht : ticket ∈ s'.admissions) : ticket ∈ s.admissions ∨ ticket = e.item.ticket := by
  rw [h.admissions, List.mem_append, List.mem_singleton] at ht
  exact ht

theorem Starts.numbered {heads : List (UInt32 × Int32)} (h : Starts e heads s s') (ho : s.registry.Ordered)
    (hn : s.Numbered) : s'.Numbered := by
  obtain ⟨rest, hp⟩ := h.head
  obtain ⟨hwaits, hbelow⟩ := hn.head ho h.mem hp
  have hkey : e.key ∈ s.registry.keys := Registry.key_mem h.mem
  constructor
  case odd => exact h.nextId ▸ hn.odd
  case ascending =>
    refine List.Pairwise.sublist h.keys (List.pairwise_map.2 (hn.ascending.imp fun {a b} hab => ?_))
    rwa [Registry.Key.id_marked, Registry.Key.id_marked, Registry.Key.ticket_marked, Registry.Key.ticket_marked]
  case ids =>
    intro k hk
    obtain ⟨l, hl, rfl⟩ := h.old hk
    rw [Registry.Key.id_marked, h.nextId]
    exact hn.ids l hl
  case tickets =>
    intro k hk
    obtain ⟨l, hl, rfl⟩ := h.old hk
    rw [Registry.Key.ticket_marked]
    exact Nat.lt_of_lt_of_le (hn.tickets l hl) h.tickets
  case opened =>
    rcases h.opened with ho | ho
    · exact ho ▸ hn.opened
    · rw [ho]
      refine List.pairwise_append.2 ⟨hn.opened, List.pairwise_singleton _ _, fun id hid x hx => ?_⟩
      rw [List.mem_singleton.1 hx]
      exact hn.waitingIds _ hkey hwaits id hid
  case started =>
    rw [h.admissions]
    refine List.pairwise_append.2 ⟨hn.started, List.pairwise_singleton _ _, fun ticket ht x hx => ?_⟩
    rw [List.mem_singleton.1 hx]
    exact hn.waitingTickets _ hkey hwaits ticket ht
  case openedIds =>
    intro id hid
    rw [h.nextId]
    rcases h.mem_opened hid with hid | rfl
    · exact hn.openedIds id hid
    · exact hn.ids _ hkey
  case admitted =>
    intro ticket ht
    refine Nat.lt_of_lt_of_le ?_ h.tickets
    rcases h.mem_admissions ht with ht | rfl
    · exact hn.admitted ticket ht
    · exact hn.tickets _ hkey
  case waitingIds =>
    intro k hk hkwaits id hid
    obtain ⟨hold, hne⟩ := h.old_waiting hk hkwaits
    rcases h.mem_opened hid with hid | rfl
    · exact hn.waitingIds k hold hkwaits id hid
    · exact (hbelow k hold hne hkwaits).1
  case waitingTickets =>
    intro k hk hkwaits ticket ht
    obtain ⟨hold, hne⟩ := h.old_waiting hk hkwaits
    rcases h.mem_admissions ht with ht | rfl
    · exact hn.waitingTickets k hold hkwaits ticket ht
    · exact (hbelow k hold hne hkwaits).2

structure Named (id : UInt32) (ticket : Ticket) (s : Session κ τ ω σ) : Prop where
  issued : id < s.nextId
  taken : ticket < s.completions.length
  same : ∀ k ∈ s.registry.keys, k.id = id ↔ k.ticket = ticket

section Named

variable {id : UInt32} {ticket : Ticket}

theorem Calm.named (h : Calm s s') (hn : s.Named id ticket) : s'.Named id ticket where
  issued := h.nextId ▸ hn.issued
  taken := Nat.lt_of_lt_of_le hn.taken h.tickets
  same := fun k hk => hn.same k (h.keys.subset hk)

theorem Starts.named {heads : List (UInt32 × Int32)} (h : Starts e heads s s') (hn : s.Named id ticket) :
    s'.Named id ticket := by
  refine ⟨h.nextId ▸ hn.issued, Nat.lt_of_lt_of_le hn.taken h.tickets, fun k hk => ?_⟩
  obtain ⟨l, hl, rfl⟩ := h.old hk
  rw [Registry.Key.id_marked, Registry.Key.ticket_marked]
  exact hn.same l hl

theorem Queues.named (h : Queues s s') (hn : s.Named id ticket) : s'.Named id ticket := by
  refine ⟨UInt32.lt_trans hn.issued h.nextId_lt, h.tickets ▸ Nat.lt_succ_of_lt hn.taken, fun k hk => ?_⟩
  rw [h.keys, List.mem_append, List.mem_singleton] at hk
  rcases hk with hk | rfl
  · exact hn.same k hk
  · exact iff_of_false (UInt32.ne_of_lt hn.issued).symm (Nat.ne_of_lt hn.taken).symm

theorem Queues.names (h : Queues s s') (hn : s.Numbered) : s'.Named s.nextId s.completions.length := by
  refine ⟨h.nextId_lt, h.tickets ▸ Nat.lt_succ_self _, fun k hk => ?_⟩
  rw [h.keys, List.mem_append, List.mem_singleton] at hk
  rcases hk with hk | rfl
  · exact iff_of_false (UInt32.ne_of_lt (hn.ids k hk).2) (Nat.ne_of_lt (hn.tickets k hk))
  · exact iff_of_true rfl rfl

end Named

/-! Every transition is of one of these kinds. -/

variable [Codec κ] [Transport τ] {w : Surroundings κ τ ω σ} {left : Stream → Prop} {u : Session κ τ ω σ} {x : Stream}
  {act : Metadata → Turn κ → Turn κ}

omit [Codec κ] [Transport τ] in
theorem Intact.waits (hi : s.Intact) {rest : List UInt32} (hp : s.registry.pending = e.id :: rest)
    (he : e ∈ s.registry.entries) : e.item.state = .closed ∨ e.item.state = .pending := by
  obtain ⟨y, hy, hid, hwaits⟩ := (hi.ordered.coherent.queued e.id).1 (hp ▸ List.mem_cons_self)
  rw [hi.ordered.coherent.eq_of_id_eq hy he hid] at hwaits
  exact (hi.placed e he).imp_right fun hfit => (hwaits ▸ hfit).2

theorem starts_turned (hi : s.Intact) {rest : List UInt32} (hp : s.registry.pending = e.id :: rest)
    (he : e ∈ s.registry.entries) :
    ∃ heads, Starts e heads s ((s.popped e rest).turned (Turn.initiate s.metadata ((s.popped e rest).turnOf e.item))) ∧
      (e.item.state ≠ .closed → (Turn.initiate s.metadata ((s.popped e rest).turnOf e.item)).ending = none →
        heads = [(e.id, 0)]) := by
  let t := (s.popped e rest).turnOf e.item
  have hpopped : t.history.select Entry.opening = s.openings :=
    (History.select_cons _ _ _).trans
      ((List.append_nil _).trans ((History.select_cons _ _ _).trans (List.append_nil _)))
  have hadmitted : (s.popped e rest).admissions = s.admissions ++ [e.item.ticket] := by
    refine (History.select_cons _ _ _).trans (congrArg (· ++ [e.item.ticket]) ?_)
    exact (History.select_cons _ _ _).trans (List.append_nil _)
  have hadmissions : (Turn.initiate s.metadata t).history.select Entry.admission = s.admissions ++ [e.item.ticket] :=
    ((Turn.continues_attempt s.metadata t).history.select_eq fun _ => Entry.OfTurn.admission).trans hadmitted
  have hkeys : ∀ t' : Turn κ, ((s.popped e rest).turned t').registry.keys =
      s.registry.keys.map (Registry.Key.marked e.id) := fun t' =>
    (Registry.keys_replace _ _).trans (Registry.keys_markAdmitted _ _)
  have hstarts : ∀ heads, (Turn.initiate s.metadata t).history.select Entry.opening = s.openings ++ heads →
      (heads = [] ∨ ∃ ret, heads = [(e.id, ret)]) →
      Starts e heads s ((s.popped e rest).turned (Turn.initiate s.metadata t)) := fun heads hopenings hoffered =>
    ⟨he, ⟨rest, hp⟩, hkeys _ ▸ List.Sublist.refl _, rfl, Nat.le_refl _, hopenings, hadmissions, hoffered⟩
  rcases hi.waits hp he with hs | hs
  · have hnot : e.item.state ≠ .pending := hs ▸ StreamState.noConfusion
    refine ⟨[], hstarts [] ?_ (Or.inl rfl), fun hopen => absurd hs hopen⟩
    rw [show Turn.initiate s.metadata t = t.warnStray _ from if_pos hnot]
    exact (History.select_cons _ _ _).trans (congrArg (· ++ []) hpopped)
  · obtain ⟨heads, hheads, hoffered, hsent⟩ := Turn.openings_initiate (t := t) (m := s.metadata) hs
    have hid : t.stream.id = e.id := hi.ids e he
    rw [hid] at hoffered hsent
    exact ⟨heads, hstarts heads (hheads.trans (congrArg (· ++ heads) hpopped)) hoffered, fun _ => hsent⟩

omit [Transport τ] in
theorem calm_turned {m : Metadata} {d : Turn.Direction} {t : Turn κ} (h : Turn.Steps m d (s.turnOf x) t) :
    Calm s (s.turned t) where
  keys := by
    rw [show (s.turned t).registry.keys = s.registry.keys from Registry.keys_replace _ _]
  nextId := rfl
  tickets := Nat.le_refl _
  openings := h.openings
  admissions := h.continues.history.select_eq fun _ => Entry.OfTurn.admission

omit [Codec κ] [Transport τ] in
theorem calm_enter {entry : Entry} (hentry : entry.Unnumbered) (s : Session κ τ ω σ) : Calm s (s.enter entry) :=
  .of_same rfl rfl (Nat.le_refl _) (.cons hentry .refl)

/-- Seen by its numbers, a turn is the start of the head of the queue or nothing. -/
theorem Takes.numbers (h : Takes s x u act) (hi : s.Intact) :
    Calm s (u.turned (act u.metadata (u.turnOf x))) ∨
      ∃ e heads, Starts e heads s (u.turned (act u.metadata (u.turnOf x))) := by
  cases h with
  | @start e rest hcan hp he =>
    obtain ⟨heads, hstarts, -⟩ := starts_turned hi hp he
    exact Or.inr ⟨_, heads, hstarts⟩
  | head fields => exact Or.inl ((calm_enter ⟨rfl, rfl⟩ s).trans (calm_turned (Turn.steps_receiveHeaders _ fields)))
  | data bytes length =>
    exact Or.inl ((calm_enter ⟨rfl, rfl⟩ s).trans (calm_turned (Turn.steps_receiveData _ bytes length)))
  | window => exact Or.inl (calm_turned (Turn.steps_receiveWindowUpdate _))

omit [Codec κ] [Transport τ] in
theorem queues_queued (request : Request) (h : s.refusal = none) : Queues s (s.queued request) :=
  ⟨h, Registry.keys_enqueue _ _ _, rfl, List.length_append, rfl, rfl⟩

/-- Seen by its numbers, a transition is one of three. -/
theorem Transition.numbers (h : Transition w s s') (hi : s.Intact) :
    Calm s s' ∨ (∃ e heads, Starts e heads s s') ∨ Queues s s' := by
  have hturn : ∀ {v}, Calm v s' → (Calm s v ∨ ∃ e heads, Starts e heads s v) →
      Calm s s' ∨ (∃ e heads, Starts e heads s s') ∨ Queues s s' := by
    rintro v hcalm (h | ⟨e, heads, h⟩)
    · exact Or.inl (h.trans hcalm)
    · exact Or.inr (Or.inl ⟨e, heads, h.calm hcalm⟩)
  have hlines : ∀ {h h' : History}, h.Extends Entry.IsPlainLine h' → h.Extends Entry.Unnumbered h' :=
    fun hh => hh.imp fun _ => Entry.IsPlainLine.unnumbered
  cases h with
  | close h => exact hturn (calm_given _ _ _) (h.numbers hi)
  | lose | gate => exact Or.inl (.of_same rfl rfl (Nat.le_refl _) .refl)
  | clear => exact Or.inl (.of_extends (List.nil_sublist _) rfl (Nat.le_refl _) .refl)
  | atomic h =>
    cases h with
    | queue request _ hopen => exact Or.inr (Or.inr (queues_queued request hopen))
    | turn h => exact hturn (.of_same rfl rfl (Nat.le_refl _) .refl) (h.numbers hi)
    | lines hh => exact Or.inl (.of_same rfl rfl (Nat.le_refl _) (hlines hh))
    | refuse request hd hrefusal hh =>
      exact Or.inl (.of_same rfl rfl (Transition.tickets_le (.atomic (.refuse request hd hrefusal hh)))
        (.cons ⟨rfl, rfl⟩ (hlines hh)))
    | leave id => exact Or.inl (.of_extends (Registry.keys_remove _ _) rfl (Nat.le_refl _) .refl)
    | @report x registry hd hx =>
      have hkeys := Registry.keys_remove s.registry x.id
      rw [hx] at hkeys
      exact Or.inl (.of_extends hkeys rfl (Nat.le_refl _) .refl)
    | conclude _ _ _ _ _ hh =>
      have hdispatched := (History.Extends.cons ⟨rfl, rfl⟩ .refl).trans (hlines hh)
      exact Or.inl (.of_extends (Registry.keys_remove _ _) rfl (Nat.le_of_eq List.length_set.symm)
        (.cons ⟨rfl, rfl⟩ hdispatched))
    | stray _ _ _ _ _ hh =>
      have hdispatched := (History.Extends.cons ⟨rfl, rfl⟩ .refl).trans (hlines hh)
      exact Or.inl (.of_same rfl rfl (Nat.le_refl _) (.cons ⟨rfl, rfl⟩ hdispatched))
    | dismiss _ _ _ _ _ hh =>
      exact Or.inl (.of_same rfl rfl (Nat.le_of_eq List.length_set.symm) (.cons ⟨rfl, rfl⟩ (hlines hh)))
    | observe => exact Or.inl (.of_same rfl rfl (Nat.le_of_eq List.length_set.symm) .refl)
    | notify | hold | drift | stop | drop | acknowledged | certified | drain | blame =>
      exact Or.inl (.of_same rfl rfl (Nat.le_refl _) .refl)
    | inline | twice | pass | receive | write | farewell | ask | announce =>
      exact Or.inl (.of_same rfl rfl (Nat.le_refl _) (.cons ⟨rfl, rfl⟩ .refl))
    | establish => exact Or.inl (.of_same rfl rfl (Nat.le_refl _) (.cons ⟨rfl, rfl⟩ (.cons ⟨rfl, rfl⟩ .refl)))

theorem Transitions.of_numbers {p : Session κ τ ω σ → Prop} (hcalm : ∀ {s s'}, Calm s s' → p s → p s')
    (hstarts : ∀ {e heads s s'}, Starts e heads s s' → s.registry.Ordered → p s → p s')
    (hqueues : ∀ {s s'}, Queues s s' → p s → p s') (h : Transitions w s s') (hi : s.Intact) (hp : p s) : p s' := by
  induction h with
  | refl => exact hp
  | tail hbefore hlast ih =>
    have hintact := Transitions.intact hbefore hi
    rcases hlast.numbers hintact with h | ⟨e, heads, h⟩ | h
    · exact hcalm h ih
    · exact hstarts h hintact.ordered ih
    · exact hqueues h ih

theorem Transitions.numbered (h : Transitions w s s') (hi : s.Intact) (hn : s.Numbered) : s'.Numbered :=
  h.of_numbers Calm.numbered Starts.numbered Queues.numbered hi hn

theorem Transitions.named {id : UInt32} {ticket : Ticket} (h : Transitions w s s') (hi : s.Intact)
    (hn : s.Named id ticket) : s'.Named id ticket :=
  h.of_numbers Calm.named (fun h _ => h.named) Queues.named hi hn

theorem Transitions.nextId_le (h : Transitions w s s') (hi : s.Intact) : s.nextId.toNat ≤ s'.nextId.toNat :=
  h.of_numbers (p := fun u => s.nextId.toNat ≤ u.nextId.toNat) (fun h hle => h.nextId ▸ hle)
    (fun h _ hle => h.nextId ▸ hle) (fun h hle => Nat.le_trans hle h.nextId_le) hi (Nat.le_refl _)

omit [Codec κ] [Transport τ] in
theorem Created.numbered (h : Created s) : s.Numbered := by
  obtain ⟨-, hregistry, -, hhistory, -, hnext, -⟩ := h.fields
  have hkeys : s.registry.keys = [] := by
    rw [hregistry]
    rfl
  have hopenings : s.openings = [] := by
    rw [openings, hhistory]
    rfl
  have hopened : s.opened = [] := congrArg (List.map Prod.fst) hopenings
  have hadmissions : s.admissions = [] := by
    rw [admissions, hhistory]
    rfl
  constructor
  · rw [hnext]
    rfl
  all_goals simp [hkeys, hopened, hadmissions]

structure Exhausted (r : Reaction κ τ ω σ) (request : Request) (s : Session κ τ ω σ) : Prop where
  settled : ∃ outcome, (s.submit r request).2.peek (s.submit r request).1 = some outcome ∧
    outcome.reason = .inactive ∧ outcome.causes = [.plain .streamInvalidState "Stream ids exhausted"]
  registry : (s.submit r request).2.registry = s.registry
  nextId : (s.submit r request).2.nextId = s.nextId
  codec : (s.submit r request).2.codec = s.codec

theorem exhausted (hs : s.Serving) (hlast : lastId < s.nextId) (r : Reaction κ τ ω σ) (request : Request) :
    s.Exhausted r request := by
  let cause : Fault := .plain .streamInvalidState "Stream ids exhausted"
  have hrefusal : s.refusal = some cause := by
    unfold refusal
    rw [hs.1, hs.2]
    exact if_pos hlast
  obtain ⟨history, -, heq⟩ := submit_refused r request hrefusal
  let refused := Stream.new 0 s.completions.length request s.metadata
  have hpeek : (s.submit r request).2.peek (s.submit r request).1 =
      some (refused.outcome s.metadata .inactive [cause]) := by
    rw [ticket_submit, heq, peek_eq_some_iff, values_given]
    refine List.getElem?_set_self ?_
    rw [length_values, issueTicket, List.length_append]
    exact Nat.lt_succ_self _
  refine ⟨⟨_, hpeek, rfl, rfl⟩, ?_, ?_, ?_⟩
  all_goals
    rw [heq]
    rfl

variable {s₀ : Session κ τ ω σ}

/-- Heads of requests go out in ascending order of their ids, and these are odd and fit 31 bits; exchanges are admitted
in the order of their requests. A request that is taken has the next id, which nothing has had and nothing will have but
its exchange. The next id only goes up, and does not wrap around: once the last one is given out, a connection that
still serves refuses every request. -/
theorem run_numbering (h₀ : Created s₀) (h : FreeRun s₀ s) :
    s.opened.Pairwise (· < ·) ∧ s.admissions.Pairwise (· < ·) ∧
    (∀ id ∈ s.opened, id.toNat % 2 = 1 ∧ 1 ≤ id.toNat ∧ id.toNat ≤ 2 ^ 31 - 1) ∧
    (∀ s', FreeRun s s' → s.nextId.toNat ≤ s'.nextId.toNat ∧ s'.nextId.toNat ≤ 2 ^ 31 + 1) ∧
    ∀ (r : Reaction κ τ ω σ) (request : Request), (∀ o news u, FreeRun u (r.run o news u)) → s.refusal = none →
      s.nextId.toNat % 2 = 1 ∧ s.nextId.toNat ≤ 2 ^ 31 - 1 ∧ s.nextId ∉ s.opened ∧
      Transitions .any (s.queued request) (s.submit r request).2 ∧
      ∀ s', FreeRun (s.submit r request).2 s' →
        s.nextId.toNat + 2 ≤ s'.nextId.toNat ∧
        (∀ e ∈ s'.registry.entries, e.id = s.nextId ↔ e.item.ticket = (s.submit r request).1) ∧
        (s.nextId = lastId → s'.Serving → ∀ r request, s'.Exhausted r request) := by
  have hrun := h.transitions h₀.intact
  have hi := hrun.intact h₀.intact
  have hn := hrun.numbered h₀.intact h₀.numbered
  have hbound : ∀ {s'}, FreeRun s s' → s'.nextId.toNat ≤ 2 ^ 31 + 1 := fun h' => by
    refine Transitions.next_le (hrun.trans (h'.transitions hi)) ?_
    rw [h₀.fields.2.2.2.2.2.1]
    decide
  have hlast : lastId.toNat = 2 ^ 31 - 1 := rfl
  refine ⟨hn.opened, hn.started, ?_, fun s' h' => ⟨(h'.transitions hi).nextId_le hi, hbound h'⟩, ?_⟩
  · intro id hid
    obtain ⟨hodd, hlt⟩ := hn.openedIds id hid
    have hnext := hbound (.refl s)
    have hnextOdd := hn.odd
    rw [UInt32.lt_iff_toNat_lt] at hlt
    omega
  · intro r request hr hopen
    have hconforms : s.Conforms .any r := .of_activity hi hr
    have hqueued := hi.queued request hopen
    have hsteps := (execution_queued hconforms trivial hopen).transitions hqueued
    have hsubmitted := hsteps.intact hqueued
    have hnamed := hsteps.named hqueued ((queues_queued request hopen).names hn)
    refine ⟨hn.odd, nextId_le hopen, ?_, hsteps, ?_⟩
    · exact fun hid => UInt32.lt_irrefl _ (hn.openedIds _ hid).2
    · intro s' h'
      -- The id stays below the next one for good, so no later request can get it.
      have hlater := h'.transitions hsubmitted
      have hnamed' := hlater.named hsubmitted hnamed
      have hissued : s.nextId.toNat + 2 ≤ s'.nextId.toNat := by
        rw [← toNat_next hopen]
        exact Nat.le_trans (hsteps.nextId_le hqueued) (hlater.nextId_le hsubmitted)
      refine ⟨hissued, ?_, ?_⟩
      · intro e he
        rw [ticket_submit]
        exact hnamed'.same e.key (Registry.key_mem he)
      · intro hexhausted hs
        refine exhausted hs ?_
        rw [UInt32.lt_iff_toNat_lt, ← hexhausted]
        omega

omit [Codec κ] [Transport τ] in
theorem standing_letGo (ticket : Ticket) (s : Session κ τ ω σ) : (s.letGo ticket).standing = s.standing := by
  unfold letGo
  dsimp only
  split
  · rfl
  · split
    · rfl
    · unfold giveUp
      split <;> rfl

theorem admitUpTo_of_full (r : Reaction κ τ ω σ) (hfull : s.canAdmit = false) (n : Nat) : s.admitUpTo r n = s := by
  cases n with
  | zero => rfl
  | succ n => exact if_neg (Bool.eq_false_iff.1 hfull)

theorem standing_admitQueued (r : Reaction κ τ ω σ) (hfull : s.canAdmit = false) :
    (s.admitQueued r).standing = s.standing := by
  unfold admitQueued
  dsimp only
  split
  · rfl
  · rw [admitUpTo_of_full (s := { s with admitting := true }) r hfull]
    rfl

theorem not_canAdmit_of_unconnected (ht : s.transport = none) : s.canAdmit = false := by
  simp [canAdmit, isReady, ht]

theorem standing_submit (hi : s.Intact) (ht : s.transport = none) (hopen : s.refusal = none) (r : Reaction κ τ ω σ)
    (request : Request) : (s.submit r request).2.standing = (s.queued request).standing := by
  obtain ⟨message, hsubmit⟩ := submit_of_above r request (fun e he => hi.above he) hopen
  let held := ((s.queued request).note .debug message).hold [s.completions.length]
  have hstanding : (held.admitQueued r).standing = held.standing :=
    standing_admitQueued r (not_canAdmit_of_unconnected ht)
  have hnone : (held.admitQueued r).transport = none := (congrArg Standing.transport hstanding).trans ht
  have hflushed : ((held.admitQueued r).flush r).standing = (held.admitQueued r).standing := by
    rcases flush_cases r (held.admitQueued r) with ⟨-, h | ⟨message, h⟩⟩ | ⟨t, -, ht, -⟩
    · rw [h]
      rfl
    · rw [h]
      rfl
    · exact absurd (hnone.symm.trans ht) (Option.some_ne_none t).symm
  rw [hsubmit, standing_letGo, hflushed, hstanding]
  rfl

omit [Transport τ] in
theorem run_unconnected (codec : κ) {n : Nat} (hn : n < 2 ^ 30) :
    ∃ s, FreeRun (fresh codec) s ∧ s.transport = none ∧ s.Serving ∧ s.nextId.toNat = 2 * n + 1 := by
  induction n with
  | zero => exact ⟨fresh codec, .refl _, rfl, ⟨rfl, rfl⟩, rfl⟩
  | succ n ih =>
    obtain ⟨s, hrun, ht, hs, hnext⟩ := ih (Nat.lt_of_succ_lt hn)
    have hlast : lastId.toNat = 2 ^ 31 - 1 := rfl
    have hopen : s.refusal = none := by
      rw [refusal_eq_none_iff, UInt32.le_iff_toNat_le]
      exact ⟨hs.1, hs.2, by omega⟩
    let r : Reaction κ Scripted.Transport Unit Unit := ⟨fun _ _ s => s⟩
    have hi := (created_fresh codec).intact
    have hstanding := standing_submit ((hrun.execution hi).intact hi) ht hopen r {}
    refine ⟨(s.submit r {}).2, hrun.meet r (fun _ _ u => .refl u) (.operation (.submit {})) trivial, ?_, ?_, ?_⟩
    · exact (congrArg Standing.transport hstanding).trans ht
    · exact Serving.of_standing (s := s.queued {}) hs hstanding
    · have hafter : (s.submit r {}).2.nextId = s.nextId + 2 := congrArg Standing.nextId hstanding
      rw [hafter, toNat_next hopen]
      omega

theorem run_numbering_exhausted :
    ∃ (s : Session Scripted.Codec Scripted.Transport Unit Unit)
      (r : Reaction Scripted.Codec Scripted.Transport Unit Unit),
      s.nextId = lastId ∧ s.refusal = none ∧ (s.submit r {}).2.Serving ∧ (s.submit r {}).2.Exhausted r {} := by
  obtain ⟨s, hrun, ht, hs, hnext⟩ := run_unconnected ({} : Scripted.Codec) (n := 2 ^ 30 - 1) (by decide)
  let r : Reaction Scripted.Codec Scripted.Transport Unit Unit := ⟨fun _ _ s => s⟩
  have hlast : s.nextId = lastId := UInt32.toNat_inj.1 hnext
  have hopen : s.refusal = none := refusal_eq_none_iff.2 ⟨hs.1, hs.2, hlast ▸ UInt32.le_refl _⟩
  have hi := (created_fresh ({} : Scripted.Codec)).intact
  have hserving : (s.submit r {}).2.Serving :=
    Serving.of_standing (s := s.queued {}) hs (standing_submit ((hrun.execution hi).intact hi) ht hopen r {})
  obtain ⟨-, -, -, -, hsubmit⟩ := run_numbering (created_fresh _) hrun
  obtain ⟨-, -, -, -, hlater⟩ := hsubmit r {} (fun _ _ u => .refl u) hopen
  exact ⟨s, r, hlast, hopen, hserving, (hlater _ (.refl _)).2.2 hlast hserving r {}⟩

end Session

end Multiplex
