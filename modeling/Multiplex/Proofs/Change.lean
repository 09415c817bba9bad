import Mathlib.Data.List.Perm.Subperm
import Multiplex.Proofs.Run

/-! What a connection does on any loop, in small changes. A stopped loop tells observers in the middle of an operation,
and they may ask anything of the connection that can be asked of it. So between any two changes of one operation there
may be those of another, and a change is stated for a connection in whatever condition it is then. -/
namespace Multiplex

open Bytes Wire

def Entry.Clerical : Entry → Prop
  | .call (.headers ..) | .call (.data ..) | .call (.reset ..) | .call .lose | .settled .. => False
  | _ => True

theorem Entry.IsStreamLine.clerical {e : Entry} (h : e.IsStreamLine) : e.Clerical := by
  obtain ⟨l, rfl, -⟩ := h
  trivial

theorem map_subperm {α β : Type} (f : α → β) {l l' : List α} (h : l.Subperm l') : (l.map f).Subperm (l'.map f) := by
  obtain ⟨k, hperm, hsub⟩ := h
  exact ⟨k.map f, hperm.map f, hsub.map f⟩

theorem nodup_of_subperm {α : Type} {l l' : List α} (h : l.Subperm l') (hd : l'.Nodup) : l.Nodup := by
  obtain ⟨k, hperm, hsub⟩ := h
  exact hperm.nodup_iff.1 (hd.sublist hsub)

namespace Registry

theorem admitFrom_entries (r : Registry Stream) (ids : List UInt32) :
    ∃ f : Entry Stream → Entry Stream, (∀ e, (f e).id = e.id ∧ (f e).item = e.item) ∧
      (r.admitFrom ids).2.entries = r.entries.map f := by
  induction ids with
  | nil => exact ⟨id, fun _ => ⟨rfl, rfl⟩, (List.map_id _).symm⟩
  | cons id rest ih =>
    unfold admitFrom
    split
    · refine ⟨fun e => if e.id == id then { e with admitted := true } else e, fun e => ?_, rfl⟩
      dsimp only
      split <;> exact ⟨rfl, rfl⟩
    · exact ih

theorem entries_remove (r : Registry Stream) (id : UInt32) : (r.remove id).2.entries.Sublist r.entries := by
  unfold remove
  split
  · exact List.Sublist.refl _
  · dsimp only
    split <;> exact List.filter_sublist

theorem snapshot_remove {r r' : Registry Stream} {id : UInt32} {x : Stream} (h : r.remove id = (some x, r')) :
    (x :: r'.snapshot).Subperm r.snapshot := by
  unfold remove at h
  split at h
  · cases h
  · rename_i e he
    obtain ⟨hmem, hid⟩ := mem_of_findEntry he
    have hsplit : (e :: r.entries.filter fun y => y.id != id).Subperm r.entries := by
      have hfound : e ∈ r.entries.filter fun y => !(y.id != id) := List.mem_filter.2 ⟨hmem, by simp [hid]⟩
      have hone := (List.singleton_sublist.2 hfound).append_right (r.entries.filter fun y => y.id != id)
      refine hone.subperm.trans (List.perm_append_comm.trans ?_).subperm
      exact List.filter_append_perm (fun y : Entry Stream => y.id != id) r.entries
    have hmap := map_subperm (·.item) hsplit
    dsimp only at h
    split at h
    · cases h
      exact hmap
    · cases h
      exact hmap

end Registry

/-! A turn that ends an exchange leaves it closed, and it is not for a turn to say that the response is complete. -/

namespace Turn

variable {κ : Type} [Codec κ] {m : Metadata} {d : Direction} {t t' : Turn κ}

def Closes (t : Turn κ) : Prop := ∀ e, t.ending = some e → t.stream.state = .closed ∧ e.outcome.reason ≠ .ended

omit [Codec κ] in
theorem Closes.of_same (h : t.Closes) (hstate : t'.stream.state = t.stream.state) (hending : t'.ending = t.ending) :
    t'.Closes := by
  unfold Closes
  rw [hstate, hending]
  exact h

omit [Codec κ] in
theorem closes_close (causes : List Fault) (announce : Bool) {reason : CloseReason} (hr : reason ≠ .ended)
    (hs : t.stream.state ≠ .closed) : (t.close m reason causes announce).Closes := by
  intro e he
  rw [ending_close hs] at he
  cases he
  exact ⟨congrArg Stream.state (stream_close hs), hr⟩

theorem Step.closes (h : Step m d t t') (ht : t.Closes) : t'.Closes := by
  cases h with
  | piece => exact ht.of_same (same_offer t).1 (same_offer t).2.2
  | complete hs =>
    intro e he
    exact StreamState.noConfusion (hs.symm.trans (ht e he).1)
  | absorb field => exact ht.of_same (same_absorb t field).1 (same_absorb t field).2.2
  | close causes hr hs => exact closes_close causes true hr hs
  | note | headReceived | expect | warned | append | acknowledge | reset => exact ht.of_same rfl rfl

theorem Steps.closes (h : Steps m d t t') (ht : t.Closes) : t'.Closes := by
  induction h with
  | refl => exact ht
  | tail _ hstep ih => exact hstep.closes ih

theorem closes_initiate (he : t.ending = none) : (t.initiate m).Closes := by
  by_cases hs : t.stream.state = .pending
  · have hopen : t.stream.state ≠ .closed := by
      rw [hs]
      exact StreamState.noConfusion
    rcases initiate_cases (m := m) hs with ⟨message, h⟩ | ⟨url, message, -, h⟩ | ⟨url, -, h⟩
    · rw [h]
      exact closes_close [] true CloseReason.noConfusion hopen
    · rw [h]
      exact closes_close _ true CloseReason.noConfusion hopen
    · refine h.closes fun e hsome => ?_
      exact absurd (he.symm.trans hsome) nofun
  · have hstray : t.initiate m = t.warnStray " cannot initiate request in state " := if_pos hs
    rw [hstray]
    exact fun e hsome => absurd (he.symm.trans hsome) nofun

end Turn

namespace Session

variable {κ τ ω σ : Type} {s s' : Session κ τ ω σ} {x y : Stream} {ticket : Ticket}

/-- The exchanges that may still take a turn, registered or held by an operation. -/
def inPlay (s : Session κ τ ω σ) : List Stream := s.registry.snapshot ++ s.detached

structure Tidy (s : Session κ τ ω σ) : Prop where
  ids : ∀ e ∈ s.registry.entries, e.item.id = e.id
  tickets : (s.inPlay.map (·.ticket)).Nodup
  distinct : (s.inPlay.map (·.id)).Nodup
  fresh : ∀ x ∈ s.inPlay, x.id < s.nextId
  issued : ∀ x ∈ s.inPlay, x.ticket < s.completions.length

theorem mem_inPlay_of_entry {e : Registry.Entry Stream} (he : e ∈ s.registry.entries) : e.item ∈ s.inPlay :=
  List.mem_append_left _ (List.mem_map_of_mem he)

theorem streamOf_eq_find (s : Session κ τ ω σ) (ticket : Ticket) :
    s.streamOf ticket = s.inPlay.find? (·.ticket == ticket) := List.find?_append.symm

theorem mem_of_streamOf (h : s.streamOf ticket = some x) : x ∈ s.inPlay ∧ x.ticket = ticket := by
  rw [streamOf_eq_find] at h
  have hticket := List.find?_some h
  exact ⟨List.mem_of_find?_eq_some h, beq_iff_eq.1 hticket⟩

namespace Tidy

theorem eq_of_ticket (h : s.Tidy) (hx : x ∈ s.inPlay) (hy : y ∈ s.inPlay) (ht : x.ticket = y.ticket) : x = y :=
  List.inj_on_of_nodup_map h.tickets hx hy ht

theorem eq_of_id (h : s.Tidy) (hx : x ∈ s.inPlay) (hy : y ∈ s.inPlay) (hid : x.id = y.id) : x = y :=
  List.inj_on_of_nodup_map h.distinct hx hy hid

theorem streamOf (h : s.Tidy) (hx : x ∈ s.inPlay) : s.streamOf x.ticket = some x := by
  rw [streamOf_eq_find]
  cases hfind : s.inPlay.find? (·.ticket == x.ticket) with
  | none => exact absurd (List.find?_eq_none.1 hfind x hx) (by simp)
  | some y =>
    have hfound := List.find?_some hfind
    have hticket : y.ticket = x.ticket := beq_iff_eq.1 hfound
    exact congrArg some (h.eq_of_ticket (List.mem_of_find?_eq_some hfind) hx hticket)

theorem above (h : s.Tidy) {e : Registry.Entry Stream} (he : e ∈ s.registry.entries) : e.id < s.nextId :=
  h.ids e he ▸ h.fresh _ (mem_inPlay_of_entry he)

end Tidy

/-- A change on paper only: exchanges at most leave, tickets are at most issued. -/
structure Clerical (s s' : Session κ τ ω σ) : Prop where
  entries : ∀ y ∈ s'.registry.entries, ∃ x ∈ s.registry.entries, y.id = x.id ∧ y.item = x.item
  inPlay : s'.inPlay.Subperm s.inPlay
  nextId : s'.nextId = s.nextId
  values : ∃ n, s'.values = s.values ++ List.replicate n none
  closing : s.closing = true → s'.closing = true
  history : s.history.Extends Entry.Clerical s'.history

def given (ticket : Ticket) (outcome : Outcome) (s : Session κ τ ω σ) : Session κ τ ω σ :=
  { s with completions := s.completions.set ticket ⟨some outcome, []⟩ }.enter (.settled ticket outcome)

def turned (t : Turn κ) (s : Session κ τ ω σ) : Session κ τ ω σ :=
  { s with codec := t.codec, history := t.history }.keep t.stream

/-! A turn of an exchange that is in play. -/

theorem turn_of_missing (r : Reaction κ τ ω σ) (act : Metadata → Turn κ → Turn κ) (h : s.streamOf ticket = none) :
    s.turn r ticket act = (false, s) := by
  unfold turn
  rw [h]

theorem turn_of_open (r : Reaction κ τ ω σ) {act : Metadata → Turn κ → Turn κ} (h : s.streamOf ticket = some x)
    (he : (act s.metadata (s.turnOf x)).ending = none) :
    s.turn r ticket act = (false, s.turned (act s.metadata (s.turnOf x))) := by
  unfold turn
  rw [h]
  dsimp only
  rw [show (act s.metadata { stream := x, codec := s.codec, history := s.history }).ending = none from he]
  rfl

theorem turn_of_ended (r : Reaction κ τ ω σ) {act : Metadata → Turn κ → Turn κ} (h : s.streamOf ticket = some x)
    {e : Ending} (he : (act s.metadata (s.turnOf x)).ending = some e) : s.turn r ticket act =
      if e.announce then ((s.turned (act s.metadata (s.turnOf x))).settle r ticket e.outcome).release x.id
      else (false, (s.turned (act s.metadata (s.turnOf x))).settle r ticket e.outcome) := by
  unfold turn
  rw [h]
  dsimp only
  rw [show (act s.metadata { stream := x, codec := s.codec, history := s.history }).ending = some e from he]
  rfl

variable [Codec κ]

/-- What moves an exchange to take a turn. It starts just after its admission is on record, and takes up a response
just after the event that brings it. -/
inductive Prompt (s : Session κ τ ω σ) (x : Stream) : (Metadata → Turn κ → Turn κ) → Prop
  | start (ready : Bool) (active limit : Nat) (earlier : History)
      (h : s.history = .admitted x.ticket ready active limit :: earlier) : Prompt s x Turn.initiate
  | window : Prompt s x Turn.receiveWindowUpdate
  | head (fields : Headers) (earlier : History) (h : s.history = .dispatched ⟨x.id, .response fields⟩ :: earlier) :
      Prompt s x fun m => Turn.receiveHeaders m fields
  | data (bytes : Bytes) (length : Nat) (earlier : History)
      (h : s.history = .dispatched ⟨x.id, .data bytes length⟩ :: earlier) :
      Prompt s x fun m => Turn.receiveData m bytes length

inductive Change : Session κ τ ω σ → Session κ τ ω σ → Prop
  | clerical {s s' : Session κ τ ω σ} (h : Clerical s s') : Change s s'
  | lose {s s' : Session κ τ ω σ} (h : Clerical s s') (hopen : s.closing = false) (hclosing : s'.closing = true) :
      Change s (s'.enter (.call .lose))
  | queue {s : Session κ τ ω σ} (request : Request) (h : s.refusal = none) : Change s (s.queued request)
  | turn {s : Session κ τ ω σ} {x : Stream} {act : Metadata → Turn κ → Turn κ} (hx : x ∈ s.inPlay)
      (ha : s.Prompt x act) : Change s (s.turned (act s.metadata (s.turnOf x)))
  | settle {s : Session κ τ ω σ} {ticket : Ticket} {outcome : Outcome} (hopen : s.values[ticket]? = some none)
      (hdone : ∀ x ∈ s.inPlay, x.ticket = ticket → x.state = .closed) (hr : outcome.reason ≠ .ended) :
      Change s (s.given ticket outcome)
  | conclude {s : Session κ τ ω σ} {x : Stream} {registry : Registry Stream} {outcome : Outcome}
      {earlier history : History} (hx : s.registry.remove x.id = (some x, registry)) (hs : x.state ≠ .closed)
      (hopen : s.values[x.ticket]? = some none) (hh : s.history = .dispatched ⟨x.id, .ended⟩ :: earlier)
      (hl : s.history.Extends Entry.IsStreamLine history) :
      Change s (({ s with registry, history } : Session κ τ ω σ).given x.ticket outcome)

abbrev Changes : Session κ τ ω σ → Session κ τ ω σ → Prop := Relation.ReflTransGen Change

theorem Prompt.continues {act : Metadata → Turn κ → Turn κ} (ha : s.Prompt x act) :
    Turn.Continues (s.turnOf x) (act s.metadata (s.turnOf x)) := by
  cases ha with
  | start => exact Turn.continues_attempt _ _
  | window => exact (Turn.steps_receiveWindowUpdate _).continues
  | head fields => exact (Turn.steps_receiveHeaders _ fields).continues
  | data bytes length => exact (Turn.steps_receiveData _ bytes length).continues

theorem Prompt.closes {act : Metadata → Turn κ → Turn κ} (ha : s.Prompt x act) :
    (act s.metadata (s.turnOf x)).Closes := by
  have hnone : (s.turnOf x).Closes := nofun
  cases ha with
  | start => exact Turn.closes_initiate rfl
  | window => exact (Turn.steps_receiveWindowUpdate _).closes hnone
  | head fields => exact (Turn.steps_receiveHeaders _ fields).closes hnone
  | data bytes length => exact (Turn.steps_receiveData _ bytes length).closes hnone

/-! What every change keeps. -/

omit [Codec κ] in
theorem length_values (s : Session κ τ ω σ) : s.values.length = s.completions.length := List.length_map _

omit [Codec κ] in
theorem Clerical.length_le (h : Clerical s s') : s.completions.length ≤ s'.completions.length := by
  obtain ⟨n, hvalues⟩ := h.values
  rw [← length_values, ← length_values, hvalues, List.length_append]
  exact Nat.le_add_right _ _

omit [Codec κ] in
theorem Clerical.tidy (h : Clerical s s') (ht : s.Tidy) : s'.Tidy where
  ids := by
    intro y hy
    obtain ⟨x, hx, hid, hitem⟩ := h.entries y hy
    rw [hid, hitem]
    exact ht.ids x hx
  tickets := nodup_of_subperm (map_subperm _ h.inPlay) ht.tickets
  distinct := nodup_of_subperm (map_subperm _ h.inPlay) ht.distinct
  fresh := by
    rw [h.nextId]
    exact fun x hx => ht.fresh x (h.inPlay.subset hx)
  issued := fun x hx => Nat.lt_of_lt_of_le (ht.issued x (h.inPlay.subset hx)) h.length_le

omit [Codec κ] in
theorem clerical_remove {registry : Registry Stream} {i : UInt32}
    (h : s.registry.remove i = (some x, registry)) : Clerical s { s with registry } where
  entries := by
    intro y hy
    have hsub := Registry.entries_remove s.registry i
    rw [h] at hsub
    exact ⟨y, hsub.subset hy, rfl, rfl⟩
  inPlay := by
    have hone : registry.snapshot.Subperm s.registry.snapshot :=
      (List.sublist_cons_self _ _).subperm.trans (Registry.snapshot_remove h)
    exact hone.append (List.Subperm.refl _)
  nextId := rfl
  values := ⟨0, (List.append_nil _).symm⟩
  closing := id
  history := .refl

omit [Codec κ] in
theorem Tidy.of_same (h : s.Tidy) (hregistry : s'.registry = s.registry) (hdetached : s'.detached = s.detached)
    (hnext : s'.nextId = s.nextId) (hlength : s'.completions.length = s.completions.length) : s'.Tidy := by
  have hplay : s'.inPlay = s.inPlay := by
    unfold inPlay
    rw [hregistry, hdetached]
  constructor
  · rw [hregistry]
    exact h.ids
  · rw [hplay]
    exact h.tickets
  · rw [hplay]
    exact h.distinct
  · rw [hplay, hnext]
    exact h.fresh
  · rw [hplay, hlength]
    exact h.issued

omit [Codec κ] in
theorem inPlay_turned (t : Turn κ) (s : Session κ τ ω σ) : (s.turned t).inPlay =
    s.inPlay.map fun x => if x.ticket == t.stream.ticket then t.stream else x := by
  unfold inPlay turned keep Registry.replace Registry.snapshot
  rw [List.map_append, List.map_map, List.map_map]
  refine congrArg (· ++ _) (List.map_congr_left fun e _ => ?_)
  rw [Function.comp_apply, Function.comp_apply]
  split <;> rfl

section Turned

variable {t : Turn κ}

omit [Codec κ] in
theorem mem_inPlay_turned (h : s.Tidy) (hx : x ∈ s.inPlay) (ht : t.stream.ticket = x.ticket) :
    y ∈ (s.turned t).inPlay ↔ y = t.stream ∨ y ∈ s.inPlay ∧ y ≠ x := by
  rw [inPlay_turned, List.mem_map]
  constructor
  · rintro ⟨z, hz, rfl⟩
    split
    · exact Or.inl rfl
    · rename_i hne
      refine Or.inr ⟨hz, ?_⟩
      rintro rfl
      exact hne (beq_iff_eq.2 ht.symm)
  · rintro (rfl | ⟨hy, hne⟩)
    · exact ⟨x, hx, if_pos (beq_iff_eq.2 ht.symm)⟩
    · refine ⟨y, hy, if_neg fun heq => hne (h.eq_of_ticket hy hx ?_)⟩
      exact (beq_iff_eq.1 heq).trans ht

omit [Codec κ] in
theorem map_inPlay_turned {α : Type} {f : Stream → α} (h : s.Tidy) (hx : x ∈ s.inPlay)
    (ht : t.stream.ticket = x.ticket) (hf : f t.stream = f x) : (s.turned t).inPlay.map f = s.inPlay.map f := by
  rw [inPlay_turned, List.map_map]
  refine List.map_congr_left fun y hy => ?_
  rw [Function.comp_apply]
  split
  · rename_i heq
    rw [hf, h.eq_of_ticket hx hy (ht.symm.trans (beq_iff_eq.1 heq).symm)]
  · rfl

omit [Codec κ] in
theorem Tidy.turned (h : s.Tidy) (hx : x ∈ s.inPlay) (hid : t.stream.id = x.id) (ht : t.stream.ticket = x.ticket) :
    (s.turned t).Tidy where
  ids := by
    intro e he
    obtain ⟨y, hy, rfl⟩ := List.mem_map.1 he
    split
    · rename_i heq
      rw [← h.ids y hy, hid]
      refine congrArg Stream.id (h.eq_of_ticket hx (mem_inPlay_of_entry hy) ?_)
      exact ht.symm.trans (beq_iff_eq.1 heq).symm
    · exact h.ids y hy
  tickets := (map_inPlay_turned h hx ht ht) ▸ h.tickets
  distinct := (map_inPlay_turned h hx ht hid) ▸ h.distinct
  fresh := by
    intro y hy
    rcases (mem_inPlay_turned h hx ht).1 hy with rfl | ⟨hy, -⟩
    · rw [hid]
      exact h.fresh x hx
    · exact h.fresh y hy
  issued := by
    intro y hy
    rcases (mem_inPlay_turned h hx ht).1 hy with rfl | ⟨hy, -⟩
    · rw [ht]
      exact h.issued x hx
    · exact h.issued y hy

end Turned

omit [Codec κ] in
def newcomer (request : Request) (s : Session κ τ ω σ) : Stream :=
  { Stream.new s.nextId s.completions.length request s.metadata with state := .pending }

omit [Codec κ] in
theorem inPlay_queued (request : Request) (s : Session κ τ ω σ) :
    (s.queued request).inPlay.Perm (s.newcomer request :: s.inPlay) := by
  have hsnapshot : (s.queued request).registry.snapshot = s.registry.snapshot ++ [s.newcomer request] :=
    List.map_append
  unfold inPlay
  rw [hsnapshot, List.append_assoc]
  exact List.perm_middle

omit [Codec κ] in
theorem Tidy.queued (h : s.Tidy) (request : Request) (hopen : s.refusal = none) : (s.queued request).Tidy := by
  have hplay := inPlay_queued request s
  have hgrow : s.nextId < (s.queued request).nextId := nextId_lt_next hopen
  have hlength : (s.queued request).completions.length = s.completions.length + 1 := List.length_append
  constructor
  case ids =>
    intro e he
    rcases List.mem_append.1 he with he | he
    · exact h.ids e he
    · rw [List.mem_singleton.1 he]
      rfl
  case tickets =>
    rw [(hplay.map _).nodup_iff]
    refine List.nodup_cons.2 ⟨fun hm => ?_, h.tickets⟩
    obtain ⟨x, hx, ht⟩ := List.mem_map.1 hm
    exact Nat.lt_irrefl _ (ht ▸ h.issued x hx)
  case distinct =>
    rw [(hplay.map _).nodup_iff]
    refine List.nodup_cons.2 ⟨fun hm => ?_, h.distinct⟩
    obtain ⟨x, hx, hid⟩ := List.mem_map.1 hm
    exact UInt32.lt_irrefl _ (hid ▸ h.fresh x hx)
  case fresh =>
    intro x hx
    rcases List.mem_cons.1 (hplay.mem_iff.1 hx) with rfl | hx
    · exact hgrow
    · exact UInt32.lt_trans (h.fresh x hx) hgrow
  case issued =>
    intro x hx
    rw [hlength]
    rcases List.mem_cons.1 (hplay.mem_iff.1 hx) with rfl | hx
    · exact Nat.lt_succ_self _
    · exact Nat.lt_succ_of_lt (h.issued x hx)

theorem Change.tidy (h : Change s s') (ht : s.Tidy) : s'.Tidy := by
  cases h with
  | clerical h => exact h.tidy ht
  | lose h => exact (h.tidy ht).of_same rfl rfl rfl rfl
  | queue request hopen => exact ht.queued request hopen
  | turn hx ha => exact ht.turned hx ha.continues.id ha.continues.ticket
  | settle => exact ht.of_same rfl rfl rfl List.length_set
  | conclude hx => exact ((clerical_remove hx).tidy ht).of_same rfl rfl rfl List.length_set

theorem Changes.tidy (h : Changes s s') (ht : s.Tidy) : s'.Tidy := by
  induction h with
  | refl => exact ht
  | tail _ hchange ih => exact hchange.tidy ih

theorem Change.suffix (h : Change s s') : s.history <:+ s'.history := by
  cases h with
  | clerical h => exact h.history.suffix
  | lose h => exact h.history.suffix.trans (List.suffix_cons _ _)
  | queue => exact List.suffix_refl _
  | turn hx ha => exact ha.continues.history.suffix
  | settle => exact List.suffix_cons _ _
  | conclude hx hs hopen hh hl => exact hl.suffix.trans (List.suffix_cons _ _)

theorem Changes.suffix (h : Changes s s') : s.history <:+ s'.history := by
  induction h with
  | refl => exact List.suffix_refl _
  | tail _ hchange ih => exact ih.trans hchange.suffix

/-- A request whose exchange, if it ever had one, takes no turn any more. -/
def Retired (ticket : Ticket) (s : Session κ τ ω σ) : Prop :=
  ticket < s.completions.length ∧ ∀ x ∈ s.inPlay, x.ticket ≠ ticket

omit [Codec κ] in
theorem Clerical.retired (h : Clerical s s') (hr : s.Retired ticket) : s'.Retired ticket :=
  ⟨Nat.lt_of_lt_of_le hr.1 h.length_le, fun x hx => hr.2 x (h.inPlay.subset hx)⟩

omit [Codec κ] in
theorem Retired.given (h : s.Retired ticket) (other : Ticket) (outcome : Outcome) :
    (s.given other outcome).Retired ticket := by
  refine ⟨?_, h.2⟩
  rw [show (s.given other outcome).completions.length = s.completions.length from List.length_set]
  exact h.1

theorem Change.retired (h : Change s s') (ht : s.Tidy) (hr : s.Retired ticket) : s'.Retired ticket := by
  cases h with
  | clerical h => exact h.retired hr
  | lose h => exact h.retired hr
  | queue request =>
    refine ⟨?_, fun x hx => ?_⟩
    · rw [show (s.queued request).completions.length = s.completions.length + 1 from List.length_append]
      exact Nat.lt_succ_of_lt hr.1
    · rcases List.mem_cons.1 ((inPlay_queued request s).mem_iff.1 hx) with rfl | hx
      · exact Nat.ne_of_gt hr.1
      · exact hr.2 x hx
  | @turn x act hx ha =>
    refine ⟨hr.1, fun y hy => ?_⟩
    rcases (mem_inPlay_turned ht hx ha.continues.ticket).1 hy with rfl | ⟨hy, -⟩
    · rw [ha.continues.ticket]
      exact hr.2 x hx
    · exact hr.2 y hy
  | settle => exact hr.given _ _
  | conclude hx => exact Retired.given ((clerical_remove hx).retired hr) _ _

theorem Changes.retired (h : Changes s s') (ht : s.Tidy) (hr : s.Retired ticket) : s'.Retired ticket := by
  induction h with
  | refl => exact hr
  | tail hbefore hchange ih => exact hchange.retired (Changes.tidy hbefore ht) ih

end Session

end Multiplex
