import Multiplex.Proofs.Move

/-! The invariant of a connection, and that every move keeps it. While an exchange is in a turn it need not fit its
entry, so the invariant names the exchange that is excused. -/
namespace Multiplex.Session

open Bytes Wire

variable {κ τ ω σ : Type}

/-- Register, tickets, ids and loss in step; the exchange that is being worked on is excused from fitting. -/
structure Coupled (working : Option UInt32) (s : Session κ τ ω σ) : Prop where
  live : s.loop.stopped = false
  detached : s.detached = []
  ordered : s.registry.Ordered
  fitting : ∀ e ∈ s.registry.entries, some e.id ≠ working → e.item.Fits e.admitted
  fresh : ∀ e ∈ s.registry.entries, e.id < s.nextId
  next : s.nextId.toNat ≤ lastId.toNat + 2
  owes : Owes s.values s.history s.registry.tickets
  empty : s.lost = true → s.registry.entries = []
  closing : s.lost = true → s.closing = true

structure Quiet (s s' : Session κ τ ω σ) : Prop where
  registry : s'.registry = s.registry
  values : s'.values = s.values
  nextId : s'.nextId = s.nextId
  lost : s'.lost = s.lost
  closing : s.closing = true → s'.closing = true
  detached : s'.detached = s.detached
  stopped : s'.loop.stopped = s.loop.stopped
  history : s.history.Extends (fun e => ∀ t, e.settles t = false) s'.history

theorem Quiet.trans {s s' s'' : Session κ τ ω σ} (h : Quiet s s') (h' : Quiet s' s'') : Quiet s s'' where
  registry := h'.registry.trans h.registry
  values := h'.values.trans h.values
  nextId := h'.nextId.trans h.nextId
  lost := h'.lost.trans h.lost
  closing := fun hc => h'.closing (h.closing hc)
  detached := h'.detached.trans h.detached
  stopped := h'.stopped.trans h.stopped
  history := h.history.trans h'.history

theorem quiet_note (s : Session κ τ ω σ) (level : Log.Level) (message : Bytes) :
    Quiet s (s.note level message) :=
  ⟨rfl, rfl, rfl, rfl, id, rfl, rfl, .cons (fun _ => rfl) .refl⟩

theorem quiet_enter (s : Session κ τ ω σ) {e : Entry} (he : ∀ t, e.settles t = false) : Quiet s (s.enter e) :=
  ⟨rfl, rfl, rfl, rfl, id, rfl, rfl, .cons he .refl⟩

theorem refusal_eq_none_iff {s : Session κ τ ω σ} :
    s.refusal = none ↔ s.lost = false ∧ s.closing = false ∧ s.nextId ≤ lastId := by
  unfold refusal
  rw [← UInt32.not_lt]
  cases s.lost <;> cases s.closing <;> simp

theorem nextId_le {s : Session κ τ ω σ} (h : s.refusal = none) : s.nextId.toNat ≤ lastId.toNat :=
  UInt32.le_iff_toNat_le.1 (refusal_eq_none_iff.1 h).2.2

/-- The next id does not wrap around. -/
theorem toNat_next {s : Session κ τ ω σ} (h : s.refusal = none) : (s.nextId + 2).toNat = s.nextId.toNat + 2 := by
  have hlast : lastId.toNat = 2147483647 := rfl
  have hnext := nextId_le h
  rw [UInt32.toNat_add]
  change (s.nextId.toNat + 2) % 4294967296 = _
  omega

theorem nextId_lt_next {s : Session κ τ ω σ} (h : s.refusal = none) : s.nextId < s.nextId + 2 := by
  rw [UInt32.lt_iff_toNat_lt, toNat_next h]
  exact Nat.lt_add_of_pos_right Nat.two_pos

namespace Coupled

variable {s s' : Session κ τ ω σ} {working : Option UInt32} {e : Registry.Entry Stream}

theorem quiet (h : s.Coupled working) (hq : Quiet s s') : s'.Coupled working := by
  constructor
  · rw [hq.stopped]
    exact h.live
  · rw [hq.detached]
    exact h.detached
  · rw [hq.registry]
    exact h.ordered
  · rw [hq.registry]
    exact h.fitting
  · rw [hq.registry, hq.nextId]
    exact h.fresh
  · rw [hq.nextId]
    exact h.next
  · rw [hq.registry, hq.values]
    exact h.owes.extend hq.history
  · rw [hq.registry, hq.lost]
    exact h.empty
  · rw [hq.lost]
    exact fun hl => hq.closing (h.closing hl)

theorem excuse (h : s.Coupled none) (id : UInt32) : s.Coupled (some id) :=
  { h with fitting := fun e he _ => h.fitting e he (Option.some_ne_none e.id) }

theorem fits (h : s.Coupled none) (he : e ∈ s.registry.entries) : e.item.Fits e.admitted :=
  h.fitting e he (Option.some_ne_none e.id)

theorem unresolved (h : s.Coupled working) (he : e ∈ s.registry.entries) :
    s.values[e.item.ticket]? = some none :=
  (h.owes.unresolved _).1 (Registry.mem_tickets he)

theorem resolve (h : s.Coupled (some e.id)) (he : e ∈ s.registry.entries) {codec : κ} {history : History}
    (hh : s.history.Extends (fun e => ∀ t, e.settles t = false) history) (outcome : Outcome)
    (notices : List (Notice ω)) :
    (({ s with codec, history, registry := (s.registry.remove e.id).2 } : Session κ τ ω σ).resolve
      e.item.ticket outcome notices).Coupled none := by
  have hentries : ∀ x ∈ (s.registry.remove e.id).2.entries, x ∈ s.registry.entries ∧ x.id ≠ e.id := by
    rw [h.ordered.coherent.remove_of_mem he]
    intro x hx
    obtain ⟨hx, hne⟩ := List.mem_filter.1 hx
    exact ⟨hx, bne_iff_ne.1 hne⟩
  constructor
  · exact h.live
  · exact h.detached
  · exact h.ordered.remove he
  · intro x hx _
    obtain ⟨hx, hne⟩ := hentries x hx
    exact h.fitting x hx fun heq => hne (Option.some.inj heq)
  · exact fun x hx => h.fresh x (hentries x hx).1
  · exact h.next
  · rw [values_resolve]
    exact ((h.owes.extend hh).perm (Registry.tickets_remove h.ordered.coherent he)).settle outcome
  · intro hl
    rw [h.empty hl] at he
    exact absurd he List.not_mem_nil
  · exact h.closing

theorem afterTurn (h : s.Coupled (some e.id)) (he : e ∈ s.registry.entries) {t : Turn κ}
    (hid : t.stream.id = e.id) (hticket : t.stream.ticket = e.item.ticket) (hfit : t.stream.Fits e.admitted)
    (hh : s.history.Extends (fun e => ∀ t, e.settles t = false) t.history) : (s.afterTurn t).Coupled none := by
  have hsame : ∀ x ∈ s.registry.entries, (x.item.ticket == t.stream.ticket) = true → x = e := fun x hx hx' =>
    Registry.eq_of_ticket_eq h.owes.distinct hx he ((beq_iff_eq.1 hx').trans hticket)
  constructor
  · exact h.live
  · exact h.detached
  · refine h.ordered.replace (p := (·.ticket == t.stream.ticket)) fun x hx hx' => ?_
    rw [hsame x hx hx', hid]
  · intro x hx _
    refine Registry.fitting_replace (p := (·.ticket == t.stream.ticket)) (fun y hy => ?_) x hx
    split
    · rename_i hy'
      rw [hsame y hy hy']
      exact hfit
    · rename_i hy'
      refine h.fitting y hy fun heq => hy' (beq_iff_eq.2 ?_)
      rw [h.ordered.coherent.eq_of_id_eq hy he (Option.some.inj heq)]
      exact hticket.symm
  · intro x hx
    obtain ⟨y, hy, rfl⟩ := List.mem_map.1 hx
    split
    · exact h.fresh y hy
    · exact h.fresh y hy
  · exact h.next
  · have htickets : (s.afterTurn t).registry.tickets = s.registry.tickets := Registry.tickets_replace _ _
    rw [htickets]
    exact h.owes.extend hh
  · intro hl
    rw [h.empty hl] at he
    exact absurd he List.not_mem_nil
  · exact h.closing

theorem turn (h : s.Coupled (some e.id)) (he : e ∈ s.registry.entries) (r : Reaction κ τ ω σ)
    {act : Metadata → Turn κ → Turn κ}
    (hc : Turn.Continues (s.turnOf e.item) (act s.metadata (s.turnOf e.item)))
    (hs : (act s.metadata (s.turnOf e.item)).Sound e.admitted) :
    (s.turn r e.item.ticket act).2.Coupled none := by
  have hh : s.history.Extends (fun e => ∀ t, e.settles t = false) (act s.metadata (s.turnOf e.item)).history :=
    hc.history.imp fun _ => Entry.OfTurn.not_settles
  have hid : (act s.metadata (s.turnOf e.item)).stream.id = e.id := hc.id.trans (h.ordered.ids e he)
  rcases turn_cases (r := r) h.live h.detached h.ordered h.owes.distinct he (h.unresolved he) hc hs with
    ⟨hend, ht⟩ | ⟨outcome, notices, -, ht⟩
  · rw [ht]
    unfold Turn.Sound at hs
    rw [hend] at hs
    exact h.afterTurn he hid hc.ticket hs hh
  · rw [ht]
    unfold afterLastTurn
    rw [hid]
    exact h.resolve he hh outcome notices

theorem history_turn (h : s.Coupled (some e.id)) (he : e ∈ s.registry.entries) (r : Reaction κ τ ω σ)
    {act : Metadata → Turn κ → Turn κ}
    (hc : Turn.Continues (s.turnOf e.item) (act s.metadata (s.turnOf e.item)))
    (hs : (act s.metadata (s.turnOf e.item)).Sound e.admitted) :
    (act s.metadata (s.turnOf e.item)).history.Extends (fun x => ∃ outcome, x = .settled e.item.ticket outcome)
      (s.turn r e.item.ticket act).2.history := by
  rcases turn_cases (r := r) h.live h.detached h.ordered h.owes.distinct he (h.unresolved he) hc hs with
    ⟨-, ht⟩ | ⟨outcome, notices, -, ht⟩
  · rw [ht]
    exact .refl
  · rw [ht]
    exact .cons ⟨outcome, rfl⟩ .refl

theorem turn_shape (h : s.Coupled (some e.id)) (he : e ∈ s.registry.entries) (r : Reaction κ τ ω σ)
    {act : Metadata → Turn κ → Turn κ}
    (hc : Turn.Continues (s.turnOf e.item) (act s.metadata (s.turnOf e.item)))
    (hs : (act s.metadata (s.turnOf e.item)).Sound e.admitted) :
    ∃ registry completions history notices, registry.active ≤ s.registry.active ∧
      registry.pendingCount ≤ s.registry.pendingCount ∧ completions.length = s.completions.length ∧
      s.history.Extends (fun x => x.OfTurn e.item.id ∨ ∃ outcome, x = .settled e.item.ticket outcome) history ∧
      (s.turn r e.item.ticket act).2 = ({ s with
        codec := (act s.metadata (s.turnOf e.item)).codec
        registry
        completions
        history } : Session κ τ ω σ).notify notices := by
  have hh := hc.history.imp (q := fun x => x.OfTurn e.item.id ∨ ∃ outcome, x = .settled e.item.ticket outcome)
    fun _ => Or.inl
  rcases turn_cases (r := r) h.live h.detached h.ordered h.owes.distinct he (h.unresolved he) hc hs with
    ⟨-, ht⟩ | ⟨outcome, notices, -, ht⟩
  · let t := act s.metadata (s.turnOf e.item)
    refine ⟨s.registry.replace (·.ticket == t.stream.ticket) t.stream, s.completions, t.history, [], Nat.le_refl _,
      Nat.le_refl _, rfl, hh, ?_⟩
    rw [ht, notify_nil]
    rfl
  · let t := act s.metadata (s.turnOf e.item)
    refine ⟨(s.registry.remove t.stream.id).2, s.completions.set e.item.ticket ⟨some outcome, []⟩,
      .settled e.item.ticket outcome :: t.history, notices, Registry.active_remove_le _ _,
      Registry.pendingCount_remove_le _ _, List.length_set, .cons (Or.inr ⟨outcome, rfl⟩) hh, ?_⟩
    rw [ht]
    rfl

theorem markAdmitted (h : s.Coupled none) {rest : List UInt32} (hp : s.registry.pending = e.id :: rest) :
    ({ s with registry := { s.registry with pending := rest }.markAdmitted e.id } : Session κ τ ω σ).Coupled
      (some e.id) := by
  have hold : ∀ x ∈ (({ s.registry with pending := rest } : Registry Stream).markAdmitted e.id).entries,
      ∃ y ∈ s.registry.entries, x.id = y.id ∧ (x.id ≠ e.id → x = y) := by
    intro x hx
    obtain ⟨y, hy, rfl⟩ := List.mem_map.1 hx
    refine ⟨y, hy, ?_⟩
    split
    · rename_i hid
      exact ⟨rfl, fun hne => absurd (beq_iff_eq.1 hid) hne⟩
    · exact ⟨rfl, fun _ => rfl⟩
  constructor
  · exact h.live
  · exact h.detached
  · exact h.ordered.markAdmitted hp
  · intro x hx hne
    obtain ⟨y, hy, -, hxy⟩ := hold x hx
    rw [hxy fun heq => hne (congrArg some heq)]
    exact h.fits hy
  · intro x hx
    obtain ⟨y, hy, hid, -⟩ := hold x hx
    rw [hid]
    exact h.fresh y hy
  · exact h.next
  · rw [Registry.tickets_markAdmitted]
    exact h.owes
  · intro hl
    change List.map _ _ = []
    rw [h.empty hl]
    rfl
  · exact h.closing

theorem withoutTransport (h : s.Coupled working) :
    ({ s with transport := none } : Session κ τ ω σ).Coupled working :=
  h.quiet ⟨rfl, rfl, rfl, rfl, id, rfl, rfl, .refl⟩

theorem issued (h : s.Coupled working) :
    Owes s.issueTicket.2.values s.history (s.registry.tickets ++ [s.issueTicket.1]) := by
  have hvalues : s.issueTicket.2.values = s.values ++ [none] := List.map_append
  have hlength : s.issueTicket.1 = s.values.length := (List.length_map _).symm
  rw [hvalues, hlength]
  exact h.owes.issue

theorem queued (h : s.Coupled none) (request : Request) (hopen : s.refusal = none) :
    (s.queued request).Coupled none := by
  obtain ⟨hlost, -, -⟩ := refusal_eq_none_iff.1 hopen
  have hgrow : s.nextId < s.nextId + 2 := nextId_lt_next hopen
  constructor
  · exact h.live
  · exact h.detached
  · exact h.ordered.enqueue rfl h.fresh
  · intro x hx _
    exact Registry.Fitting.enqueue (fun y hy => h.fits hy) s.nextId ⟨rfl, rfl⟩ x hx
  · intro x hx
    rcases List.mem_append.1 hx with hx | hx
    · exact UInt32.lt_trans (h.fresh x hx) hgrow
    · rw [List.mem_singleton.1 hx]
      exact hgrow
  · change (s.nextId + 2).toNat ≤ _
    rw [toNat_next hopen]
    exact Nat.add_le_add_right (nextId_le hopen) 2
  · have htickets : (s.queued request).registry.tickets = s.registry.tickets ++ [s.issueTicket.1] :=
      Registry.tickets_enqueue _ _ _
    rw [htickets]
    exact h.issued
  · intro hl
    exact Bool.noConfusion (hlost.symm.trans hl)
  · exact h.closing

theorem refuse_eq (h : s.Coupled working) (r : Reaction κ τ ω σ) (request : Request) (cause : Fault) :
    ∃ history notices, s.history.Extends Entry.IsStreamLine history ∧
      s.issueTicket.2.finish r (Stream.new 0 s.issueTicket.1 request s.metadata) .inactive [cause] =
        ({ s.issueTicket.2 with history } : Session κ τ ω σ).resolve s.issueTicket.1
          ((Stream.new 0 s.issueTicket.1 request s.metadata).outcome s.metadata .inactive [cause]) notices := by
  have hopen : (Stream.new 0 s.issueTicket.1 request s.metadata).state ≠ .closed := StreamState.noConfusion
  have hmem : s.issueTicket.1 ∈ s.registry.tickets ++ [s.issueTicket.1] :=
    List.mem_append_right _ (List.mem_singleton_self _)
  exact finish_eq (r := r) (s := s.issueTicket.2) h.live hopen ((h.issued.unresolved _).1 hmem) .inactive [cause]

theorem refuse (h : s.Coupled none) (r : Reaction κ τ ω σ) (request : Request) (cause : Fault) :
    (s.issueTicket.2.finish r (Stream.new 0 s.issueTicket.1 request s.metadata) .inactive [cause]).Coupled none := by
  obtain ⟨history, notices, hh, hfinish⟩ := h.refuse_eq r request cause
  rw [hfinish]
  constructor
  · exact h.live
  · exact h.detached
  · exact h.ordered
  · exact h.fitting
  · exact h.fresh
  · exact h.next
  · rw [values_resolve]
    have howed := h.issued.perm (List.perm_append_singleton _ _)
    refine (howed.extend (hh.imp ?_)).settle _
    rintro e ⟨l, rfl, -⟩ t
    rfl
  · exact h.empty
  · exact h.closing

theorem observed (h : s.Coupled none) {ticket : Ticket} {c : Completion ω Outcome} (observers : List ω)
    (hc : s.completions[ticket]? = some c) :
    ({ s with completions := s.completions.set ticket { c with observers } } : Session κ τ ω σ).Coupled none := by
  refine h.quiet ⟨rfl, ?_, rfl, rfl, id, rfl, rfl, .refl⟩
  obtain ⟨hlt, hget⟩ := List.getElem?_eq_some_iff.1 hc
  have hlength : ticket < (s.completions.map (·.value)).length := by rwa [List.length_map]
  have hsame : (s.completions.map (·.value))[ticket] = c.value := by
    rw [List.getElem_map, hget]
  unfold values
  rw [List.map_set, ← hsame]
  exact List.set_getElem_self hlength

theorem conclude_eq (h : s.Coupled none) (he : e ∈ s.registry.entries) (r : Reaction κ τ ω σ) (reason : CloseReason)
    (causes : List Fault) :
    ∃ history notices, s.history.Extends Entry.IsStreamLine history ∧
      ({ s with registry := (s.registry.remove e.id).2 } : Session κ τ ω σ).finish r e.item reason causes =
        ({ s with history, registry := (s.registry.remove e.id).2 } : Session κ τ ω σ).resolve e.item.ticket
          (e.item.outcome s.metadata reason causes) notices :=
  finish_eq (r := r) (s := { s with registry := (s.registry.remove e.id).2 }) h.live (h.fits he).not_closed
    (h.unresolved he) reason causes

theorem conclude (h : s.Coupled none) (he : e ∈ s.registry.entries) (r : Reaction κ τ ω σ) (reason : CloseReason)
    (causes : List Fault) :
    (({ s with registry := (s.registry.remove e.id).2 } : Session κ τ ω σ).finish r e.item reason
      causes).Coupled none := by
  obtain ⟨history, notices, hh, hfinish⟩ := h.conclude_eq he r reason causes
  rw [hfinish]
  refine (h.excuse e.id).resolve he (hh.imp ?_) _ notices
  rintro x ⟨l, rfl, -⟩ t
  rfl

variable [Codec κ]

theorem receive (h : s.Coupled none) (he : e ∈ s.registry.entries) (r : Reaction κ τ ω σ)
    {act : Metadata → Turn κ → Turn κ} (ha : Receipt act) : (s.turn r e.item.ticket act).2.Coupled none := by
  obtain ⟨_, hsteps⟩ := ha.steps s.metadata (s.turnOf e.item)
  exact (h.excuse e.id).turn he r hsteps.continues (hsteps.sound (Turn.sound_of_fits rfl (h.fits he)))

variable [Transport τ]

theorem head (h : s.Coupled none) (hcan : s.canAdmit = true) :
    ∃ e ∈ s.registry.entries, ∃ rest, e.item.Fits false ∧ s.registry.pending = e.id :: rest ∧
      s.registry.admitNext = (some e.item, { s.registry with pending := rest }.markAdmitted e.id) := by
  unfold canAdmit at hcan
  cases hp : s.registry.pending with
  | nil => simp [hp] at hcan
  | cons id rest =>
    obtain ⟨e, he, hid, ha, hhead⟩ := h.ordered.coherent.admitNext_of_cons hp
    subst hid
    exact ⟨e, he, rest, ha ▸ h.fits he, rfl, hhead⟩

theorem popped (h : s.Coupled none) {rest : List UInt32} (hp : s.registry.pending = e.id :: rest) :
    (s.popped e rest).Coupled (some e.id) :=
  (h.markAdmitted hp).quiet ((quiet_note _ .debug _).trans (quiet_enter _ fun _ => rfl))

theorem start (h : s.Coupled none) (r : Reaction κ τ ω σ) (hcan : s.canAdmit = true) {stream : Stream}
    {registry : Registry Stream} (hnext : s.registry.admitNext = (some stream, registry)) :
    (({ s with registry } : Session κ τ ω σ).begin r stream).Coupled none := by
  obtain ⟨e, he, rest, hfit, hp, hhead⟩ := h.head hcan
  rw [hhead, Prod.mk.injEq, Option.some.injEq] at hnext
  obtain ⟨rfl, rfl⟩ := hnext
  let begun : Registry.Entry Stream := { e with admitted := true }
  rw [begin_eq]
  exact (h.popped hp).turn (e := begun) (mem_popped he rest) r (Turn.continues_initiate hfit.2)
    (Turn.sound_initiate rfl hfit)

theorem begin_shape (h : s.Coupled none) (he : e ∈ s.registry.entries) (hfit : e.item.Fits false)
    {rest : List UInt32} (hp : s.registry.pending = e.id :: rest) (r : Reaction κ τ ω σ) :
    ∃ codec registry completions history notices, registry.active ≤ (s.popped e rest).registry.active ∧
      registry.pendingCount ≤ rest.length ∧ completions.length = s.completions.length ∧
      (s.popped e rest).history.Extends (fun x => x.OfTurn e.item.id ∨ ∃ outcome, x = .settled e.item.ticket outcome)
        history ∧
      (∀ p : κ → Prop, Codec.Keeps p → p s.codec → p codec) ∧
      ((s.popped e rest).turn r e.item.ticket Turn.initiate).2 =
        ({ s.popped e rest with codec, registry, completions, history } : Session κ τ ω σ).notify notices := by
  let begun : Registry.Entry Stream := { e with admitted := true }
  obtain ⟨registry, completions, history, notices, hactive, hpending, hlength, hh, hturn⟩ :=
    (h.popped hp).turn_shape (e := begun) (mem_popped he rest) r (Turn.continues_initiate (m := s.metadata) hfit.2)
      (Turn.sound_initiate (m := s.metadata) rfl hfit)
  have hkeeps : ∀ p : κ → Prop, Codec.Keeps p → p s.codec →
      p (Turn.initiate s.metadata ((s.popped e rest).turnOf e.item)).codec :=
    fun _ hp ht => Turn.keeps_initiate (t := (s.popped e rest).turnOf e.item) hp hfit.2 ht
  exact ⟨_, registry, completions, history, notices, hactive, hpending, hlength, hh, hkeeps, hturn⟩

end Coupled

/-! The loss of the transport. -/

def OfLoss (s : Session κ τ ω σ) (e : Entry) : Prop :=
  s.OfAnnouncement e ∨ OfEnding e ∨ (∃ l, e = .log l ∧ l.source = ascii "Session") ∨ e = .call (.close .noError)

theorem OfLoss.unseen {α : Type} {view : Entry → Option α} {s : Session κ τ ω σ} (hlog : ∀ l, view (.log l) = none)
    (hsettled : ∀ ticket outcome, view (.settled ticket outcome) = none)
    (hannounced : ∀ causes, view (.lossAnnounced causes) = none) (hclose : view (.call (.close .noError)) = none)
    {e : Entry} (h : s.OfLoss e) : view e = none := by
  rcases h with h | h | ⟨l, rfl, -⟩ | rfl
  · cases e with
    | log l => exact hlog l
    | lossAnnounced causes => exact hannounced causes
    | _ => exact h.elim
  · exact h.unseen hlog hsettled
  · exact hlog l
  · exact hclose

variable [Codec κ] {s s' : Session κ τ ω σ}

theorem transportLost_eq (h : s.Coupled none) (hl : s.lost = false) (r : Reaction κ τ ω σ) (cause : Option Fault) :
    ∃ completions history notices,
      Owes (completions.map (·.value)) history [] ∧ completions.length = s.completions.length ∧
      s.history.Extends s.OfLoss history ∧
      s.transportLost r cause = ({ s with
        lost := true
        closing := true
        idle := s.idle.cancel
        causes := s.causes ++ cause.toList
        registry := s.registry.clear
        codec := Codec.close s.codec .noError
        lossNotice := s.lossNotice.map (·.fulfilled (s.causes ++ cause.toList))
        completions
        history } : Session κ τ ω σ).notify notices := by
  let lost : Session κ τ ω σ := { s with
    lost := true
    closing := true
    idle := s.idle.cancel
    causes := s.causes ++ cause.toList }
  let noted := lost.note .info (ascii "Connection to " ++ lost.peerText ++ ascii " lost: "
    ++ Decimal.write lost.causes.length ++ ascii " cause(s), " ++ Decimal.write lost.registry.size
    ++ ascii " stream(s) remaining")
  have hlive : noted.loop.stopped = false := h.live
  obtain ⟨announced, notices, hh, ha⟩ := announceLoss_eq (r := r) hlive
  let cleared : Session κ τ ω σ :=
    ({ noted with
      lossNotice := s.lossNotice.map (·.fulfilled lost.causes)
      history := announced
      registry := s.registry.clear } : Session κ τ ω σ).notify notices
  have howes : Owes cleared.values cleared.history (s.registry.snapshot.map (·.ticket)) :=
    (h.owes.extend (.cons (fun _ => rfl) .refl)).extend (hh.imp fun _ => OfAnnouncement.not_settles)
  have hopen : ∀ x ∈ s.registry.snapshot, x.state ≠ .closed := by
    intro x hx
    obtain ⟨e, he, rfl⟩ := List.mem_map.1 hx
    exact (h.fits he).not_closed
  obtain ⟨completions, ended, notices', hall, hlength, hh', hd⟩ :=
    foldl_dismiss_eq (r := r) (s := cleared) h.live hopen howes
  refine ⟨completions, .call (.close .noError) :: ended, notices ++ notices', ?_, hlength, ?_, ?_⟩
  · exact hall.extend (.cons (fun _ => rfl) .refl)
  · have hnoted : s.history.Extends s.OfLoss noted.history := .cons (Or.inr (Or.inr (Or.inl ⟨_, rfl, rfl⟩))) .refl
    have hannounced : noted.history.Extends s.OfLoss announced := hh.imp fun _ => Or.inl
    have hended : announced.Extends s.OfLoss ended := hh'.imp fun _ he => Or.inr (Or.inl he)
    exact .cons (Or.inr (Or.inr (Or.inr rfl))) ((hnoted.trans hannounced).trans hended)
  · have hlost : s.transportLost r cause = (noted.announceLoss r).dismissAll r := if_neg (Bool.eq_false_iff.1 hl)
    rw [hlost, ha]
    change (s.registry.snapshot.foldl (dismiss r) cleared).closeCodec .noError = _
    rw [hd, notify_append]
    rfl

theorem Coupled.lost (h : s.Coupled none) (hl : s.lost = false) (r : Reaction κ τ ω σ) (cause : Option Fault) :
    (s.transportLost r cause).Coupled none := by
  obtain ⟨completions, history, notices, howes, -, -, hlost⟩ := transportLost_eq h hl r cause
  rw [hlost]
  constructor
  · exact h.live
  · exact h.detached
  · exact Registry.Ordered.empty
  · exact fun _ he => absurd he List.not_mem_nil
  · exact fun _ he => absurd he List.not_mem_nil
  · exact h.next
  · exact howes
  · exact fun _ => rfl
  · exact fun _ => rfl

/-! Every move keeps the invariant, and so does every path. -/

variable [Transport τ]

theorem Traffic.coupled (h : Traffic s s') (hc : s.Coupled none) : s'.Coupled none := by
  cases h with
  | note level message => exact hc.quiet (quiet_note s level message)
  | hold | gate => exact hc.quiet ⟨rfl, rfl, rfl, rfl, id, rfl, rfl, .refl⟩
  | start r hcan hnext => exact hc.start r hcan hnext
  | receive r hs he ha => exact hc.receive he r ha
  | @conclude r e reason causes hs he _ => exact hc.conclude he r reason causes
  | acknowledge => exact hc.quiet ⟨rfl, rfl, rfl, rfl, id, rfl, rfl, .cons (fun _ => rfl) .refl⟩

theorem Move.coupled (h : Move s s') (hc : s.Coupled none) : s'.Coupled none := by
  cases h with
  | traffic h => exact h.coupled hc
  | dispatch event => exact hc.quiet (quiet_enter s fun _ => rfl)
  | queue request h => exact hc.queued request h
  | @refuse r request cause h => exact hc.refuse r request cause
  | observe observers h => exact hc.observed observers h
  | notify | acknowledged | certified | drain | establish | blame =>
    exact hc.quiet ⟨rfl, rfl, rfl, rfl, id, rfl, rfl, .refl⟩
  | receive | write | initiate | farewell | lose =>
    exact hc.quiet ⟨rfl, rfl, rfl, rfl, id, rfl, rfl, .cons (fun _ => rfl) .refl⟩
  | closing => exact hc.quiet ⟨rfl, rfl, rfl, rfl, fun _ => rfl, rfl, rfl, .refl⟩
  | discard r hl => exact hc.withoutTransport.lost hl r none
  | lost r cause hl => exact hc.lost hl r cause

theorem Path.coupled (h : Path s s') (hc : s.Coupled none) : s'.Coupled none := by
  induction h with
  | refl => exact hc
  | tail _ hmove ih => exact hmove.coupled ih

end Multiplex.Session
