import Mathlib.Data.Set.Insert
import Multiplex.Proofs.IoSteps

/-! An event about one exchange stays with that exchange. It never touches the connection, and no other exchange notices
it, unless it ends this one and another one starts in the room that is left. -/
namespace Multiplex

open Bytes Wire

def Wire.Event.OfExchange (event : Event) : Prop :=
  event.stream ≠ 0 ∧
    match event.body with
    | .response _ | .data .. | .ended | .reset _ | .windowUpdated => True
    | _ => False

def History.AdmittedSince (h h' : History) (ticket : Ticket) : Prop :=
  ∃ ready active limit earlier, .admitted ticket ready active limit :: earlier <:+ h' ∧ h <:+ earlier

namespace Registry

variable {r : Registry Stream} {id : UInt32} {e : Entry Stream}

theorem pending_remove (r : Registry Stream) (id : UInt32) : (r.remove id).2.pending.Sublist r.pending := by
  unfold remove
  split
  · exact List.Sublist.refl _
  · dsimp only
    split
    · exact List.Sublist.refl _
    · exact List.filter_sublist

theorem mem_entries_remove (he : e ∈ r.entries) (hne : e.id ≠ id) : e ∈ (r.remove id).2.entries := by
  have hstays : e ∈ r.entries.filter (·.id != id) := List.mem_filter.2 ⟨he, bne_iff_ne.2 hne⟩
  unfold remove
  split
  · exact he
  · dsimp only
    split
    · exact hstays
    · exact hstays

end Registry

namespace Session

variable {κ τ ω σ : Type} {s₀ s s' u : Session κ τ ω σ} {r : Reaction κ τ ω σ} {x : Stream} {ids : Set UInt32}

/-- The connection goes on as it was, and so does every exchange but those with the given ids. But exchanges that were
waiting may have been admitted. -/
structure Confined (ids : Set UInt32) (s s' : Session κ τ ω σ) : Prop where
  closing : s'.closing = s.closing
  lost : s'.lost = s.lost
  causes : s'.causes = s.causes
  nextId : s'.nextId = s.nextId
  metadata : s'.metadata = s.metadata
  stopped : s'.loop.stopped = s.loop.stopped
  history : s.history <:+ s'.history
  tidy : s.Tidy → s'.Tidy
  coherent : s.registry.Coherent → s'.registry.Coherent
  registered : (s'.registry.entries.map (·.id)).Sublist (s.registry.entries.map (·.id))
  queue : s'.registry.pending.Sublist s.registry.pending
  others : ∀ e ∈ s.registry.entries, e.id ∉ ids →
    e ∈ s'.registry.entries ∧ s'.completions[e.item.ticket]? = s.completions[e.item.ticket]? ∨
      e.admitted = false ∧ s.history.AdmittedSince s'.history e.item.ticket

theorem Confined.trans (h : Confined ids s u) (h' : Confined ids u s') : Confined ids s s' where
  closing := h'.closing.trans h.closing
  lost := h'.lost.trans h.lost
  causes := h'.causes.trans h.causes
  nextId := h'.nextId.trans h.nextId
  metadata := h'.metadata.trans h.metadata
  stopped := h'.stopped.trans h.stopped
  history := h.history.trans h'.history
  tidy := fun ht => h'.tidy (h.tidy ht)
  coherent := fun hc => h'.coherent (h.coherent hc)
  registered := h'.registered.trans h.registered
  queue := h'.queue.trans h.queue
  others := by
    intro e he hne
    rcases h.others e he hne with ⟨hkept, hcompletion⟩ | ⟨hwaiting, ready, active, limit, earlier, hadmitted, hsince⟩
    · rcases h'.others e hkept hne with
        ⟨hkept', hcompletion'⟩ | ⟨hwaiting, ready, active, limit, earlier, hadmitted, hsince⟩
      · exact Or.inl ⟨hkept', hcompletion'.trans hcompletion⟩
      · exact Or.inr ⟨hwaiting, ready, active, limit, earlier, hadmitted, h.history.trans hsince⟩
    · exact Or.inr ⟨hwaiting, ready, active, limit, earlier, hadmitted.trans h'.history, hsince⟩

theorem Confined.mono {ids' : Set UInt32} (hsub : ids ⊆ ids') (h : Confined ids s s') : Confined ids' s s' :=
  { h with others := fun e he hne => h.others e he fun hm => hne (hsub hm) }

theorem confined_aside (s : Session κ τ ω σ) (codec : κ) (program : σ) (admitting : Bool) {loop : Loop (Notice ω)}
    {history : History} (hloop : loop.stopped = s.loop.stopped) (hh : s.history <:+ history) :
    Confined ids s { s with codec, loop, program, admitting, history } where
  closing := rfl
  lost := rfl
  causes := rfl
  nextId := rfl
  metadata := rfl
  stopped := hloop
  history := hh
  tidy := fun ht => ht.of_same rfl rfl rfl rfl
  coherent := id
  registered := .refl _
  queue := .refl _
  others := fun _ he _ => Or.inl ⟨he, rfl⟩

theorem Confined.refl (s : Session κ τ ω σ) : Confined ids s s :=
  confined_aside s s.codec s.program s.admitting rfl (List.suffix_refl _)

theorem confined_note (s : Session κ τ ω σ) (level : Log.Level) (message : Bytes) (source : String) :
    Confined ids s (s.note level message source) :=
  confined_aside s s.codec s.program s.admitting rfl (List.suffix_cons _ _)

theorem confined_enter (s : Session κ τ ω σ) (e : Entry) : Confined ids s (s.enter e) :=
  confined_aside s s.codec s.program s.admitting rfl (List.suffix_cons _ _)

/-- Observers are told through the loop, or what they do when they are told at once leaves all exchanges alone. -/
def Undisturbed (r : Reaction κ τ ω σ) (s : Session κ τ ω σ) : Prop :=
  s.loop.stopped = false ∨ ∀ o news u, Confined ∅ u (r.run o news u)

theorem Undisturbed.confined (hq : s.Undisturbed r) (h : Confined ids s s') : s'.Undisturbed r :=
  hq.imp_left h.stopped.trans

/-! Telling observers, and ending exchanges. -/

theorem confined_tell (hq : s.Undisturbed r) (n : Notice ω) : Confined ids s (s.tell r n) := by
  unfold tell
  split
  · rename_i loop hpost
    obtain ⟨-, rfl⟩ := Loop.post_eq_some_iff.1 hpost
    exact confined_aside s s.codec s.program s.admitting rfl (List.suffix_refl _)
  · rename_i hpost
    have hat : ∀ o news u, Confined ∅ u (r.run o news u) := hq.resolve_left fun hrunning =>
      Option.some_ne_none _ ((Loop.post_eq_some_iff.2 ⟨hrunning, rfl⟩).symm.trans hpost)
    exact (confined_note s _ _ _).trans ((hat _ _ _).mono (Set.empty_subset ids))

theorem confined_tellAll (hq : s.Undisturbed r) (os : List ω) (news : News) : Confined ids s (s.tellAll r os news) := by
  unfold tellAll
  induction os generalizing s with
  | nil => exact .refl s
  | cons o os ih =>
    have htold : Confined ids s (s.tell r ⟨o, news⟩) := confined_tell hq _
    exact htold.trans (ih (hq.confined htold))

theorem confined_given {ticket : Ticket} (outcome : Outcome)
    (hids : ∀ e ∈ s.registry.entries, e.item.ticket = ticket → e.id ∈ ids) :
    Confined ids s (s.given ticket outcome) where
  closing := rfl
  lost := rfl
  causes := rfl
  nextId := rfl
  metadata := rfl
  stopped := rfl
  history := List.suffix_cons _ _
  tidy := fun ht => ht.of_same rfl rfl rfl List.length_set
  coherent := id
  registered := .refl _
  queue := .refl _
  others := by
    intro e he hne
    refine Or.inl ⟨he, ?_⟩
    exact List.getElem?_set_ne fun hticket => hne (hids e he hticket.symm)

theorem confined_settle (hq : s.Undisturbed r) {ticket : Ticket} (outcome : Outcome)
    (hids : ∀ e ∈ s.registry.entries, e.item.ticket = ticket → e.id ∈ ids) :
    Confined ids s (s.settle r ticket outcome) := by
  rcases settle_cases r ticket outcome s with ⟨-, h | h⟩ | ⟨os, -, h⟩
  · rw [h]
    exact .refl s
  · rw [h]
    exact confined_note s _ _ _
  · have hgiven : Confined ids s (s.given ticket outcome) := confined_given outcome hids
    rw [h]
    exact hgiven.trans (confined_tellAll (hq.confined hgiven) os _)

theorem confined_finish (hq : s.Undisturbed r) (x : Stream) (reason : CloseReason) (causes : List Fault)
    (hids : ∀ e ∈ s.registry.entries, e.item.ticket = x.ticket → e.id ∈ ids) :
    Confined ids s (s.finish r x reason causes) := by
  obtain ⟨history, hlines, h⟩ := finish_cases r x reason causes s
  have hnoted : Confined ids s { s with history } :=
    confined_aside s s.codec s.program s.admitting rfl hlines.suffix
  rcases h with ⟨-, h⟩ | ⟨-, h⟩
  · rw [h]
    exact hnoted
  · rw [h]
    exact hnoted.trans (confined_settle (hq.confined hnoted) _ hids)

theorem confined_giveUp (x : Stream) (s : Session κ τ ω σ) : Confined ids s (s.giveUp x) := by
  unfold giveUp
  split
  · exact .refl s
  · exact confined_note s _ _ _

theorem confined_remove {id : UInt32} {registry : Registry Stream} {detached : List Stream}
    (h : s.registry.remove id = (some x, registry))
    (htidy : s.Tidy → ({ s with registry, detached } : Session κ τ ω σ).Tidy) :
    Confined {id} s { s with registry, detached } := by
  obtain rfl : (s.registry.remove id).2 = registry := congrArg (·.2) h
  exact {
    closing := rfl
    lost := rfl
    causes := rfl
    nextId := rfl
    metadata := rfl
    stopped := rfl
    history := List.suffix_refl _
    tidy := htidy
    coherent := fun hc => hc.remove id
    registered := (Registry.entries_remove s.registry id).map _
    queue := Registry.pending_remove s.registry id
    others := fun e he hne => Or.inl ⟨Registry.mem_entries_remove he hne, rfl⟩ }

theorem confined_release (id : UInt32) (s : Session κ τ ω σ) : Confined {id} s (s.release id).2 := by
  unfold release
  split
  · exact confined_note s _ _ _
  · rename_i x registry h
    dsimp only
    split
    · exact confined_remove h (clerical_detach h).tidy
    · exact (confined_remove h (clerical_remove h).tidy).trans (confined_giveUp x _)

/-! Turns and admission. -/

theorem Tidy.id_of_ticket (ht : s.Tidy) (hx : x ∈ s.inPlay) {e : Registry.Entry Stream} (he : e ∈ s.registry.entries)
    (hticket : e.item.ticket = x.ticket) : e.id = x.id :=
  (ht.ids e he).symm.trans (congrArg Stream.id (ht.eq_of_ticket (mem_inPlay_of_entry he) hx hticket))

theorem confined_turned {t : Turn κ} (ht : s.Tidy) (hx : x ∈ s.inPlay) (hid : t.stream.id = x.id)
    (hticket : t.stream.ticket = x.ticket) (hh : s.history <:+ t.history) : Confined {x.id} s (s.turned t) where
  closing := rfl
  lost := rfl
  causes := rfl
  nextId := rfl
  metadata := rfl
  stopped := rfl
  history := hh
  tidy := fun _ => ht.turned hx hid hticket
  coherent := fun hc => hc.replace (·.ticket == t.stream.ticket) t.stream
  registered := by
    have hsame : (s.turned t).registry.entries.map (·.id) = s.registry.entries.map (·.id) := by
      refine List.map_map.trans (List.map_congr_left fun e _ => ?_)
      rw [Function.comp_apply]
      split <;> rfl
    exact hsame ▸ .refl _
  queue := .refl _
  others := by
    intro e he hne
    refine Or.inl ⟨List.mem_map.2 ⟨e, he, if_neg fun heq => hne ?_⟩, rfl⟩
    exact ht.id_of_ticket hx he ((beq_iff_eq.1 heq).trans hticket)

theorem confined_turn [Codec κ] (hq : s.Undisturbed r) (ht : s.Tidy) (hx : x ∈ s.inPlay)
    {act : Metadata → Turn κ → Turn κ}
    (ha : ∀ m t, Turn.Continues t (act m t)) : Confined {x.id} s (s.turn r x.ticket act).2 := by
  unfold turn
  split
  · exact .refl s
  · rename_i y hfind
    obtain ⟨hy, hsame⟩ := mem_of_streamOf hfind
    obtain rfl : y = x := ht.eq_of_ticket hy hx hsame
    let t := act s.metadata (s.turnOf y)
    have hcontinues : Turn.Continues (s.turnOf y) t := ha _ _
    have hturned : Confined {y.id} s (s.turned t) :=
      confined_turned ht hy hcontinues.id hcontinues.ticket hcontinues.history.suffix
    dsimp only
    split
    · exact hturned
    · rename_i e _
      have hids : ∀ e ∈ (s.turned t).registry.entries, e.item.ticket = y.ticket → e.id ∈ ({y.id} : Set UInt32) := by
        intro e he hticket
        have hin : t.stream ∈ (s.turned t).inPlay := (mem_inPlay_turned ht hy hcontinues.ticket).2 (Or.inl rfl)
        exact ((hturned.tidy ht).id_of_ticket hin he (hticket.trans hcontinues.ticket.symm)).trans hcontinues.id
      have hsettled := hturned.trans (confined_settle (hq.confined hturned) e.outcome hids)
      split
      · exact hsettled.trans (confined_release y.id _)
      · exact hsettled

variable [Codec κ] [Transport τ]

theorem confined_popped (ht : s.Tidy) (hc : s.registry.Coherent) {e : Registry.Entry Stream} {rest : List UInt32}
    (hp : s.registry.pending = e.id :: rest)
    (hnext : s.registry.admitNext = (some e.item, { s.registry with pending := rest }.markAdmitted e.id)) :
    Confined {e.id} s (s.popped e rest) where
  closing := rfl
  lost := rfl
  causes := rfl
  nextId := rfl
  metadata := rfl
  stopped := rfl
  history := (List.suffix_cons _ _).trans (List.suffix_cons _ _)
  tidy := by
    have hmarked := (clerical_admitNext s).tidy ht
    rw [hnext] at hmarked
    exact fun _ => hmarked.of_same rfl rfl rfl rfl
  coherent := fun _ => hc.markAdmitted hp
  registered := by
    have hsame : (s.popped e rest).registry.entries.map (·.id) = s.registry.entries.map (·.id) := by
      refine List.map_map.trans (List.map_congr_left fun e _ => ?_)
      rw [Function.comp_apply]
      split <;> rfl
    exact hsame ▸ .refl _
  queue := hp ▸ List.sublist_cons_self e.id rest
  others := fun x hx hne => Or.inl ⟨List.mem_map.2 ⟨x, hx, if_neg fun heq => hne (beq_iff_eq.1 heq)⟩, rfl⟩

theorem confined_begin (hq : s.Undisturbed r) (ht : s.Tidy) (hc : s.registry.Coherent) {registry : Registry Stream}
    (h : s.registry.admitNext = (some x, registry)) :
    Confined ids s (({ s with registry } : Session κ τ ω σ).begin r x) := by
  cases hp : s.registry.pending with
  | nil =>
    unfold Registry.admitNext at h
    rw [hp] at h
    cases h
  | cons id rest =>
    obtain ⟨e, he, rfl, hwaiting, hnext⟩ := hc.admitNext_of_cons hp
    obtain ⟨hx, rfl⟩ := Prod.mk.inj (hnext.symm.trans h)
    obtain rfl := Option.some.inj hx
    have hpopped : Confined {e.id} s (s.popped e rest) := confined_popped ht hc hp hnext
    have hturn := confined_turn (hq.confined hpopped) (hpopped.tidy ht) (mem_inPlay_of_entry (mem_popped he rest))
      Turn.continues_attempt
    rw [show ({ e with admitted := true } : Registry.Entry Stream).item.id = e.id from ht.ids e he] at hturn
    have hbegun := hpopped.trans hturn
    rw [begin_eq]
    refine { hbegun with others := fun y hy _ => ?_ }
    by_cases hid : y.id = e.id
    · obtain rfl := hc.eq_of_id_eq hy he hid
      exact Or.inr ⟨hwaiting, _, _, _, _, hturn.history, List.suffix_cons _ _⟩
    · exact hbegun.others y hy hid

theorem confined_admitUpTo (hq : s.Undisturbed r) (ht : s.Tidy) (hc : s.registry.Coherent) (n : Nat) :
    Confined ids s (s.admitUpTo r n) := by
  induction n generalizing s with
  | zero => exact .refl s
  | succ n ih =>
    unfold admitUpTo
    split
    · rename_i hcan
      split
      · rename_i registry h
        obtain ⟨id, rest, hp⟩ := List.exists_cons_of_ne_nil (canAdmit_eq_true_iff.1 hcan).1
        obtain ⟨e, -, -, -, hnext⟩ := hc.admitNext_of_cons hp
        exact absurd (hnext.symm.trans h) nofun
      · rename_i x registry h
        have hbegun : Confined ids s (({ s with registry } : Session κ τ ω σ).begin r x) := confined_begin hq ht hc h
        exact hbegun.trans (ih (hq.confined hbegun) (hbegun.tidy ht) (hbegun.coherent hc))
    · exact .refl s

theorem confined_admitQueued (hq : s.Undisturbed r) (ht : s.Tidy) (hc : s.registry.Coherent) :
    Confined ids s (s.admitQueued r) := by
  unfold admitQueued
  split
  · exact .refl s
  · have hshut : Confined ids s { s with admitting := true } :=
      confined_aside s s.codec s.program true rfl (List.suffix_refl _)
    have hdone := hshut.trans (confined_admitUpTo (hq.confined hshut) (hshut.tidy ht) (hshut.coherent hc)
      (s.registry.pendingCount + s.idsLeft))
    exact hdone.trans (confined_aside _ _ _ false rfl (List.suffix_refl _))

theorem confined_step (hq : s.Undisturbed r) (ht : s.Tidy) (hc : s.registry.Coherent) (hx : x ∈ s.inPlay)
    {act : Metadata → Turn κ → Turn κ} (ha : ∀ m t, Turn.Continues t (act m t)) :
    Confined {x.id} s (s.step r x.ticket act) := by
  have hturn := confined_turn hq ht hx ha
  rw [step_eq]
  split
  · exact hturn.trans (confined_admitQueued (hq.confined hturn) (hturn.tidy ht) (hturn.coherent hc))
  · exact hturn

/-! Events. -/

omit [Transport τ] in
theorem Receipt.continues {act : Metadata → Turn κ → Turn κ} (h : Receipt act) (m : Metadata) (t : Turn κ) :
    Turn.Continues t (act m t) := by
  obtain ⟨d, hsteps⟩ := h.steps m t
  exact hsteps.continues

omit [Codec κ] [Transport τ] in
theorem confined_withStream {event : Event} {act : Stream → Session κ τ ω σ → Session κ τ ω σ}
    {otherwise : Session κ τ ω σ → Session κ τ ω σ} (ht : s.Tidy)
    (hact : ∀ x ∈ s.inPlay, x.id = event.stream → Confined ids s (act x s))
    (hother : ∀ u, Confined ids u (otherwise u)) : Confined ids s (s.withStream event act otherwise) := by
  unfold withStream
  split
  · rename_i x hfind
    obtain ⟨e, he, hid, rfl⟩ := mem_of_find hfind
    exact hact e.item (mem_inPlay_of_entry he) ((ht.ids e he).trans hid)
  · exact (confined_note s _ _ _).trans (hother _)

theorem confined_receive (hq : s.Undisturbed r) (ht : s.Tidy) (hc : s.registry.Coherent) (event : Event)
    {act : Metadata → Turn κ → Turn κ} (ha : Receipt act) {otherwise : Session κ τ ω σ → Session κ τ ω σ}
    (hother : ∀ u, Confined {event.stream} u (otherwise u)) : Confined {event.stream} s
      (s.withStream event (fun x u => u.step r x.ticket act) otherwise) := by
  refine confined_withStream ht (fun x hx hid => ?_) hother
  exact hid ▸ confined_step hq ht hc hx ha.continues

theorem confined_concludeStream (hq : s.Undisturbed r) (ht : s.Tidy) (hc : s.registry.Coherent) {event : Event}
    {act : Stream → Session κ τ ω σ → Session κ τ ω σ}
    (hact : ∀ x u, u.Undisturbed r →
      (∀ e ∈ u.registry.entries, e.item.ticket = x.ticket → e.id ∈ ({event.stream} : Set UInt32)) →
      Confined {event.stream} u (act x u)) : Confined {event.stream} s (s.concludeStream r event act) := by
  unfold concludeStream
  split
  · rename_i x registry h
    have hremoved : Confined {event.stream} s { s with registry } := confined_remove h (clerical_remove h).tidy
    have hids : ∀ e ∈ registry.entries, e.item.ticket = x.ticket → e.id ∈ ({event.stream} : Set UInt32) := by
      intro e he hticket
      obtain ⟨y, hy, hid, rfl⟩ := Registry.mem_of_remove h
      obtain ⟨z, hz, hez, hitem⟩ := (clerical_remove h).entries e he
      have hsame : z.id = y.item.id := ht.id_of_ticket (mem_inPlay_of_entry hy) hz (hitem ▸ hticket)
      exact hez.trans (hsame.trans ((ht.ids y hy).trans hid))
    have hended := hremoved.trans (hact x _ (hq.confined hremoved) hids)
    exact hended.trans (confined_admitQueued (hq.confined hended) (hended.tidy ht) (hended.coherent hc))
  · exact confined_note s _ _ _

theorem confined_handle (hq : s.Undisturbed r) (ht : s.Tidy) (hc : s.registry.Coherent) {event : Event}
    (he : event.OfExchange) : Confined {event.stream} s (s.handle r event) := by
  obtain ⟨stream, body⟩ := event
  obtain ⟨hstream, hbody⟩ := he
  unfold handle
  cases body with
  | response fields => exact confined_receive hq ht hc _ (.head fields) .refl
  | data bytes length =>
    refine confined_receive hq ht hc _ (.data bytes length) fun u => ?_
    exact confined_aside u _ u.program u.admitting rfl (List.suffix_cons _ _)
  | ended => exact confined_concludeStream hq ht hc fun x u hq hids => confined_finish hq x _ _ hids
  | reset code =>
    refine confined_concludeStream hq ht hc fun x u hq hids => ?_
    have hnoted : ∀ message, Confined {stream} u (u.note .info message) := fun message => confined_note u .info message _
    exact (hnoted _).trans (confined_finish (hq.confined (hnoted _)) x _ _ hids)
  | windowUpdated =>
    dsimp only
    -- The window of the whole connection would concern every exchange, but the event names one.
    rw [if_neg hstream]
    exact confined_receive hq ht hc ⟨stream, .windowUpdated⟩ .window .refl
  | settingsAcknowledged | remoteSettingsChanged | terminated | unknownFrame | unlisted => exact hbody.elim

/-! Events for exchanges that are gone. -/

def creditFor (event : Event) (s : Session κ τ ω σ) : Session κ τ ω σ :=
  match event.body with
  | .data _ length =>
    { s with codec := Codec.acknowledge s.codec length event.stream }.enter (.call (.acknowledge event.stream length))
  | _ => s

theorem handle_of_unregistered (r : Reaction κ τ ω σ) {event : Event} (he : event.OfExchange)
    (hgone : s.registry.find event.stream = none) :
    ∃ message, s.handle r event = (s.note .warn message).creditFor event := by
  have hstray : ∀ act otherwise, ∃ message, s.withStream event act otherwise = otherwise (s.note .warn message) := by
    intro act otherwise
    unfold withStream
    rw [hgone]
    exact ⟨_, rfl⟩
  have hunremoved : ∀ act, ∃ message, s.concludeStream r event act = s.note .warn message := by
    intro act
    unfold concludeStream
    split
    · rename_i x registry h
      obtain ⟨e, hmem, hid, -⟩ := Registry.mem_of_remove h
      exact absurd hid (ne_of_find hgone e hmem)
    · exact ⟨_, rfl⟩
  obtain ⟨stream, body⟩ := event
  obtain ⟨hstream, hbody⟩ := he
  unfold handle
  cases body with
  | response fields => exact hstray _ _
  | data bytes length => exact hstray _ _
  | ended => exact hunremoved _
  | reset code => exact hunremoved _
  | windowUpdated =>
    dsimp only
    rw [if_neg hstream]
    exact hstray _ _
  | settingsAcknowledged | remoteSettingsChanged | terminated | unknownFrame | unlisted => exact hbody.elim

/-- An event about one exchange changes that exchange, and nothing else: the connection goes on as it was, and so does
every other exchange, unless it was waiting and is admitted now. If there is no such exchange, nothing changes at all,
but for a line in the log, and the room of a piece of a body that is given back to the peer. -/
theorem run_isolation (h₀ : Created s₀) (h : FreeRun s₀ s) (hr : ∀ o news w, FreeRun w (r.run o news w)) (data : Bytes)
    (before : List Event) {event : Event} (he : event.OfExchange) (hu : u = (s.received data).handleAll r before)
    (hs : u.Serving) (hq : u.Undisturbed r) :
    Confined {event.stream} u ((s.received data).handleAll r (before ++ [event])) ∧
    (u.registry.find event.stream = none → ∃ message, (s.received data).handleAll r (before ++ [event]) =
      ((u.enter (.dispatched event)).note .warn message).creditFor event) := by
  have hacts : r.ByIoSteps (fun _ => True) fun _ _ => True := fun o news w => (hr o news w).sheltered.ioSteps
  have horderly : r.Orderly := fun o news w hw => (hr o news w).changes hw
  obtain ⟨-, hempty, -⟩ := h₀.fields
  have ht : u.Tidy := by
    have hreceived : (s.received data).Tidy := ((h.changes h₀.tidy).tidy h₀.tidy).of_same rfl rfl rfl rfl
    exact hu ▸ (changes_handleAll horderly before hreceived).tidy hreceived
  have hc : u.registry.Coherent := by
    have hreached : s.registry.Coherent := h.sheltered.ioSteps.coherent (hempty ▸ Registry.coherent_empty)
    have hreceived : (s.received data).registry.Coherent := hreached
    exact hu ▸ (ioSteps_handleAll hacts before (s.received data)).coherent hreceived
  have hdispatched : Confined {event.stream} u (u.enter (.dispatched event)) := confined_enter u _
  rw [handleAll_concat r before event (hu ▸ hs), ← hu]
  refine ⟨?_, fun hgone => handle_of_unregistered r he hgone⟩
  exact hdispatched.trans (confined_handle (hq.confined hdispatched) (hdispatched.tidy ht) (hdispatched.coherent hc) he)

/-- Two exchanges run and a third one waits. The end of the first one leaves room for the third, and a piece of a body
is for none of them. -/
theorem run_isolation_scripted :
    ∃ (s₀ s u : Session Scripted.Codec Scripted.Transport Unit Unit)
      (r : Reaction Scripted.Codec Scripted.Transport Unit Unit) (before : List Event) (event stray : Event)
      (message : Bytes),
      Created s₀ ∧ FreeRun s₀ s ∧ (∀ o news w, FreeRun w (r.run o news w)) ∧ event.OfExchange ∧ stray.OfExchange ∧
        u = (s.received []).handleAll r before ∧ u.Serving ∧ u.Undisturbed r ∧
        u.registry.entries.map (fun e => (e.id, e.admitted)) = [(1, true), (3, true), (5, false)] ∧
        Confined {event.stream} u ((s.received []).handleAll r (before ++ [event])) ∧
        ((s.received []).handleAll r (before ++ [event])).registry.entries.map (fun e => (e.id, e.admitted)) =
          [(3, true), (5, true)] ∧
        u.registry.find stray.stream = none ∧ (s.received []).handleAll r (before ++ [stray]) =
          ((u.enter (.dispatched stray)).note .warn message).creditFor stray := by
  let r : Reaction Scripted.Codec Scripted.Transport Unit Unit := ⟨fun _ _ s => s⟩
  let request : Request := { url := ascii "https://example.com/" }
  let s₀ : Session Scripted.Codec Scripted.Transport Unit Unit := fresh { localLimit := 2 }
  let s := s₀.performAll r [.submit request, .submit request, .submit request, .established (some {})]
  let before : List Event := [{ body := .settingsAcknowledged }]
  let event : Event := { body := .ended, stream := 1 }
  let stray : Event := { body := .data (ascii "late") 4, stream := 7 }
  let u := (s.received []).handleAll r before
  have hr : ∀ o news w, FreeRun w (r.run o news w) := fun _ _ w => .refl w
  have hs : FreeRun s₀ s := Activity.performAll hr (fun _ _ => trivial) s₀
  have hserving : u.Serving := by
    constructor
    · decide +kernel
    · decide +kernel
  have hquiet : u.Undisturbed r := Or.inl (by decide +kernel)
  have hevent : event.OfExchange := ⟨by decide, trivial⟩
  have hstray : stray.OfExchange := ⟨by decide, trivial⟩
  have hgone : u.registry.find stray.stream = none := Option.isNone_iff_eq_none.1 (by decide +kernel)
  obtain ⟨hconfined, -⟩ := run_isolation (created_fresh _) hs hr [] before hevent rfl hserving hquiet
  obtain ⟨message, hcredit⟩ := (run_isolation (created_fresh _) hs hr [] before hstray rfl hserving hquiet).2 hgone
  refine ⟨s₀, s, u, r, before, event, stray, message, created_fresh _, hs, hr, hevent, hstray, rfl, hserving, hquiet, ?_,
    hconfined, ?_, hgone, hcredit⟩
  · decide +kernel
  · decide +kernel

end Session

end Multiplex
