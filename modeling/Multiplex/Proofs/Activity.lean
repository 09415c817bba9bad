import Multiplex.Proofs.Change

/-! Everything that may be asked of a connection is a path of changes, on any loop, as long as what observers ask when
they are told at once is too. An activity is what comes about in this way. -/
namespace Multiplex

open Bytes Wire

/-- What observers ask of a connection when they are told at once is itself a path of changes. -/
def Reaction.Orderly {κ τ ω σ : Type} [Codec κ] (r : Reaction κ τ ω σ) : Prop :=
  ∀ o news (s : Session κ τ ω σ), s.Tidy → Session.Changes s (r.run o news s)

namespace Session

variable {κ τ ω σ : Type} {s s' : Session κ τ ω σ} {r : Reaction κ τ ω σ} {x : Stream} {ticket : Ticket}

theorem values_getElem? {c : Completion ω Outcome} (h : s.completions[ticket]? = some c) :
    s.values[ticket]? = some c.value := by
  unfold values
  rw [List.getElem?_map, h]
  rfl

theorem values_set_same {c c' : Completion ω Outcome} (hc : s.completions[ticket]? = some c)
    (hvalue : c'.value = c.value) :
    ({ s with completions := s.completions.set ticket c' } : Session κ τ ω σ).values = s.values := by
  obtain ⟨hlt, hget⟩ := List.getElem?_eq_some_iff.1 (values_getElem? hc)
  unfold values at hget ⊢
  rw [List.map_set, hvalue, ← hget]
  exact List.set_getElem_self hlt

theorem settle_cases (r : Reaction κ τ ω σ) (ticket : Ticket) (outcome : Outcome) (s : Session κ τ ω σ) :
    (s.values[ticket]? ≠ some none ∧
        (s.settle r ticket outcome = s ∨ s.settle r ticket outcome = s.noteTwice)) ∨
      ∃ os, s.values[ticket]? = some none ∧
        s.settle r ticket outcome = (s.given ticket outcome).tellAll r os (.settled ticket outcome) := by
  unfold settle
  split
  · rename_i hc
    refine Or.inl ⟨?_, Or.inl rfl⟩
    unfold values
    rw [List.getElem?_map, hc]
    exact nofun
  · rename_i c hc
    split
    · rename_i hfulfil
      refine Or.inl ⟨fun hopen => ?_, Or.inr rfl⟩
      obtain ⟨v, hv⟩ := Option.isSome_iff_exists.1 (Completion.fulfil_eq_none_iff.1 hfulfil)
      rw [values_getElem? hc, hv] at hopen
      cases hopen
    · rename_i os c' hfulfil
      obtain ⟨hopen, -, rfl⟩ := Completion.fulfil_eq_some_iff.1 hfulfil
      exact Or.inr ⟨os, (values_getElem? hc).trans (congrArg some hopen), rfl⟩

theorem finish_cases (r : Reaction κ τ ω σ) (x : Stream) (reason : CloseReason) (causes : List Fault)
    (s : Session κ τ ω σ) : ∃ history, s.history.Extends Entry.IsStreamLine history ∧
      (x.state = .closed ∧ s.finish r x reason causes = { s with history } ∨ x.state ≠ .closed ∧
        s.finish r x reason causes =
          ({ s with history } : Session κ τ ω σ).settle r x.ticket (x.outcome s.metadata reason causes)) := by
  let t : Turn κ := { stream := x, codec := s.codec, history := s.history }
  refine ⟨(t.close s.metadata reason causes false).history, Turn.extends_close t reason causes false, ?_⟩
  by_cases hs : x.state = .closed
  · have hending : (t.close s.metadata reason causes false).ending = none := by
      unfold Turn.close
      rw [if_pos (show t.stream.state = .closed from hs)]
      rfl
    refine Or.inl ⟨hs, ?_⟩
    unfold finish
    dsimp only
    rw [hending]
  · have hending : (t.close s.metadata reason causes false).ending = some ⟨x.outcome s.metadata reason causes, false⟩ :=
      Turn.ending_close (t := t) hs reason causes false
    refine Or.inr ⟨hs, ?_⟩
    unfold finish
    dsimp only
    rw [hending]

theorem finish_of_open (r : Reaction κ τ ω σ) (reason : CloseReason) (causes : List Fault) (hs : x.state ≠ .closed)
    (hopen : s.values[x.ticket]? = some none) : ∃ history os, s.history.Extends Entry.IsStreamLine history ∧
      s.finish r x reason causes =
        (({ s with history } : Session κ τ ω σ).given x.ticket (x.outcome s.metadata reason causes)).tellAll r os
          (.settled x.ticket (x.outcome s.metadata reason causes)) := by
  obtain ⟨history, hlines, h⟩ := finish_cases r x reason causes s
  obtain ⟨-, hfinish⟩ := h.resolve_left fun h => hs h.1
  rcases settle_cases r x.ticket (x.outcome s.metadata reason causes) ({ s with history } : Session κ τ ω σ)
    with ⟨hgiven, -⟩ | ⟨os, -, hsettle⟩
  · exact absurd hopen hgiven
  · exact ⟨history, os, hlines, hfinish.trans hsettle⟩

theorem Clerical.of_same (hregistry : s'.registry = s.registry) (hdetached : s'.detached = s.detached)
    (hnext : s'.nextId = s.nextId) (hvalues : s'.values = s.values) (hclosing : s.closing = true → s'.closing = true)
    (hh : s.history.Extends Entry.Clerical s'.history) : Clerical s s' where
  entries := by
    rw [hregistry]
    exact fun y hy => ⟨y, hy, rfl, rfl⟩
  inPlay := by
    have hplay : s'.inPlay = s.inPlay :=
      congrArg₂ (fun registry detached => registry.snapshot ++ detached) hregistry hdetached
    rw [hplay]
  nextId := hnext
  values := ⟨0, hvalues.trans (List.append_nil _).symm⟩
  closing := hclosing
  history := hh

variable [Codec κ]

theorem Changes.trans {u : Session κ τ ω σ} (h : Changes s u) (h' : Changes u s') : Changes s s' :=
  Relation.ReflTransGen.trans h h'

theorem Changes.of_same (hregistry : s'.registry = s.registry) (hdetached : s'.detached = s.detached)
    (hnext : s'.nextId = s.nextId) (hvalues : s'.values = s.values) (hclosing : s.closing = true → s'.closing = true)
    (hh : s.history.Extends Entry.Clerical s'.history) : Changes s s' :=
  .single (.clerical (.of_same hregistry hdetached hnext hvalues hclosing hh))

theorem Changes.note (s : Session κ τ ω σ) (level : Log.Level) (message : Bytes) (source : String) :
    Changes s (s.note level message source) :=
  .of_same rfl rfl rfl rfl (fun h => h) (.cons trivial .refl)

theorem Changes.enter (s : Session κ τ ω σ) {e : Entry} (he : e.Clerical) : Changes s (s.enter e) :=
  .of_same rfl rfl rfl rfl (fun h => h) (.cons he .refl)

/-! Telling observers, and ending exchanges. -/

theorem changes_tell (hr : r.Orderly) (n : Notice ω) (ht : s.Tidy) : Changes s (s.tell r n) := by
  unfold tell
  split
  · exact .of_same rfl rfl rfl rfl (fun h => h) .refl
  · have hnote := Changes.note s .warn (ascii "Event loop unavailable, notifying observer inline") "Completion"
    exact hnote.trans (hr n.observer n.news _ (hnote.tidy ht))

theorem changes_foldl {α : Type} {f : Session κ τ ω σ → α → Session κ τ ω σ} {as : List α} (ht : s.Tidy)
    (hf : ∀ u, ∀ a ∈ as, Changes s u → u.Tidy → Changes u (f u a)) : Changes s (as.foldl f s) := by
  suffices hall : ∀ u, Changes s u → Changes s (as.foldl f u) from hall s .refl
  induction as with
  | nil => exact fun u h => h
  | cons a as ih =>
    intro u h
    have hfirst := hf u a List.mem_cons_self h (h.tidy ht)
    exact ih (fun v b hb => hf v b (List.mem_cons_of_mem a hb)) _ (h.trans hfirst)

theorem changes_tellAll (hr : r.Orderly) (os : List ω) (news : News) (ht : s.Tidy) :
    Changes s (s.tellAll r os news) :=
  changes_foldl ht fun _ o _ _ hu => changes_tell hr ⟨o, news⟩ hu

theorem changes_settle (hr : r.Orderly) {outcome : Outcome} (ht : s.Tidy)
    (hdone : ∀ x ∈ s.inPlay, x.ticket = ticket → x.state = .closed) (hreason : outcome.reason ≠ .ended) :
    Changes s (s.settle r ticket outcome) := by
  rcases settle_cases r ticket outcome s with ⟨-, h | h⟩ | ⟨os, hopen, h⟩
  · rw [h]
  · rw [h]
    exact .note s _ _ _
  · have hgiven : Changes s (s.given ticket outcome) := .single (.settle hopen hdone hreason)
    rw [h]
    exact hgiven.trans (changes_tellAll hr os _ (hgiven.tidy ht))

theorem changes_finish (hr : r.Orderly) {reason : CloseReason} (causes : List Fault) (ht : s.Tidy)
    (hx : s.Retired x.ticket) (hreason : reason ≠ .ended) : Changes s (s.finish r x reason causes) := by
  obtain ⟨history, hh, h⟩ := finish_cases r x reason causes s
  have hlines : Changes s { s with history } :=
    .of_same rfl rfl rfl rfl (fun h => h) (hh.imp fun _ => Entry.IsStreamLine.clerical)
  rcases h with ⟨-, h⟩ | ⟨-, h⟩
  · rw [h]
    exact hlines
  · rw [h]
    refine hlines.trans (changes_settle hr (hlines.tidy ht) (fun y hy hticket => ?_) hreason)
    exact absurd hticket (hx.2 y hy)

theorem changes_announceLoss (hr : r.Orderly) (ht : s.Tidy) : Changes s (s.announceLoss r) := by
  unfold announceLoss
  split
  · exact .refl
  · split
    · exact .note s _ _ _
    · rename_i os c hfulfil
      let announced : Session κ τ ω σ := { s with lossNotice := some c }.enter (.lossAnnounced s.causes)
      have hannounced : Changes s announced := .of_same rfl rfl rfl rfl (fun h => h) (.cons trivial .refl)
      exact hannounced.trans (changes_tellAll hr os _ (hannounced.tidy ht))

theorem changes_observe (hr : r.Orderly) (ticket : Ticket) (o : ω) (ht : s.Tidy) :
    Changes s (s.observe r ticket o) := by
  unfold observe
  split
  · exact .refl
  · rename_i c hc
    have hvalue := Completion.value_observe c o
    split
    · rename_i c' hobserve
      rw [hobserve] at hvalue
      exact .of_same rfl rfl rfl (values_set_same hc hvalue) (fun h => h) .refl
    · exact changes_tell hr _ ht

/-! Exchanges that leave. -/

theorem changes_giveUp (x : Stream) (s : Session κ τ ω σ) : Changes s (s.giveUp x) := by
  unfold giveUp
  split
  · exact .refl
  · exact .note s _ _ _

theorem changes_letGo (ticket : Ticket) (s : Session κ τ ω σ) : Changes s (s.letGo ticket) := by
  have herased : Changes s { s with held := s.held.erase ticket } := .of_same rfl rfl rfl rfl (fun h => h) .refl
  unfold letGo
  dsimp only
  split
  · exact herased
  · split
    · exact herased
    · refine Relation.ReflTransGen.trans (.single (.clerical ?_)) (changes_giveUp _ _)
      exact {
        entries := fun y hy => ⟨y, hy, rfl, rfl⟩
        inPlay := (List.Subperm.refl _).append List.filter_sublist.subperm
        nextId := rfl
        values := ⟨0, (List.append_nil _).symm⟩
        closing := fun h => h
        history := .refl }

omit [Codec κ] in
theorem clerical_detach {registry : Registry Stream} {id : UInt32} (h : s.registry.remove id = (some x, registry)) :
    Clerical s { s with registry, detached := s.detached ++ [x] } where
  entries := (clerical_remove h).entries
  inPlay := by
    have hmoved : (registry.snapshot ++ (s.detached ++ [x])).Perm ((x :: registry.snapshot) ++ s.detached) := by
      rw [← List.append_assoc]
      exact List.perm_append_singleton _ _
    exact hmoved.subperm.trans ((Registry.snapshot_remove h).append (List.Subperm.refl _))
  nextId := rfl
  values := ⟨0, (List.append_nil _).symm⟩
  closing := fun h => h
  history := .refl

theorem changes_release (id : UInt32) (s : Session κ τ ω σ) : Changes s (s.release id).2 := by
  unfold release
  split
  · exact .note s _ _ _
  · rename_i x registry h
    dsimp only
    split
    · exact .single (.clerical (clerical_detach h))
    · exact Relation.ReflTransGen.trans (.single (.clerical (clerical_remove h))) (changes_giveUp x _)

/-! Turns and admission. -/

theorem changes_turn_of_found (hr : r.Orderly) {act : Metadata → Turn κ → Turn κ} (ht : s.Tidy)
    (hfind : s.streamOf ticket = some x) (ha : s.Prompt x act) :
    Changes (s.turned (act s.metadata (s.turnOf x))) (s.turn r ticket act).2 := by
  obtain ⟨hx, rfl⟩ := mem_of_streamOf hfind
  have hcontinues := ha.continues
  have hturned : (s.turned (act s.metadata (s.turnOf x))).Tidy := ht.turned hx hcontinues.id hcontinues.ticket
  unfold turn
  rw [hfind]
  dsimp only
  split
  · exact .refl
  · rename_i e he
    obtain ⟨hclosed, hreason⟩ := ha.closes e he
    have hdone : ∀ y ∈ (s.turned (act s.metadata (s.turnOf x))).inPlay, y.ticket = x.ticket → y.state = .closed := by
      intro y hy hticket
      rcases (mem_inPlay_turned ht hx hcontinues.ticket).1 hy with rfl | ⟨hy, hne⟩
      · exact hclosed
      · exact absurd (ht.eq_of_ticket hy hx hticket) hne
    have hsettled := changes_settle hr hturned hdone hreason
    split
    · exact hsettled.trans (changes_release _ _)
    · exact hsettled

theorem changes_turn (hr : r.Orderly) {act : Metadata → Turn κ → Turn κ} (ht : s.Tidy)
    (ha : ∀ x, s.streamOf ticket = some x → s.Prompt x act) : Changes s (s.turn r ticket act).2 := by
  cases hfind : s.streamOf ticket with
  | none =>
    unfold turn
    rw [hfind]
  | some x =>
    have hturned : Changes s (s.turned (act s.metadata (s.turnOf x))) :=
      .single (.turn (mem_of_streamOf hfind).1 (ha x hfind))
    exact hturned.trans (changes_turn_of_found hr ht hfind (ha x hfind))

variable [Transport τ]

theorem changes_begin (hr : r.Orderly) (x : Stream) (ht : s.Tidy) : Changes s (s.begin r x) := by
  have hrecorded : Changes s (s.recordAdmission x) :=
    (Changes.note s .debug _ "Session").trans (.enter _ trivial)
  refine hrecorded.trans (changes_turn hr (hrecorded.tidy ht) fun y hfind => ?_)
  obtain ⟨-, hticket⟩ := mem_of_streamOf hfind
  apply Prompt.start
  rw [hticket]
  rfl

omit [Codec κ] [Transport τ] in
theorem clerical_admitNext (s : Session κ τ ω σ) : Clerical s { s with registry := s.registry.admitNext.2 } := by
  obtain ⟨f, hf, hentries⟩ := Registry.admitFrom_entries s.registry s.registry.pending
  have hsnapshot : s.registry.admitNext.2.snapshot = s.registry.snapshot := by
    unfold Registry.admitNext Registry.snapshot
    rw [hentries, List.map_map]
    exact List.map_congr_left fun e _ => (hf e).2
  refine ⟨fun y hy => ?_, ?_, rfl, ⟨0, (List.append_nil _).symm⟩, fun h => h, .refl⟩
  · obtain ⟨e, he, rfl⟩ := List.mem_map.1 (hentries ▸ hy)
    exact ⟨e, he, (hf e).1, (hf e).2⟩
  · unfold inPlay
    rw [hsnapshot]

theorem changes_admitUpTo (hr : r.Orderly) (n : Nat) (ht : s.Tidy) : Changes s (s.admitUpTo r n) := by
  induction n generalizing s with
  | zero => exact .refl
  | succ n ih =>
    unfold admitUpTo
    split
    · have hnext : Changes s { s with registry := s.registry.admitNext.2 } := .single (.clerical (clerical_admitNext s))
      split
      · rename_i registry heq
        rw [heq] at hnext
        exact hnext
      · rename_i x registry heq
        rw [heq] at hnext
        have hbegun := hnext.trans (changes_begin hr x (hnext.tidy ht))
        exact hbegun.trans (ih (hbegun.tidy ht))
    · exact .refl

theorem changes_admitQueued (hr : r.Orderly) (ht : s.Tidy) : Changes s (s.admitQueued r) := by
  unfold admitQueued
  split
  · exact .refl
  · have hshut : Changes s { s with admitting := true } := .of_same rfl rfl rfl rfl (fun h => h) .refl
    have hdone := hshut.trans (changes_admitUpTo hr (s.registry.pendingCount + s.idsLeft) (hshut.tidy ht))
    exact hdone.trans (Changes.of_same rfl rfl rfl rfl (fun h => h) .refl)

theorem changes_step_of_found (hr : r.Orderly) {act : Metadata → Turn κ → Turn κ} (ht : s.Tidy)
    (hfind : s.streamOf ticket = some x) (ha : s.Prompt x act) :
    Changes (s.turned (act s.metadata (s.turnOf x))) (s.step r ticket act) := by
  have hturn := changes_turn_of_found hr ht hfind ha
  have hturned := ht.turned (mem_of_streamOf hfind).1 ha.continues.id ha.continues.ticket
  rw [step_eq]
  split
  · exact hturn.trans (changes_admitQueued hr (hturn.tidy hturned))
  · exact hturn

theorem changes_step (hr : r.Orderly) {act : Metadata → Turn κ → Turn κ} (ht : s.Tidy)
    (ha : ∀ x, s.streamOf ticket = some x → s.Prompt x act) : Changes s (s.step r ticket act) := by
  have hturn := changes_turn hr ht ha
  rw [step_eq]
  split
  · exact hturn.trans (changes_admitQueued hr (hturn.tidy ht))
  · exact hturn

theorem changes_streamClosed (hr : r.Orderly) (id : UInt32) (ht : s.Tidy) : Changes s (s.streamClosed r id) := by
  have hreleased := changes_release id s
  unfold streamClosed
  split
  · rename_i u h
    rw [h] at hreleased
    exact hreleased.trans (changes_admitQueued hr (hreleased.tidy ht))
  · rename_i u h
    rw [h] at hreleased
    exact hreleased

/-! The end of the connection. -/

omit [Codec κ] [Transport τ] in
theorem Tidy.retired_of_cleared (ht : s.Tidy) (hx : x ∈ s.registry.snapshot) :
    ({ s with registry := s.registry.clear } : Session κ τ ω σ).Retired x.ticket := by
  refine ⟨ht.issued x (List.mem_append_left _ hx), fun y hy hticket => ?_⟩
  have hdisjoint := List.nodup_append.1 (List.map_append ▸ ht.tickets)
  exact hdisjoint.2.2 x.ticket (List.mem_map_of_mem hx) y.ticket (List.mem_map_of_mem hy) hticket.symm

omit [Codec κ] [Transport τ] in
theorem clerical_clear (s : Session κ τ ω σ) : Clerical s { s with registry := s.registry.clear } where
  entries := fun _ hy => absurd hy List.not_mem_nil
  inPlay := (List.sublist_append_right s.registry.snapshot s.detached).subperm
  nextId := rfl
  values := ⟨0, (List.append_nil _).symm⟩
  closing := fun h => h
  history := .refl

omit [Transport τ] in
theorem changes_dismissAll (hr : r.Orderly) (ht : s.Tidy) : Changes s (s.dismissAll r) := by
  have hcleared : Changes s { s with registry := s.registry.clear } := .single (.clerical (clerical_clear s))
  have hdismissed : Changes { s with registry := s.registry.clear }
      (s.registry.snapshot.foldl (dismiss r) { s with registry := s.registry.clear }) := by
    refine changes_foldl (hcleared.tidy ht) fun u x hx hu htu => ?_
    have hretired := Changes.retired hu (hcleared.tidy ht) (ht.retired_of_cleared hx)
    unfold dismiss
    split
    · exact changes_finish hr _ htu hretired CloseReason.noConfusion
    · exact changes_finish hr _ htu hretired CloseReason.noConfusion
  exact (hcleared.trans hdismissed).trans (.of_same rfl rfl rfl rfl (fun h => h) (.cons trivial .refl))

omit [Codec κ] [Transport τ] in
def losing (cause : Option Fault) (s : Session κ τ ω σ) : Session κ τ ω σ :=
  { s with lost := true, closing := true, idle := s.idle.cancel, causes := s.causes ++ cause.toList }

omit [Transport τ] in
/-- A loss counts once. It is announced, and then all exchanges that are left are ended. -/
theorem transportLost_cases (r : Reaction κ τ ω σ) (cause : Option Fault) (s : Session κ τ ω σ) :
    (s.lost = true ∧ ∃ message, s.transportLost r cause = s.note .debug message) ∨
      s.lost = false ∧ ∃ message,
        s.transportLost r cause = (((s.losing cause).note .info message).announceLoss r).dismissAll r := by
  cases hl : s.lost with
  | true => exact Or.inl ⟨rfl, _, if_pos hl⟩
  | false => exact Or.inr ⟨rfl, _, if_neg (Bool.eq_false_iff.1 hl)⟩

omit [Transport τ] in
theorem changes_transportLost (hr : r.Orderly) (cause : Option Fault) (ht : s.Tidy) :
    Changes s (s.transportLost r cause) := by
  rcases transportLost_cases r cause s with ⟨-, message, h⟩ | ⟨-, message, h⟩
  · rw [h]
    exact .note s _ _ _
  · have hlost : Changes s (s.losing cause) := .of_same rfl rfl rfl rfl (fun _ => rfl) .refl
    have hlosing := hlost.trans (.note _ .info message "Session")
    have hannounced := hlosing.trans (changes_announceLoss hr (hlosing.tidy ht))
    rw [h]
    exact hannounced.trans (changes_dismissAll hr (hannounced.tidy ht))

/-- The connection once it has made up its mind to close because of a fault. -/
def resolved (fault : Fault) (s : Session κ τ ω σ) : Session κ τ ω σ :=
  { s with causes := s.causes ++ [fault], closing := true, idle := s.idle.cancel }

def asked (fault : Fault) (t : τ) (s : Session κ τ ω σ) : Session κ τ ω σ :=
  ({ s.resolved fault with transport := some (Transport.lose t).2 } : Session κ τ ω σ).enter (.call .lose)

theorem loseWith_again (hl : s.lost = false) (hclosing : s.closing = true) (r : Reaction κ τ ω σ) (fault : Fault) :
    s.loseWith r fault = { s with causes := s.causes ++ [fault] } := by
  unfold loseWith
  rw [if_neg (Bool.eq_false_iff.1 hl)]
  exact if_pos hclosing

theorem loseWith_absent (hl : s.lost = false) (hclosing : s.closing = false) (ht : s.transport = none)
    (r : Reaction κ τ ω σ) (fault : Fault) : s.loseWith r fault = (s.resolved fault).transportLost r none := by
  unfold loseWith
  dsimp only
  rw [if_neg (Bool.eq_false_iff.1 hl), if_neg (Bool.eq_false_iff.1 hclosing)]
  split
  · rfl
  · rename_i t htransport
    exact absurd (ht.symm.trans htransport) (Option.some_ne_none t).symm

theorem loseWith_asked (hl : s.lost = false) (hclosing : s.closing = false) {t : τ} (ht : s.transport = some t)
    (r : Reaction κ τ ω σ) (fault : Fault) : s.loseWith r fault =
      match (Transport.lose t).1 with
      | .later => s.asked fault t
      | .clean => (s.asked fault t).transportLost r none
      | .failed cause => (s.asked fault t).transportLost r (some cause) := by
  unfold loseWith
  dsimp only
  rw [if_neg (Bool.eq_false_iff.1 hl), if_neg (Bool.eq_false_iff.1 hclosing)]
  split
  · rename_i hnone
    exact absurd (hnone.symm.trans ht) (Option.some_ne_none t).symm
  · rename_i t' htransport
    obtain rfl := Option.some.inj (ht.symm.trans htransport)
    rfl

theorem changes_loseWith (hr : r.Orderly) (cause : Fault) (ht : s.Tidy) : Changes s (s.loseWith r cause) := by
  unfold loseWith
  split
  · exact .note s _ _ _
  · let blamed : Session κ τ ω σ := { s with causes := s.causes ++ [cause] }
    dsimp only
    split
    · exact .of_same rfl rfl rfl rfl (fun h => h) .refl
    · rename_i hopen
      rw [Bool.not_eq_true] at hopen
      split
      · have hclosing : Changes s { blamed with closing := true, idle := blamed.idle.cancel } :=
          .of_same rfl rfl rfl rfl (fun _ => rfl) .refl
        exact hclosing.trans (changes_transportLost hr none (hclosing.tidy ht))
      · rename_i t _
        let asking : Session κ τ ω σ := { blamed with
          closing := true, idle := blamed.idle.cancel, transport := some (Transport.lose t).2 }
        have hasked : Changes s (asking.enter (.call .lose)) :=
          .single (.lose (.of_same rfl rfl rfl rfl (fun _ => rfl) .refl) hopen rfl)
        split
        · exact hasked
        · exact hasked.trans (changes_transportLost hr none (hasked.tidy ht))
        · exact hasked.trans (changes_transportLost hr _ (hasked.tidy ht))

theorem changes_flush (hr : r.Orderly) (ht : s.Tidy) : Changes s (s.flush r) := by
  rcases flush_cases r s with ⟨-, h | ⟨message, h⟩⟩ | ⟨t, -, -, -, h | ⟨message, cause, h⟩⟩
  · rw [h]
    exact .of_same rfl rfl rfl rfl (fun h => h) .refl
  · rw [h]
    exact .of_same rfl rfl rfl rfl (fun h => h) (.cons trivial .refl)
  · rw [h]
    exact .of_same rfl rfl rfl rfl (fun h => h) (.cons trivial .refl)
  · have hwritten : Changes s ((s.written t).note .error message) :=
      .of_same rfl rfl rfl rfl (fun h => h) (.cons trivial (.cons trivial .refl))
    rw [h]
    exact hwritten.trans (changes_loseWith hr cause (hwritten.tidy ht))

omit [Transport τ] in
theorem changes_discard (hr : r.Orderly) (ht : s.Tidy) : Changes s (s.discard r) := by
  unfold discard
  split
  · exact .refl
  · have hdropped : Changes s { s with transport := none } := .of_same rfl rfl rfl rfl (fun h => h) .refl
    exact hdropped.trans (changes_transportLost hr none (hdropped.tidy ht))

/-! Events. -/

omit [Transport τ] in
theorem changes_withStream {event : Event} {act : Stream → Session κ τ ω σ → Session κ τ ω σ}
    {otherwise : Session κ τ ω σ → Session κ τ ω σ}
    (hact : ∀ x ∈ s.inPlay, x.id = event.stream → Changes s (act x s))
    (hother : ∀ u, Changes u (otherwise u)) (ht : s.Tidy) : Changes s (s.withStream event act otherwise) := by
  unfold withStream
  split
  · rename_i x hfind
    obtain ⟨e, he, hid, rfl⟩ := mem_of_find hfind
    exact hact e.item (mem_inPlay_of_entry he) ((ht.ids e he).trans hid)
  · exact (Changes.note s _ _ "Session").trans (hother _)

theorem changes_receive (hr : r.Orderly) {act : Metadata → Turn κ → Turn κ} (ht : s.Tidy) (hx : x ∈ s.inPlay)
    (ha : s.Prompt x act) : Changes s (s.step r x.ticket act) := by
  refine changes_step hr ht fun y hfind => ?_
  obtain ⟨hy, hticket⟩ := mem_of_streamOf hfind
  rwa [ht.eq_of_ticket hy hx hticket]

omit [Codec κ] [Transport τ] in
theorem Tidy.retired_of_removed (ht : s.Tidy) {registry : Registry Stream} {id : UInt32}
    (h : s.registry.remove id = (some x, registry)) :
    ({ s with registry } : Session κ τ ω σ).Retired x.ticket := by
  have hplay : (x :: (registry.snapshot ++ s.detached)).Subperm s.inPlay :=
    (Registry.snapshot_remove h).append (List.Subperm.refl s.detached)
  have hdistinct := List.nodup_cons.1 (nodup_of_subperm (map_subperm (·.ticket) hplay) ht.tickets)
  refine ⟨ht.issued x (hplay.subset List.mem_cons_self), fun y hy hticket => hdistinct.1 ?_⟩
  exact List.mem_map.2 ⟨y, hy, hticket⟩

omit [Transport τ] in
theorem changes_ended (hr : r.Orderly) {registry : Registry Stream} {earlier : History} (ht : s.Tidy)
    (h : s.registry.remove x.id = (some x, registry)) (hh : s.history = .dispatched ⟨x.id, .ended⟩ :: earlier) :
    Changes s (({ s with registry } : Session κ τ ω σ).finish r x .ended []) := by
  obtain ⟨history, hlines, hfinish⟩ := finish_cases r x .ended [] ({ s with registry } : Session κ τ ω σ)
  have hremoved : Changes s { s with registry } := .single (.clerical (clerical_remove h))
  have hnoted : Changes { s with registry } { s with registry, history } :=
    .of_same rfl rfl rfl rfl (fun h => h) (hlines.imp fun _ => Entry.IsStreamLine.clerical)
  rcases hfinish with ⟨-, hfinish⟩ | ⟨hs, hfinish⟩
  · rw [hfinish]
    exact hremoved.trans hnoted
  · rw [hfinish]
    rcases settle_cases r x.ticket (x.outcome s.metadata .ended []) ({ s with registry, history } : Session κ τ ω σ)
      with ⟨-, hsettle | hsettle⟩ | ⟨os, hopen, hsettle⟩
    · rw [hsettle]
      exact hremoved.trans hnoted
    · rw [hsettle]
      exact (hremoved.trans hnoted).trans (.note _ _ _ _)
    · have hgiven : Changes s (({ s with registry, history } : Session κ τ ω σ).given x.ticket
          (x.outcome s.metadata .ended [])) := .single (.conclude h hs hopen hh hlines)
      rw [hsettle]
      exact hgiven.trans (changes_tellAll hr os _ (hgiven.tidy ht))

theorem changes_concludeStream (hr : r.Orderly) {event : Event} {act : Stream → Session κ τ ω σ → Session κ τ ω σ}
    (hact : ∀ x registry, x.id = event.stream → s.registry.remove x.id = (some x, registry) →
      Changes s (act x { s with registry })) (ht : s.Tidy) : Changes s (s.concludeStream r event act) := by
  unfold concludeStream
  split
  · rename_i x registry h
    obtain ⟨e, he, hid, rfl⟩ := Registry.mem_of_remove h
    have hsame : e.item.id = event.stream := (ht.ids e he).trans hid
    have hacted := hact e.item registry hsame (hsame ▸ h)
    exact hacted.trans (changes_admitQueued hr (hacted.tidy ht))
  · exact .note s _ _ _

theorem changes_resumeAll (hr : r.Orderly) (ht : s.Tidy) : Changes s (s.resumeAll r) := by
  have hheld : Changes s (s.hold s.registry.tickets) := .of_same rfl rfl rfl rfl (fun h => h) .refl
  have hresumed : Changes s (s.registry.tickets.foldl (resume r) (s.hold s.registry.tickets)) := by
    refine hheld.trans (changes_foldl (hheld.tidy ht) fun u ticket _ _ hu => ?_)
    unfold resume
    split
    · exact .refl
    · split
      · exact .refl
      · exact changes_step hr hu fun _ _ => .window
  rw [resumeAll_eq]
  exact hresumed.trans (changes_foldl (hresumed.tidy ht) fun u ticket _ _ _ => changes_letGo ticket u)

theorem changes_acknowledgeSettings (s : Session κ τ ω σ) : Changes s s.acknowledgeSettings := by
  unfold acknowledgeSettings
  dsimp only
  split
  · exact .of_same rfl rfl rfl rfl (fun h => h) (.cons trivial (.cons trivial .refl))
  · exact .of_same rfl rfl rfl rfl (fun h => h) (.cons trivial (.cons trivial .refl))
  · exact .of_same rfl rfl rfl rfl (fun h => h) (.cons trivial .refl)

theorem changes_handle (hr : r.Orderly) {event : Event} {earlier : History} (ht : s.Tidy)
    (hh : s.history = .dispatched event :: earlier) : Changes s (s.handle r event) := by
  obtain ⟨stream, body⟩ := event
  unfold handle
  cases body with
  | response fields =>
    refine changes_withStream (fun x hx hid => changes_receive hr ht hx ?_) (fun _ => .refl) ht
    exact .head fields earlier (hid ▸ hh)
  | data bytes length =>
    refine changes_withStream (fun x hx hid => changes_receive hr ht hx ?_) (fun u => ?_) ht
    · exact .data bytes length earlier (hid ▸ hh)
    · exact .of_same rfl rfl rfl rfl (fun h => h) (.cons trivial .refl)
  | ended =>
    refine changes_concludeStream hr (fun x registry hid h => ?_) ht
    have hx : s.history = .dispatched ⟨x.id, .ended⟩ :: earlier := by
      rw [show x.id = stream from hid]
      exact hh
    exact changes_ended hr ht h hx
  | reset code =>
    refine changes_concludeStream hr (fun x registry _ h => ?_) ht
    have hremoved : Changes s { s with registry } := .single (.clerical (clerical_remove h))
    have hnoted := fun message => hremoved.trans (.note _ .info message "Session")
    refine (hnoted _).trans (changes_finish hr _ ((hnoted _).tidy ht) ?_ CloseReason.noConfusion)
    exact ht.retired_of_removed h
  | windowUpdated =>
    dsimp only
    split
    · exact changes_resumeAll hr ht
    · exact changes_withStream (fun x hx _ => changes_receive hr ht hx .window) (fun _ => .refl) ht
  | settingsAcknowledged =>
    have hacknowledged := changes_acknowledgeSettings s
    exact hacknowledged.trans (changes_admitQueued hr (hacknowledged.tidy ht))
  | remoteSettingsChanged => exact changes_admitQueued hr ht
  | terminated code last debug =>
    have hnoted := fun message => Changes.note s .warn message "Session"
    exact (hnoted _).trans (changes_loseWith hr _ ((hnoted _).tidy ht))
  | unknownFrame frame => exact .note s _ _ _
  | unlisted kind => exact .refl

theorem changes_handleAll (hr : r.Orderly) (events : List Event) (ht : s.Tidy) : Changes s (s.handleAll r events) := by
  refine changes_foldl ht fun u event _ _ hu => ?_
  split
  · exact .refl
  · have hentered : Changes u (u.enter (.dispatched event)) := .enter u trivial
    exact hentered.trans (changes_handle hr (hentered.tidy hu) rfl)

/-! Operations. -/

theorem changes_submit_of_taken (hr : r.Orderly) (request : Request) (ht : s.Tidy) (hopen : s.refusal = none) :
    Changes (s.queued request) (s.submit r request).2 := by
  obtain ⟨message, h⟩ := submit_of_above r request (fun e he => ht.above he) hopen
  have htidy := ht.queued request hopen
  have hheld : Changes (s.queued request) (((s.queued request).note .debug message).hold [s.completions.length]) :=
    .of_same rfl rfl rfl rfl (fun h => h) (.cons trivial .refl)
  have hadmitted := hheld.trans (changes_admitQueued hr (hheld.tidy htidy))
  have hflushed := hadmitted.trans (changes_flush hr (hadmitted.tidy htidy))
  rw [h]
  exact hflushed.trans (changes_letGo _ _)

theorem changes_submit (hr : r.Orderly) (request : Request) (ht : s.Tidy) : Changes s (s.submit r request).2 := by
  cases hrefusal : s.refusal with
  | none => exact .trans (.single (.queue request hrefusal)) (changes_submit_of_taken hr request ht hrefusal)
  | some cause =>
    obtain ⟨message, h⟩ := submit_of_refused r request hrefusal
    have hissued : Changes s (s.note .warn message).issueTicket.2 := by
      refine .single (.clerical ⟨fun y hy => ⟨y, hy, rfl, rfl⟩, .refl _, rfl, ⟨1, ?_⟩, fun h => h, .cons trivial .refl⟩)
      exact List.map_append
    rw [h]
    refine hissued.trans (changes_finish hr [cause] (hissued.tidy ht) ⟨?_, fun y hy => ?_⟩ CloseReason.noConfusion)
    · rw [show (s.note .warn message).issueTicket.2.completions.length = s.completions.length + 1 from
        List.length_append]
      exact Nat.lt_succ_self _
    · exact Nat.ne_of_lt (ht.issued y hy)

theorem changes_established (hr : r.Orderly) (transport : Option τ) (ht : s.Tidy) :
    Changes s (s.established r transport) := by
  rcases established_cases r transport s with ⟨level, message, h⟩ | ⟨t, -, h⟩
  · rw [h]
    exact .note s _ _ _
  · have hopening : Changes s (s.opening t) :=
      .of_same rfl rfl rfl rfl (fun h => h) (.cons trivial (.cons trivial .refl))
    rw [h]
    exact hopening.trans (changes_flush hr (hopening.tidy ht))

theorem changes_handshakeCompleted (hr : r.Orderly) (ht : s.Tidy) : Changes s (s.handshakeCompleted r) := by
  unfold handshakeCompleted
  split
  · exact .refl
  · dsimp only
    split
    · exact .refl
    · have hnoted := fun message => Changes.note s .error message "Session"
      exact (hnoted _).trans (changes_loseWith hr _ ((hnoted _).tidy ht))

theorem changes_bytesReceived (hr : r.Orderly) (data : Bytes) (ht : s.Tidy) :
    Changes s (s.bytesReceived r data) := by
  unfold bytesReceived
  split
  · exact .note s _ _ _
  · have hreceived : Changes s (s.received data) := .of_same rfl rfl rfl rfl (fun h => h) (.cons trivial .refl)
    dsimp only
    split
    · rename_i events _
      have hhandled := hreceived.trans (changes_handleAll hr events (hreceived.tidy ht))
      exact hhandled.trans (changes_flush hr (hhandled.tidy ht))
    · have hnoted := fun message => hreceived.trans (.note _ .error message "Session")
      have hflushed := fun message => (hnoted message).trans (changes_flush hr ((hnoted message).tidy ht))
      exact (hflushed _).trans (changes_loseWith hr _ ((hflushed _).tidy ht))

theorem changes_idleTimeout (hr : r.Orderly) (ht : s.Tidy) : Changes s (s.idleTimeout r) := by
  unfold idleTimeout
  split
  · exact .refl
  · have hfarewell : ∀ message code, Changes s ((s.note .warn message).closeCodec code) := fun message code =>
      (Changes.note s .warn message "Session").trans (.of_same rfl rfl rfl rfl (fun h => h) (.cons trivial .refl))
    have hflushed := fun message code =>
      (hfarewell message code).trans (changes_flush hr ((hfarewell message code).tidy ht))
    exact (hflushed _ _).trans (changes_loseWith hr _ ((hflushed _ _).tidy ht))

theorem changes_perform (hr : r.Orderly) (op : Operation τ ω) (ht : s.Tidy) : Changes s (s.perform r op) := by
  cases op with
  | submit request => exact changes_submit hr request ht
  | observe ticket observer => exact changes_observe hr ticket observer ht
  | established transport => exact changes_established hr transport ht
  | handshakeCompleted => exact changes_handshakeCompleted hr ht
  | bytesReceived data => exact changes_bytesReceived hr data ht
  | idleTimeout => exact changes_idleTimeout hr ht
  | checkIdle =>
    unfold perform checkIdle
    dsimp only
    split
    · exact .refl
    · exact changes_idleTimeout hr ht
  | transportLost cause => exact changes_transportLost hr cause ht
  | discard => exact changes_discard hr ht

/-! Activities. -/

inductive Demand (τ ω : Type) where
  | operation (op : Operation τ ω)
  | streamClosed (id : UInt32)

def meet (r : Reaction κ τ ω σ) (d : Demand τ ω) (s : Session κ τ ω σ) : Session κ τ ω σ :=
  match d with
  | .operation op => s.perform r op
  | .streamClosed id => s.streamClosed r id

/-- Demands of some kind, one after the other, and what happens around the connection in between: its loop may stop as
well. What observers ask when they are told at once are demands of the same kind. -/
inductive Activity (may : Demand τ ω → Prop) : Session κ τ ω σ → Session κ τ ω σ → Prop
  | refl (s : Session κ τ ω σ) : Activity may s s
  | meet {s s' : Session κ τ ω σ} (h : Activity may s s') (r : Reaction κ τ ω σ)
      (hr : ∀ o news u, Activity may u (r.run o news u)) (d : Demand τ ω) (hd : may d) :
      Activity may s (s'.meet r d)
  | drift {s s' : Session κ τ ω σ} (h : Activity may s s') (d : Drift κ τ ω σ) : Activity may s (s'.drift d)
  | stop {s s' : Session κ τ ω σ} (h : Activity may s s') : Activity may s { s' with loop := s'.loop.stop }

/-- A run on any loop: anything may be asked. -/
abbrev FreeRun : Session κ τ ω σ → Session κ τ ω σ → Prop := Activity fun _ => True

variable {may : Demand τ ω → Prop}

theorem Activity.trans {u : Session κ τ ω σ} (h : Activity may s u) (h' : Activity may u s') : Activity may s s' := by
  induction h' with
  | refl => exact h
  | meet _ r hr d hd ih _ => exact (ih h).meet r hr d hd
  | drift _ d ih => exact (ih h).drift d
  | stop _ ih => exact (ih h).stop

theorem Activity.performAll {r : Reaction κ τ ω σ} (hr : ∀ o news u, Activity may u (r.run o news u))
    {ops : List (Operation τ ω)} (hops : ∀ op ∈ ops, may (.operation op)) (s : Session κ τ ω σ) :
    Activity may s (s.performAll r ops) := by
  unfold Session.performAll
  induction ops generalizing s with
  | nil => exact .refl s
  | cons op ops ih =>
    obtain ⟨hop, hrest⟩ := List.forall_mem_cons.1 hops
    exact ((Activity.refl s).meet r hr (.operation op) hop).trans (ih hrest _)

theorem changes_meet (hr : r.Orderly) (d : Demand τ ω) (ht : s.Tidy) : Changes s (s.meet r d) := by
  cases d with
  | operation op => exact changes_perform hr op ht
  | streamClosed id => exact changes_streamClosed hr id ht

theorem Activity.changes (h : Activity may s s') (ht : s.Tidy) : Changes s s' := by
  induction h with
  | refl => exact .refl
  | meet _ r _ d _ ih ihr =>
    have hbefore := ih ht
    exact hbefore.trans (changes_meet (fun o news u hu => ihr o news u hu) d (hbefore.tidy ht))
  | drift _ d ih => exact (ih ht).trans (.of_same rfl rfl rfl rfl (fun h => h) .refl)
  | stop _ ih => exact (ih ht).trans (.of_same rfl rfl rfl rfl (fun h => h) .refl)

omit [Codec κ] [Transport τ] in
theorem Created.inPlay (h : Created s) : s.inPlay = [] := by
  obtain ⟨-, hregistry, -, -, hdetached, -⟩ := h.fields
  unfold Session.inPlay
  rw [hregistry, hdetached]
  rfl

omit [Codec κ] [Transport τ] in
theorem Created.tidy (h : Created s) : s.Tidy := by
  obtain ⟨-, hregistry, -⟩ := h.fields
  constructor
  · rw [hregistry]
    exact fun _ he => absurd he List.not_mem_nil
  · rw [h.inPlay]
    exact List.nodup_nil
  · rw [h.inPlay]
    exact List.nodup_nil
  · rw [h.inPlay]
    exact fun _ hx => absurd hx List.not_mem_nil
  · rw [h.inPlay]
    exact fun _ hx => absurd hx List.not_mem_nil

end Session

end Multiplex
