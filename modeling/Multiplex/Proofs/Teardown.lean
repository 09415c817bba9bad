import Multiplex.Proofs.IoSteps
import Multiplex.Proofs.Numbering

/-! The end of a connection. However its transport is lost, every exchange that is left is ended once: the causes go to
those whose request went out, the others hear of none. The notice is given with the same causes, and nothing that
happens afterwards changes any of it. On a stopped loop the loss may come while the observers of an exchange that has
just ended are told: it keeps the outcome that it has, although it is still registered. -/
namespace Multiplex

open Bytes Wire

theorem Entry.IsPlainLine.not_settles {e : Entry} (h : e.IsPlainLine) (ticket : Ticket) : e.settles ticket = false := by
  obtain ⟨l, rfl, -⟩ := h
  rfl

namespace Session

variable {κ τ ω σ : Type} {s s' u v : Session κ τ ω σ} {x : Stream} {ticket : Ticket}

def announcements (s : Session κ τ ω σ) : List (List Fault) := s.history.select Entry.announcement

def notice (s : Session κ τ ω σ) : Option (Option (List Fault)) := s.lossNotice.map (·.value)

structure Final (v s : Session κ τ ω σ) : Prop where
  lost : s.lost = true
  causes : s.causes = v.causes
  cleared : s.registry = {}
  announcements : s.announcements = v.announcements
  notice : s.notice = v.notice

/-- A request counts as sent only if the codec took its head. -/
def Offered (s : Session κ τ ω σ) : Prop :=
  ∀ x ∈ s.inPlay, x.state ≠ .closed → x.requestSent = true → (x.id, 0) ∈ s.openings

def Recorded (s : Session κ τ ω σ) : Prop := ∃ owed, Owes s.values s.history owed

theorem Recorded.extend (h : s.Recorded) (hvalues : s'.values = s.values)
    (hh : s.history.Extends (fun e => ∀ t, e.settles t = false) s'.history) : s'.Recorded := by
  obtain ⟨owed, howes⟩ := h
  exact ⟨owed, hvalues ▸ howes.extend hh⟩

theorem Recorded.given (h : s.Recorded) (hv : s.values[ticket]? = some none) (outcome : Outcome) :
    (s.given ticket outcome).Recorded := by
  obtain ⟨owed, howes⟩ := h
  have hperm := List.perm_cons_erase ((howes.unresolved ticket).2 hv)
  refine ⟨owed.erase ticket, ?_⟩
  rw [values_given]
  exact (howes.perm hperm).settle outcome

theorem Recorded.once (h : s.Recorded) {outcome : Outcome} (hv : s.values[ticket]? = some (some outcome)) :
    s.history.countP (Entry.settles ticket) = 1 := by
  obtain ⟨owed, howes⟩ := h
  refine Nat.le_antisymm (howes.once ticket) (List.countP_pos_iff.2 ⟨_, (howes.resolved ticket outcome).2 hv, ?_⟩)
  exact beq_self_eq_true ticket

variable [Codec κ] [Transport τ] {w : Surroundings κ τ ω σ} {left : Stream → Prop} {act : Metadata → Turn κ → Turn κ}
  {r : Reaction κ τ ω σ}

/-! Which exchanges have sent the heads of their requests. -/

theorem Takes.offered (h : Takes s x u act) (hi : s.Intact) (ho : s.Offered) :
    (u.turned (act u.metadata (u.turnOf x))).Offered := by
  obtain ⟨hplay, -, htidy, -⟩ := h.before hi
  have hcontinues := h.prompt.continues
  have hgrow : ∀ head ∈ s.openings, head ∈ (u.turned (act u.metadata (u.turnOf x))).openings := by
    intro head hhead
    rcases h.numbers hi with hcalm | ⟨e, heads, hstarts⟩
    · exact hcalm.openings ▸ hhead
    · exact hstarts.openings ▸ List.mem_append_left _ hhead
  have hgoes : ∀ {m d t}, Turn.Steps m d (u.turnOf x) t → x.state ≠ .closed → t.stream.state ≠ .closed →
      t.stream.requestSent = x.requestSent := by
    intro m d t hsteps hopen hgoes
    obtain ⟨admitted, hfit⟩ := (hi.fits h.mem).resolve_left hopen
    have hsound := hsteps.sound (Turn.sound_of_fits rfl hfit)
    unfold Turn.Sound at hsound
    split at hsound
    · rw [hsound.1, hfit.1]
    · exact absurd hsound.1 hgoes
  intro y hy hy' hsent
  rcases (mem_inPlay_turned htidy (h.mem_before hi) hcontinues.ticket).1 hy with rfl | ⟨hy, -⟩
  · have hopen : x.state ≠ .closed := fun hs => hy' ((h.idles hs).stream ▸ hs)
    rw [hcontinues.id]
    cases h with
    | @start e rest hcan hp he =>
      obtain ⟨heads, hstarts, htaken⟩ := starts_turned hi hp he
      have hends := htaken hopen (Option.eq_none_iff_forall_ne_some.2 fun ending hending =>
        hy' ((Takes.start hcan hp he).closed_of_some hending))
      have hmem :=
        hstarts.openings ▸ List.mem_append_right s.openings (hends ▸ List.mem_singleton_self (e.id, (0 : Int32)))
      rw [← hi.ids e he] at hmem
      exact hmem
    | head fields _ hx =>
      exact hgrow _ (ho x (List.mem_append_left _ hx) hopen
        (hgoes (Turn.steps_receiveHeaders _ fields) hopen hy' ▸ hsent))
    | data bytes length _ hx =>
      exact hgrow _ (ho x (List.mem_append_left _ hx) hopen
        (hgoes (Turn.steps_receiveData _ bytes length) hopen hy' ▸ hsent))
    | window hx => exact hgrow _ (ho x hx hopen (hgoes (Turn.steps_receiveWindowUpdate _) hopen hy' ▸ hsent))
  · exact hgrow _ (ho y (hplay ▸ hy) hy' hsent)

theorem Transition.offered (h : Transition w s s') (hi : s.Intact) (ho : s.Offered) : s'.Offered := by
  have hgrow : ∀ head ∈ s.openings, head ∈ s'.openings := by
    intro head hhead
    rcases h.numbers hi with hcalm | ⟨e, heads, hstarts⟩ | hqueues
    · exact hcalm.openings ▸ hhead
    · exact hstarts.openings ▸ List.mem_append_left _ hhead
    · exact hqueues.openings ▸ hhead
  intro y hy hopen hsent
  rcases h.inPlay_cases with hfewer | ⟨request, -, rfl⟩ | ⟨x, u, act, htakes, hplay, hhistory⟩
  · exact hgrow _ (ho y (hfewer y hy) hopen hsent)
  · rcases List.mem_cons.1 ((inPlay_queued request s).mem_iff.1 hy) with rfl | hy
    · exact Bool.noConfusion hsent
    · exact hgrow _ (ho y hy hopen hsent)
  · have hmem := htakes.offered hi ho y (hplay ▸ hy) hopen hsent
    obtain ⟨entry, hentry, hshown⟩ := History.mem_select.1 hmem
    exact History.mem_select.2 ⟨entry, hhistory.subset hentry, hshown⟩

theorem Transitions.offered (h : Transitions w s s') (hi : s.Intact) (ho : s.Offered) : s'.Offered := by
  induction h with
  | refl => exact ho
  | tail hbefore hlast ih => exact hlast.offered (Transitions.intact hbefore hi) ih

theorem Transition.recorded (h : Transition w s s') (hr : s.Recorded) : s'.Recorded := by
  have hlines : ∀ {h h' : History}, h.Extends Entry.IsPlainLine h' →
      h.Extends (fun e => ∀ t, e.settles t = false) h' := fun hh => hh.imp fun _ => Entry.IsPlainLine.not_settles
  have hturn : ∀ {x u act}, Takes s x u act → (u.turned (act u.metadata (u.turnOf x))).Recorded := by
    intro x u act h
    have hbefore : u.Recorded := by
      cases h with
      | start => exact hr.extend rfl (.cons (fun _ => rfl) (.cons (fun _ => rfl) .refl))
      | head | data => exact hr.extend rfl (.cons (fun _ => rfl) .refl)
      | window => exact hr
    exact hbefore.extend rfl (h.prompt.continues.history.imp fun _ => Entry.OfTurn.not_settles)
  cases h with
  | close h _ hv =>
    refine (hturn h).given ?_ _
    rw [h.before_eq]
    exact hv
  | lose | clear | gate => exact hr.extend rfl .refl
  | atomic h =>
    cases h with
    | turn h => exact hturn h
    | lines hh => exact hr.extend rfl (hlines hh)
    | observe observers hc => exact hr.extend (values_observe observers hc) .refl
    | queue request =>
      obtain ⟨owed, howes⟩ := hr
      exact ⟨_, show Owes (s.queued request).values s.history _ from (show (s.queued request).values = s.values ++ [none]
        from List.map_append) ▸ howes.issue⟩
    | @refuse request cause history hd hrefusal hh =>
      obtain ⟨owed, howes⟩ := hr
      have hvalues : ({ s.issueTicket.2 with history } : Session κ τ ω σ).values = s.values ++ [none] := List.map_append
      have hissued : ({ s.issueTicket.2 with history } : Session κ τ ω σ).Recorded :=
        ⟨_, hvalues ▸ howes.issue.extend (hlines hh)⟩
      refine hissued.given ?_ _
      rw [hvalues, ← length_values]
      exact List.getElem?_concat_length
    | @conclude e body reason causes history hs he hopen hv hb hh =>
      have hdispatched : s.history.Extends (fun e => ∀ t, e.settles t = false) history :=
        (History.Extends.cons (fun _ => rfl) .refl).trans (hlines hh)
      have hleft : ({ s with registry := (s.registry.remove e.id).2, history } : Session κ τ ω σ).Recorded :=
        hr.extend rfl hdispatched
      exact hleft.given hv _
    | @dismiss x history _ _ _ _ hv hh =>
      have hnoted : ({ s with history } : Session κ τ ω σ).Recorded := hr.extend rfl (hlines hh)
      exact hnoted.given hv _
    | stray _ _ _ _ _ hh =>
      have hdispatched := (History.Extends.cons (fun _ => rfl) .refl).trans (hlines hh)
      exact hr.extend rfl (.cons (fun _ => rfl) hdispatched)
    | notify | hold | drift | stop | leave | report | drop | acknowledged | certified | drain | blame =>
      exact hr.extend rfl .refl
    | inline | twice | pass | receive | write | farewell | ask | announce =>
      exact hr.extend rfl (.cons (fun _ => rfl) .refl)
    | establish => exact hr.extend rfl (.cons (fun _ => rfl) (.cons (fun _ => rfl) .refl))

theorem Transitions.recorded (h : Transitions w s s') (hr : s.Recorded) : s'.Recorded := by
  induction h with
  | refl => exact hr
  | tail _ hlast ih => exact hlast.recorded ih

/-! What becomes of the notice. -/

theorem Transition.notice (h : Transition w s s') :
    s'.notice = s.notice ∧ s'.announcements = s.announcements ∨
      s.lost = true ∧ s.notice = some none ∧ s'.notice = some (some s.causes) ∧
        s'.announcements = s.announcements ++ [s.causes] := by
  have hsilent : ∀ {h h' : History}, h.Extends Entry.IsPlainLine h' →
      h'.select Entry.announcement = h.select Entry.announcement := fun hh => hh.select_eq fun e he => by
    obtain ⟨l, rfl, -⟩ := he
    rfl
  have hentered : ∀ {h : History} (e : Entry), e.announcement = none →
      History.select Entry.announcement (e :: h) = h.select Entry.announcement := fun e he => by
    rw [History.select_cons, he]
    exact List.append_nil _
  have hturn : ∀ {x u act}, Takes s x u act → (u.turned (act u.metadata (u.turnOf x))).notice = s.notice ∧
      (u.turned (act u.metadata (u.turnOf x))).announcements = s.announcements := by
    intro x u act h
    have hbefore : u.announcements = s.announcements := by
      cases h with
      | start => exact (hentered _ rfl).trans (hentered _ rfl)
      | head | data => exact hentered _ rfl
      | window => rfl
    refine ⟨?_, (h.prompt.continues.history.select_eq fun e he => ?_).trans hbefore⟩
    · rw [h.before_eq]
      rfl
    · cases e with
      | lossAnnounced => exact he.elim
      | _ => rfl
  cases h with
  | close h => exact Or.inl ⟨(hturn h).1, (hentered _ rfl).trans (hturn h).2⟩
  | lose | clear | gate => exact Or.inl ⟨rfl, rfl⟩
  | atomic h =>
    cases h with
    | turn h => exact Or.inl (hturn h)
    | @announce c hl hc hf =>
      refine Or.inr ⟨hl, ?_, rfl, History.select_cons _ _ _⟩
      have hvalue : c.value = none := Option.not_isSome_iff_eq_none.1 (Bool.eq_false_iff.1 hf)
      rw [Session.notice, hc, Option.map_some, hvalue]
    | drift d => exact Or.inl ⟨Option.map_map _ _ _, rfl⟩
    | lines hh => exact Or.inl ⟨rfl, hsilent hh⟩
    | refuse _ _ _ hh | dismiss _ _ _ _ _ hh => exact Or.inl ⟨rfl, (hentered _ rfl).trans (hsilent hh)⟩
    | conclude _ _ _ _ _ hh | stray _ _ _ _ _ hh =>
      exact Or.inl ⟨rfl, (hentered _ rfl).trans ((hsilent hh).trans (hentered _ rfl))⟩
    | notify | observe | hold | stop | queue | leave | report | drop | acknowledged | certified | drain | blame =>
      exact Or.inl ⟨rfl, rfl⟩
    | inline | twice | pass | receive | write | farewell | ask => exact Or.inl ⟨rfl, hentered _ rfl⟩
    | establish => exact Or.inl ⟨rfl, (hentered _ rfl).trans (hentered _ rfl)⟩

theorem Transitions.awaits (h : Transitions w s s') (hl : s'.lost = false) :
    s'.notice = s.notice ∧ s'.announcements = s.announcements := by
  induction h with
  | refl => exact ⟨rfl, rfl⟩
  | @tail u u' hbefore hlast ih =>
    have hopen : u.lost = false := Bool.not_eq_true _ ▸ fun hlost => Bool.noConfusion (hl.symm.trans (hlast.lost hlost))
    rcases hlast.notice with ⟨hnotice, hsilent⟩ | ⟨hlost, -⟩
    · exact ⟨hnotice.trans (ih hopen).1, hsilent.trans (ih hopen).2⟩
    · exact Bool.noConfusion (hopen.symm.trans hlost)

/-- From the loss on the notice is given at most once, and with the causes as they are. -/
theorem Transitions.notice (h : Transitions w s s') (hl : s.lost = true) :
    s'.notice = s.notice ∧ s'.announcements = s.announcements ∨
      s.notice = some none ∧ s'.notice = some (some s.causes) ∧ s'.announcements = s.announcements ++ [s.causes] := by
  induction h with
  | refl => exact Or.inl ⟨rfl, rfl⟩
  | @tail u u' hbefore hlast ih =>
    obtain ⟨-, hcauses⟩ := Transitions.settled hbefore hl
    rcases ih with ⟨hnotice, hsilent⟩ | ⟨hasked, hgiven, hannounced⟩
    · rcases hlast.notice with ⟨hnotice', hsilent'⟩ | ⟨-, hasked, hgiven, hannounced⟩
      · exact Or.inl ⟨hnotice'.trans hnotice, hsilent'.trans hsilent⟩
      · rw [hcauses] at hgiven hannounced
        exact Or.inr ⟨hnotice.symm.trans hasked, hgiven, hannounced.trans (congrArg (· ++ [s.causes]) hsilent)⟩
    · rcases hlast.notice with ⟨hnotice', hsilent'⟩ | ⟨-, hopen, -⟩
      · exact Or.inr ⟨hasked, hnotice'.trans hgiven, hsilent'.trans hannounced⟩
      -- The notice was given before, so it is not waited for any more.
      · exact absurd (Option.some.inj (hgiven.symm.trans hopen)) (Option.some_ne_none _)

/-! What the loss does. -/

theorem Takes.of_lost (h : Takes s x u act) (hl : s.lost = true) : u = s ∧ x ∈ s.detached := by
  cases h with
  | start hcan => simp [canAdmit, isReady, hl] at hcan
  | head _ hs | data _ _ hs => exact Bool.noConfusion (hl.symm.trans hs.1)
  | window _ hx => exact ⟨rfl, hx hl⟩

theorem Takes.stays (h : Takes s x u act) (hi : s.Intact) (hl : s.lost = true) {e : Registry.Entry Stream}
    (he : e ∈ s.registry.entries) : e ∈ (u.turned (act u.metadata (u.turnOf x))).registry.entries ∧ e.id ≠ x.id := by
  obtain ⟨rfl, hx⟩ := h.of_lost hl
  have hne : e.item.ticket ≠ x.ticket := by
    intro ht
    have hdisjoint := (List.nodup_append.1 (List.map_append ▸ hi.tickets)).2.2
    exact hdisjoint _ (List.mem_map_of_mem (List.mem_map_of_mem he)) _ (List.mem_map_of_mem hx) ht
  constructor
  · refine List.mem_map.2 ⟨e, he, if_neg fun hsame => hne ?_⟩
    exact (beq_iff_eq.1 hsame).trans h.prompt.continues.ticket
  · intro hid
    refine hne (congrArg Stream.ticket (hi.eq_of_id (mem_inPlay_of_entry he) h.mem ?_))
    rw [hi.ids e he, hid]

/-- While the loss is announced, who is registered and has not ended stays, unless an observer reports him closed. -/
theorem Execution.stays (h : Execution w left s s') (hi : s.Intact) (hl : s.lost = true) {e : Registry.Entry Stream}
    (he : e ∈ s.registry.entries) (hopen : e.item.state ≠ .closed) :
    e ∈ s'.registry.entries ∨ w.may (.streamClosed e.item.id) := by
  induction h with
  | refl => exact Or.inl he
  | @atomic left s s' h =>
    cases h with
    | queue _ _ htaken => exact Bool.noConfusion (hl.symm.trans (refusal_eq_none_iff.1 htaken).1)
    | conclude hs => exact Bool.noConfusion (hl.symm.trans hs.1)
    | turn h => exact Or.inl (h.stays hi hl he).1
    | leave id hclosed =>
      exact Or.inl (Registry.mem_remove_of_ne he fun hid => hopen (hclosed e he hid))
    | @report x registry hd hx _ =>
      by_cases hid : e.id = x.id
      · rw [hi.ids e he, hid]
        exact Or.inr hd
      · have hstays := Registry.mem_remove_of_ne he hid
        rw [hx] at hstays
        exact Or.inl hstays
    | _ => exact Or.inl he
  | trans h _ ih ih' =>
    rcases ih hi hl he with he | hd
    · exact ih' (h.intact hi) ((h.transitions hi).lost hl) he
    · exact Or.inr hd
  | pass _ _ ih => exact ih (hi.of_same rfl rfl rfl rfl) hl he
  | @ended left s u v x act ending h hopen' hv hending _ _ ih =>
    -- Only those off the register still take turns, so it is another exchange that leaves.
    obtain ⟨hstays, hne⟩ := h.stays hi hl he
    have hgiven : ((u.turned (act u.metadata (u.turnOf x))).given x.ticket ending.outcome).lost = true := by
      rw [h.before_eq]
      exact hl
    exact (ih (h.intact_given hi hending) hgiven hstays).imp_left fun he => Registry.mem_remove_of_ne he hne
  | lost _ _ hopen => exact Bool.noConfusion (hl.symm.trans hopen)

/-- On the way to a state in which the connection is lost there is the point at which it is lost. -/
theorem Execution.loss (h : Execution w left s s') (hi : s.Intact) (hl : s.lost = false) (hl' : s'.lost = true) :
    ∃ u transport cause m v, Transitions w s u ∧ u.lost = false ∧ (transport = u.transport ∨ transport = none) ∧
      LossHandled w left (u.lossNoted transport cause) m v ∧ Transitions w v s' := by
  induction h with
  | refl => exact Bool.noConfusion (hl.symm.trans hl')
  | atomic h => exact Bool.noConfusion (hl.symm.trans (h.lost.symm.trans hl'))
  | @trans left s u s' h h' ih ih' =>
    have hfirst := h.transitions hi
    -- The point of loss lies in the first part or in the second one.
    cases hu : u.lost with
    | true =>
      obtain ⟨v, transport, cause, m, v', hv, hopen, ht, hlost, hrest⟩ := ih hi hl hu
      exact ⟨v, transport, cause, m, v', hv, hopen, ht, hlost, hrest.trans (h'.transitions (h.intact hi))⟩
    | false =>
      obtain ⟨v, transport, cause, m, v', hv, hopen, ht, hlost, hrest⟩ := ih' (h.intact hi) hu hl'
      exact ⟨v, transport, cause, m, v', hfirst.trans hv, hopen, ht, hlost, hrest⟩
  | @pass left s u _ _ ih =>
    obtain ⟨v, transport, cause, m, v', hv, hopen, ht, hlost, hrest⟩ := ih (hi.of_same rfl rfl rfl rfl) hl hl'
    exact ⟨v, transport, cause, m, v', hv.head (.gate s true), hopen, ht, hlost, hrest.tail (.gate u false)⟩
  | @ended left s u v x act ending h hopen hv hending htold _ ih =>
    have hgiven := h.intact_given hi hending
    have hclose : Transitions w s ((u.turned (act u.metadata (u.turnOf x))).given x.ticket ending.outcome) :=
      .single (.close h hopen hv hending)
    have hopen' : ((u.turned (act u.metadata (u.turnOf x))).given x.ticket ending.outcome).lost = false := by
      rw [h.before_eq]
      exact hl
    obtain ⟨v', transport, cause, m, v'', hv', hopen, ht, hlost, hrest⟩ := ih hgiven hopen' hl'
    exact ⟨v', transport, cause, m, v'', hclose.trans hv', hopen, ht, hlost,
      hrest.tail (h.leave hi hending (htold.transitions hgiven))⟩
  | lost transport cause _ ht htold hnotice hlive hdismissed hall =>
    exact ⟨_, transport, cause, _, _, .refl, hl, ht, ⟨htold, hnotice, hlive, hdismissed, hall⟩, .refl⟩

omit [Codec κ] [Transport τ] in
theorem Told.notice (h : s.Told) : s.notice ≠ some none := by
  intro hopen
  obtain ⟨c, hc, hvalue⟩ := Option.map_eq_some_iff.1 hopen
  have hfulfilled := h c hc
  rw [Completion.isFulfilled, hvalue] at hfulfilled
  exact Bool.noConfusion hfulfilled

/-- The connection is lost with some causes. Every exchange that was left without an outcome gets one: if its head was
taken by the codec it gets the causes, if it still waited it is told that it never started. The notice, if somebody
asked for it and nobody else gave it, is given with the same causes. From then on all this stays as it is. -/
structure TornDown (may : Demand τ ω → Prop) (faults : List Fault) (u v : Session κ τ ω σ) : Prop where
  lost : v.lost = true
  causes : v.causes = faults
  cleared : v.registry = {}
  running : (∀ x ∈ u.registry.snapshot, x.state ≠ .closed) →
    u.registry.snapshot.countP (fun x => x.requestSent) = u.registry.active
  waiting : (∀ x ∈ u.registry.snapshot, x.state ≠ .closed) →
    u.registry.snapshot.countP (fun x => !x.requestSent) = u.registry.pendingCount
  sent : ∀ x ∈ u.registry.snapshot, x.state ≠ .closed → (x.requestSent = true ↔ (x.id, 0) ∈ u.openings)
  distinct : (u.registry.snapshot.map (·.ticket)).Nodup
  settled : ∀ x ∈ u.registry.snapshot, x.state ≠ .closed → u.peek x.ticket = none ∧
    (v.peek x.ticket = some (x.lossOutcome u.metadata faults) ∨ u.loop.stopped = true ∧ may (.streamClosed x.id))
  others : ∀ ticket outcome, u.peek ticket = some outcome → v.peek ticket = some outcome
  announced : u.notice = some none → v.announcements = u.announcements ++ [faults] ∧ v.notice = some (some faults)
  unasked : u.notice ≠ some none → v.announcements = u.announcements ∧ v.notice = u.notice
  final : ∀ s, FreeRun v s ∨ Transitions .any v s → Final v s ∧ ∀ ticket outcome, v.peek ticket = some outcome →
    s.peek ticket = some outcome ∧ s.history.countP (Entry.settles ticket) = 1

structure Sound (s : Session κ τ ω σ) : Prop where
  intact : s.Intact
  numbered : s.Numbered
  offered : s.Offered
  recorded : s.Recorded

theorem Transitions.sound (h : Transitions w s s') (hs : s.Sound) : s'.Sound :=
  ⟨h.intact hs.intact, h.numbered hs.intact hs.numbered, h.offered hs.intact hs.offered, h.recorded hs.recorded⟩

namespace Sound

omit [Codec κ] [Transport τ] in
theorem running (hs : s.Sound) (hopen : ∀ x ∈ s.registry.snapshot, x.state ≠ .closed) :
    s.registry.snapshot.countP (fun x => x.requestSent) = s.registry.active := by
  rw [hs.intact.ordered.coherent.counted, Registry.snapshot, List.countP_map]
  refine List.countP_congr fun e he => ?_
  rw [Function.comp_apply, ((hs.intact.placed e he).resolve_left (hopen _ (List.mem_map_of_mem he))).1]

omit [Codec κ] [Transport τ] in
theorem waiting (hs : s.Sound) (hopen : ∀ x ∈ s.registry.snapshot, x.state ≠ .closed) :
    s.registry.snapshot.countP (fun x => !x.requestSent) = s.registry.pendingCount := by
  have hsplit := List.length_eq_countP_add_countP (fun x : Stream => x.requestSent) (l := s.registry.snapshot)
  have hsize : s.registry.snapshot.length = s.registry.active + s.registry.pendingCount :=
    (List.length_map _).trans hs.intact.ordered.coherent.size_eq
  rw [hsize, hs.running hopen] at hsplit
  simpa using (Nat.add_left_cancel hsplit).symm

omit [Codec κ] [Transport τ] in
/-- The head of a request was sent if the codec took it, and one that still waits was never offered. -/
theorem sent_iff (hs : s.Sound) (hx : x ∈ s.registry.snapshot) (hopen : x.state ≠ .closed) :
    x.requestSent = true ↔ (x.id, 0) ∈ s.openings := by
  refine ⟨hs.offered x (List.mem_append_left _ hx) hopen, fun hoffered => Bool.not_eq_false _ ▸ fun hwaits => ?_⟩
  obtain ⟨e, he, rfl⟩ := List.mem_map.1 hx
  have hkey : e.key ∈ s.registry.keys := Registry.key_mem he
  have hpending : e.key.admitted = false := ((hs.intact.placed e he).resolve_left hopen).1.symm.trans hwaits
  have hid : e.id ∈ s.opened := List.mem_map.2 ⟨_, hoffered, hs.intact.ids e he⟩
  exact UInt32.lt_irrefl _ (hs.numbered.waitingIds _ hkey hpending _ hid)

theorem tornDown (hs : s.Sound) {transport : Option τ} {cause : Option Fault} (hl : s.lost = false)
    (ht : transport = s.transport ∨ transport = none) (h : LossHandled w nobody (s.lossNoted transport cause) u v) :
    TornDown w.may (s.causes ++ cause.toList) s v := by
  have hi : (s.lossNoted transport cause).Intact := hs.intact.of_same rfl rfl rfl rfl
  have htold := h.told.transitions hi
  have hgone : u.lost = true := htold.lost rfl
  have hdismissed := h.dismissed.transitions (htold.intact hi).cleared
  have hv := (htold.tail (.clear hgone)).trans hdismissed
  have hall : Transitions w s v := (Relation.ReflTransGen.single (.lose transport cause hl ht)).trans hv
  obtain ⟨hmetadata, hcauses⟩ := htold.settled rfl
  obtain ⟨-, hcauses'⟩ := hdismissed.settled hgone
  have hlost : v.lost = true := Transitions.lost hdismissed hgone
  have hcleared : v.registry = {} := Transitions.vacant hdismissed hgone rfl
  have hanswered : v.Told := Transitions.told hdismissed h.notice
  constructor
  case lost => exact hlost
  case causes => exact hcauses'.trans hcauses
  case cleared => exact hcleared
  case running => exact hs.running
  case waiting => exact hs.waiting
  case sent => exact fun x hx hopen => hs.sent_iff hx hopen
  case distinct => exact (List.nodup_append.1 (List.map_append ▸ hs.intact.tickets)).1
  case settled =>
    intro x hx hopen
    have hunanswered := hs.intact.unanswered (List.mem_append_left _ hx) hopen
    refine ⟨?_, ?_⟩
    · refine (peek_eq_none_iff ?_).2 hunanswered
      exact hs.intact.issued x (List.mem_append_left _ hx)
    · obtain ⟨e, he, rfl⟩ := List.mem_map.1 hx
      have hgets : e ∈ u.registry.entries → v.peek e.item.ticket = some (e.item.lossOutcome s.metadata (s.causes ++
          cause.toList)) := by
        intro he'
        rw [peek_eq_some_iff, h.all e.item (List.mem_map_of_mem he') hopen, hmetadata, hcauses]
        rfl
      cases hstopped : s.loop.stopped with
      | false => exact Or.inl (hgets (h.live hstopped ▸ he))
      | true => exact (h.told.stays hi rfl (e := e) he hopen).imp hgets fun hd => ⟨rfl, hd⟩
  case others =>
    intro ticket outcome hpeek
    exact peek_eq_some_iff.2 (hall.answered (peek_eq_some_iff.1 hpeek))
  case announced =>
    intro hasked
    rcases Transitions.notice htold rfl with ⟨hnotice, -⟩ | ⟨-, hgiven, hannounced⟩
    · exact absurd (hnotice.trans hasked) h.notice.notice
    · rcases Transitions.notice hdismissed hgone with ⟨hnotice', hsilent⟩ | ⟨hopen, -⟩
      · exact ⟨hsilent.trans hannounced, hnotice'.trans hgiven⟩
      · exact absurd hopen h.notice.notice
  case unasked =>
    intro hnot
    rcases Transitions.notice hv rfl with hsame | ⟨hasked, -⟩
    · exact ⟨hsame.2, hsame.1⟩
    · exact absurd hasked hnot
  case final =>
    intro s' h'
    have hsteps : Transitions .any v s' :=
      h'.elim (fun hrun => hrun.transitions (hall.intact hs.intact)) id
    obtain ⟨hnotice, hsilent⟩ := (hsteps.notice hlost).resolve_right fun hasked => hanswered.notice hasked.1
    refine ⟨⟨hsteps.lost hlost, (hsteps.settled hlost).2, hsteps.vacant hlost hcleared, hsilent, hnotice⟩,
      fun ticket outcome hpeek => ?_⟩
    have hkept := hsteps.answered (peek_eq_some_iff.1 hpeek)
    exact ⟨peek_eq_some_iff.2 hkept, (hsteps.recorded (hall.recorded hs.recorded)).once hkept⟩

theorem transportLost (hs : s.Sound) (hl : s.lost = false) (h : s.Conforms w r) (cause : Option Fault) :
    TornDown w.may (s.causes ++ cause.toList) s (s.transportLost r cause) := by
  obtain ⟨_, hlost⟩ := lossHandled_transportLost h hl cause
  exact hs.tornDown hl (Or.inl rfl) hlost

theorem discard (hs : s.Sound) (hl : s.lost = false) (h : s.Conforms w r) :
    TornDown w.may s.causes s (s.discard r) := by
  obtain ⟨_, hlost⟩ := lossHandled_discard h hl
  exact List.append_nil s.causes ▸ hs.tornDown hl (Or.inr rfl) hlost

end Sound

/-- What the loss does depends only on the register, the requests and the notice. -/
structure Alike (u v : Session κ τ ω σ) : Prop where
  loop : v.loop = u.loop
  registry : v.registry = u.registry
  metadata : v.metadata = u.metadata
  completions : v.completions = u.completions
  notice : v.notice = u.notice
  openings : v.openings = u.openings
  announcements : v.announcements = u.announcements

theorem TornDown.of_alike {may : Demand τ ω → Prop} {faults : List Fault} {u' : Session κ τ ω σ}
    (h : TornDown may faults u' v) (ha : Alike u u') : TornDown may faults u v where
  lost := h.lost
  causes := h.causes
  cleared := h.cleared
  running := ha.registry ▸ h.running
  waiting := ha.registry ▸ h.waiting
  sent := ha.registry ▸ ha.openings ▸ h.sent
  distinct := ha.registry ▸ h.distinct
  settled := by
    intro x hx hopen
    have hsettled := h.settled x (ha.registry ▸ hx) hopen
    rw [ha.metadata, ha.loop, peek, ha.completions] at hsettled
    exact hsettled
  others := by
    intro ticket outcome hpeek
    refine h.others ticket outcome ?_
    rw [peek, ha.completions]
    exact hpeek
  announced := ha.notice ▸ ha.announcements ▸ h.announced
  unasked := ha.notice ▸ ha.announcements ▸ h.unasked
  final := h.final

/-- A connection gives up because of a fault. If it has done so before, the fault only joins the causes; otherwise it
asks its transport to close, and is lost at once if there is none or if the transport says so at once. -/
structure GivesUp (may : Demand τ ω → Prop) (r : Reaction κ τ ω σ) (fault : Fault) (u : Session κ τ ω σ) : Prop where
  again : u.closing = true → u.loseWith r fault = { u with causes := u.causes ++ [fault] }
  absent : u.closing = false → u.transport = none → TornDown may (u.causes ++ [fault]) u (u.loseWith r fault)
  clean : ∀ t, u.closing = false → u.transport = some t → (Transport.lose t).1 = .clean →
    TornDown may (u.causes ++ [fault]) u (u.loseWith r fault)
  failed : ∀ t cause, u.closing = false → u.transport = some t → (Transport.lose t).1 = .failed cause →
    TornDown may (u.causes ++ [fault, cause]) u (u.loseWith r fault)
  later : ∀ t, u.closing = false → u.transport = some t → (Transport.lose t).1 = .later →
    (u.loseWith r fault).lost = false ∧ (u.loseWith r fault).causes = u.causes ++ [fault] ∧
      (u.loseWith r fault).registry = u.registry

theorem Sound.givesUp (hs : s.Sound) (hl : s.lost = false) (h : s.Conforms w r) (fault : Fault) :
    s.GivesUp w.may r fault := by
  have hlost : ∀ t, s.closing = false → s.transport = some t → ∀ cause : Option Fault,
      TornDown w.may (s.causes ++ [fault] ++ cause.toList) s ((s.asked fault t).transportLost r cause) := by
    intro t hclosing ht cause
    have hasked : Execution w nobody s (s.asked fault t) := .atomic (.ask fault ⟨hl, hclosing⟩ ht)
    have hsound := Transitions.sound (hasked.transitions hs.intact) hs
    exact (hsound.transportLost hl (h.later hasked) cause).of_alike
      ⟨rfl, rfl, rfl, rfl, rfl, (History.select_cons _ _ _).trans (List.append_nil _),
        (History.select_cons _ _ _).trans (List.append_nil _)⟩
  constructor
  case again => exact fun hclosing => loseWith_again hl hclosing r fault
  case absent =>
    intro hclosing ht
    obtain ⟨_, hlost⟩ := lossHandled_loseWith h hl hclosing ht fault
    exact hs.tornDown hl (Or.inl rfl) hlost
  case clean =>
    intro t hclosing ht hreport
    have hdown := hlost t hclosing ht none
    rw [Option.toList_none, List.append_nil] at hdown
    rw [loseWith_asked hl hclosing ht, hreport]
    exact hdown
  case failed =>
    intro t cause hclosing ht hreport
    have hdown := hlost t hclosing ht (some cause)
    rw [Option.toList_some, List.append_assoc] at hdown
    rw [loseWith_asked hl hclosing ht, hreport]
    exact hdown
  case later =>
    intro t hclosing ht hreport
    rw [loseWith_asked hl hclosing ht, hreport]
    exact ⟨hl, rfl, rfl⟩

omit [Codec κ] [Transport τ] in
theorem Created.sound (h : Created s) : s.Sound := by
  obtain ⟨-, hregistry, hcompletions, hhistory, -⟩ := h.fields
  refine ⟨h.intact, h.numbered, ?_, [], ?_⟩
  · intro x hx
    rw [h.inPlay] at hx
    exact absurd hx List.not_mem_nil
  · rw [hhistory, values, hcompletions]
    exact Owes.nothing

variable {s₀ : Session κ τ ω σ}

/-- However a connection is lost, at one point it is torn down: by its transport, with a cause or without, by its owner
who drops it, or because it gives up itself. Between two operations nobody registered has ended. -/
theorem run_teardown (h₀ : Created s₀) (h : FreeRun s₀ s) :
    (∀ x ∈ s.registry.snapshot, x.state ≠ .closed) ∧
    (∀ (may : Demand τ ω → Prop) (r : Reaction κ τ ω σ) (d : Demand τ ω), may d →
      (∀ o news u, Activity may u (r.run o news u)) → s.lost = false → (s.meet r d).lost = true →
      ∃ u v cause, Transitions .any s u ∧ u.lost = false ∧ TornDown may (u.causes ++ Option.toList cause) u v ∧
        Transitions .any v (s.meet r d)) ∧
    ∀ u, Transitions .any s u → u.lost = false → u.notice = s₀.notice ∧ u.announcements = [] ∧
      ∀ (may : Demand τ ω → Prop) (r : Reaction κ τ ω σ), (∀ o news v, Activity may v (r.run o news v)) →
        (∀ cause, TornDown may (u.causes ++ cause.toList) u (u.transportLost r cause)) ∧
        TornDown may u.causes u (u.discard r) ∧ ∀ fault, u.GivesUp may r fault := by
  have hrun := h.transitions h₀.intact
  have hs := Transitions.sound hrun h₀.sound
  refine ⟨fun x hx => ?_, ?_, ?_⟩
  · obtain ⟨e, he, rfl⟩ := List.mem_map.1 hx
    exact run_open h₀ h he
  · intro may r d hd hr hl hlost
    obtain ⟨u, transport, cause, m, v, hu, hopen, ht, hhandled, hv⟩ :=
      (execution_meet (.of_activity hs.intact hr) hd).loss hs.intact hl hlost
    exact ⟨u, v, cause, hu.any, hopen, (Transitions.sound hu hs).tornDown hopen ht hhandled, hv.any⟩
  · intro u hu hl
    have hsu := Transitions.sound hu hs
    obtain ⟨hnotice, hsilent⟩ := Transitions.awaits (hrun.trans hu) hl
    have hstart : s₀.announcements = [] := by
      rw [announcements, h₀.fields.2.2.2.1]
      rfl
    refine ⟨hnotice, hsilent.trans hstart, fun may r hr => ?_⟩
    have hc : u.Conforms (.of may) r := .of_activity hsu.intact hr
    exact ⟨hsu.transportLost hl hc, hsu.discard hl hc, hsu.givesUp hl hc⟩

/-- One exchange runs and one waits, on a loop that has stopped. -/
theorem run_teardown_scripted :
    ∃ (s : Session Scripted.Codec Scripted.Transport Unit Unit)
      (r : Reaction Scripted.Codec Scripted.Transport Unit Unit) (fault cause : Fault),
        s.loop.stopped = true ∧ s.registry.active = 1 ∧ s.registry.pendingCount = 1 ∧ s.notice = some none ∧
        TornDown (fun _ => False) [fault] s (s.transportLost r (some fault)) ∧
        TornDown (fun _ => False) [fault, cause] s (s.loseWith r fault) ∧
        (s.meet r (.operation .idleTimeout)).lost = true ∧
        ∃ u v cause, Transitions .any s u ∧ u.lost = false ∧
          TornDown (· = .operation .idleTimeout) (u.causes ++ Option.toList cause) u v ∧
          Transitions .any v (s.meet r (.operation .idleTimeout)) := by
  let request : Request := { url := ascii "https://example.com/" }
  let fault : Fault := .plain .networkWriteError "broken pipe"
  let cause : Fault := .plain .networkClosed "closed"
  let codec : Scripted.Codec := { localLimit := 1, arrival := .events [{ body := .settingsAcknowledged }] }
  let r : Reaction Scripted.Codec Scripted.Transport Unit Unit := ⟨fun _ _ s => s⟩
  let s₀ : Session Scripted.Codec Scripted.Transport Unit Unit := { fresh codec with lossNotice := some {} }
  have h₀ : Created s₀ := created_noticed codec (some {})
  have hr : ∀ {may : Demand Scripted.Transport Unit → Prop} o news u, Activity may u (r.run o news u) :=
    fun _ _ u => .refl u
  let ops : List (Operation Scripted.Transport Unit) :=
    [.established (some { onLose := .failed cause }), .bytesReceived [], .submit request, .submit request]
  let s := { s₀ with loop := s₀.loop.stop }.performAll r ops
  have hrun : FreeRun s₀ s := (Activity.refl s₀).stop.trans (Activity.performAll hr (fun _ _ => trivial) _)
  have hopen : s.lost = false := by decide
  have hcauses : s.causes = [] := by decide
  have hclosing : s.closing = false := by decide
  have hanswer : s.transport.map (fun t => (Transport.lose t).1) = some (.failed cause) := by decide
  obtain ⟨t, ht, hreport⟩ := Option.map_eq_some_iff.1 hanswer
  obtain ⟨-, hops, hlose⟩ := run_teardown h₀ hrun
  obtain ⟨-, -, hall⟩ := hlose s .refl hopen
  have hlost := (hall (fun _ => False) r hr).1 (some fault)
  have hgiven := ((hall (fun _ => False) r hr).2.2 fault).failed t cause hclosing ht hreport
  rw [hcauses] at hlost hgiven
  have hidle : (s.meet r (.operation .idleTimeout)).lost = true := by decide
  exact ⟨s, r, fault, cause, by decide, by decide, by decide, by decide, hlost, hgiven, hidle,
    hops (· = .operation .idleTimeout) r _ rfl hr hopen hidle⟩

def Drift.counting (u : Session Scripted.Codec Scripted.Transport Unit Nat) :
    Drift Scripted.Codec Scripted.Transport Unit Nat where
  codec := u.codec
  transport := id
  clock := u.clock
  program := u.registry.active
  queue := u.loop.queue
  lossObservers := id

/-- On a stopped loop an observer of an exchange that has just ended still sees it run: when it reports the transport
lost, two run, and only one is told of the loss. And an observer of the loss may report an exchange closed, which then
gets no outcome. -/
theorem teardown_miscounted :
    (∃ (s₀ s : Session Scripted.Codec Scripted.Transport Unit Nat)
      (r : Reaction Scripted.Codec Scripted.Transport Unit Nat), Created s₀ ∧ FreeRun s₀ s ∧ s.lost = false ∧
        (r.run = fun _ _ u => (u.drift (.counting u)).meet ⟨fun _ _ v => v⟩ (.operation (.transportLost none))) ∧
        (s.meet r (.operation (.bytesReceived []))).lost = true ∧
        (s.meet r (.operation (.bytesReceived []))).program = 2 ∧
        (s.meet r (.operation (.bytesReceived []))).completions.map (fun c => c.value.map (·.reason)) =
          [some .maxsizeExceeded, some .connectionLost]) ∧
    ∃ (s₀ s : Session Scripted.Codec Scripted.Transport Unit Nat)
      (r : Reaction Scripted.Codec Scripted.Transport Unit Nat), Created s₀ ∧ FreeRun s₀ s ∧ s.lost = false ∧
        s.registry.active = 1 ∧ (r.run = fun _ _ u => u.meet ⟨fun _ _ v => v⟩ (.streamClosed 1)) ∧
        (s.meet r (.operation (.transportLost none))).lost = true ∧
        (s.meet r (.operation (.transportLost none))).completions.map (·.value) = [none] := by
  let request : Request := { url := ascii "https://example.com/" }
  let codec : Scripted.Codec := { arrival := .events [{ body := .settingsAcknowledged }] }
  let start (notice : Option (Completion Unit (List Fault))) : Session Scripted.Codec Scripted.Transport Unit Nat :=
    { fresh codec with program := 0, lossNotice := notice }
  have hstart : ∀ notice, Created (start notice) := by
    intro notice
    have hbase : Url.parse (ascii "https://example.com") = .ok exampleUrl := by decide
    refine ⟨ascii "https://example.com", codec, {}, {}, notice, 0, 0, rfl, ?_⟩
    unfold create
    rw [hbase]
    rfl
  let still : Reaction Scripted.Codec Scripted.Transport Unit Nat := ⟨fun _ _ s => s⟩
  let stopped (notice) (ops : List (Operation Scripted.Transport Unit)) :=
    { (start notice).performAll still ops with loop := ((start notice).performAll still ops).loop.stop }
  have hrun : ∀ notice ops, FreeRun (start notice) (stopped notice ops) := fun notice ops =>
    (Activity.performAll (fun _ _ u => .refl u) (fun _ _ => trivial) _).stop
  refine ⟨?_, ?_⟩
  · let ops : List (Operation Scripted.Transport Unit) :=
      [.established (some {}), .bytesReceived [], .submit { request with maxSize := 1 }, .submit request, .observe 0 ()]
    let long : Drift Scripted.Codec Scripted.Transport Unit Nat :=
      { Drift.counting (stopped none ops) with
        codec := { arrival := .events [{ stream := 1, body := .data (ascii "long") 4 }] } }
    refine ⟨start none, (stopped none ops).drift long, ⟨_⟩, hstart none, (hrun none ops).drift long, by decide, rfl,
      by decide +kernel, by decide +kernel, by decide +kernel⟩
  · let ops : List (Operation Scripted.Transport Unit) := [.established (some {}), .bytesReceived [], .submit request]
    let notice : Completion Unit (List Fault) := { observers := [()] }
    refine ⟨start (some notice), stopped (some notice) ops, ⟨_⟩, hstart _, hrun _ _, by decide, by decide, rfl,
      by decide +kernel, by decide +kernel⟩

end Session

end Multiplex
