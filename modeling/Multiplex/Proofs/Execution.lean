import Multiplex.Proofs.Intact

/-! Whatever is asked of a connection, on any loop, what it does is an execution, provided that what observers ask when
they are told at once is one too. Each function of a connection is taken apart here once. -/
namespace Multiplex.Session

open Bytes Wire

variable {κ τ ω σ : Type} [Codec κ] [Transport τ] {w : Surroundings κ τ ω σ} {left : Stream → Prop}
  {s s' u v : Session κ τ ω σ} {r : Reaction κ τ ω σ} {x : Stream} {ticket : Ticket}
  {act : Metadata → Turn κ → Turn κ}

/-- Observers are told through a loop that goes on running, or what they ask when they are told at once is an execution.
-/
structure Conforms (w : Surroundings κ τ ω σ) (r : Reaction κ τ ω σ) (s : Session κ τ ω σ) : Prop where
  intact : s.Intact
  observers : s.loop.stopped = false ∧ ¬w.stops ∨
    ∀ o news (u : Session κ τ ω σ), u.Intact → Execution w nobody u (r.run o news u)

theorem Conforms.later (h : s.Conforms w r) (hs : Execution w left s s') : s'.Conforms w r := by
  have hsteps := hs.transitions h.intact
  exact ⟨hsteps.intact h.intact, h.observers.imp_left fun hlive => ⟨(hsteps.stopped hlive.2).trans hlive.1, hlive.2⟩⟩

theorem Conforms.step (h : s.Conforms w r) (hs : Execution w nobody s s') : s'.Conforms w r := h.later hs

theorem Execution.next (hs : Execution w nobody s u) (h : s.Conforms w r)
    (hnext : u.Conforms w r → Execution w nobody u s') : Execution w nobody s s' := hs.trans (hnext (h.later hs))

theorem Execution.lines {history : History} (h : s.history.Extends Entry.IsPlainLine history) :
    Execution w left s { s with history } := .atomic (.lines h)

theorem Execution.note (s : Session κ τ ω σ) (level : Log.Level) (message : Bytes) :
    Execution w left s (s.note level message) := .lines (.cons (Entry.isPlainLine_session level message) .refl)

theorem execution_foldl {α : Type} {f : Session κ τ ω σ → α → Session κ τ ω σ} {l : List α} (h : s.Conforms w r)
    (hf : ∀ u, ∀ a ∈ l, Execution w nobody s u → u.Conforms w r → Execution w nobody u (f u a)) :
    Execution w nobody s (l.foldl f s) := by
  induction l generalizing s with
  | nil => exact .refl s
  | cons a l ih =>
    have hfirst := hf s a List.mem_cons_self (.refl s) h
    exact hfirst.next h fun h => ih h fun u b hb hu => hf u b (List.mem_cons_of_mem a hb) (hfirst.trans hu)

/-! Telling observers. -/

theorem execution_tell (h : s.Conforms w r) (n : Notice ω) : Execution w nobody s (s.tell r n) := by
  unfold tell
  split
  · rename_i loop hpost
    obtain ⟨hlive, rfl⟩ := Loop.post_eq_some_iff.1 hpost
    exact .atomic (.notify [n] hlive)
  · rename_i hpost
    have hnot : s.loop.stopped ≠ false := fun hlive =>
      Option.some_ne_none _ ((Loop.post_eq_some_iff.2 ⟨hlive, rfl⟩).symm.trans hpost)
    have hnoted : Execution w nobody s (s.note .warn _ "Completion") :=
      .atomic (.inline (ascii "Event loop unavailable, notifying observer inline") (Bool.not_eq_false _ |>.mp hnot))
    exact hnoted.next h fun h => (h.observers.resolve_left fun hlive => hnot hlive.1) _ _ _ h.intact

theorem execution_tellAll (h : s.Conforms w r) (os : List ω) (news : News) :
    Execution w nobody s (s.tellAll r os news) := execution_foldl h fun _ o _ _ hu => execution_tell hu ⟨o, news⟩

theorem execution_observe (h : s.Conforms w r) (ticket : Ticket) (o : ω) :
    Execution w nobody s (s.observe r ticket o) := by
  unfold observe
  split
  · exact .refl s
  · rename_i c hc
    unfold Completion.observe
    split
    · rename_i hobserve
      split at hobserve
      · cases hobserve
      · cases hobserve
        exact .atomic (.observe _ hc)
    · exact execution_tell h _

theorem execution_announceLoss (h : s.Conforms w r) (hl : s.lost = true) :
    Execution w nobody s (s.announceLoss r) ∧ (s.announceLoss r).Told ∧
      (s.loop.stopped = false → (s.announceLoss r).registry = s.registry) := by
  unfold announceLoss
  split
  · rename_i hnone
    exact ⟨.refl s, fun c hc => (nomatch hnone.symm.trans hc), fun _ => rfl⟩
  · rename_i c hc
    split
    · rename_i hfulfil
      have hfulfilled := Completion.fulfil_eq_none_iff.1 hfulfil
      refine ⟨.atomic (.twice hl hc hfulfilled), fun c' hc' => ?_, fun _ => rfl⟩
      exact Option.some.inj (hc.symm.trans hc') ▸ hfulfilled
    · rename_i os c' hfulfil
      obtain ⟨hvalue, -, rfl⟩ := Completion.fulfil_eq_some_iff.1 hfulfil
      have hunfulfilled : c.isFulfilled = false := by
        unfold Completion.isFulfilled
        rw [hvalue]
        rfl
      let announced : Session κ τ ω σ :=
        ({ s with lossNotice := some ⟨some s.causes, []⟩ } : Session κ τ ω σ).enter (.lossAnnounced s.causes)
      have hannounced : Execution w nobody s announced := .atomic (.announce hl hc hunfulfilled)
      have htold := execution_tellAll (h.later hannounced) os (.lost s.causes)
      refine ⟨hannounced.trans htold, (htold.transitions (h.later hannounced).intact).told ?_, fun hlive => ?_⟩
      · rintro c ⟨rfl⟩
        rfl
      · have hnotified : announced.tellAll r os (.lost s.causes) = announced.notify _ :=
          tellAll_eq (s := announced) hlive os _
        exact (congrArg Session.registry hnotified).trans rfl

/-! Exchanges that leave. -/

omit [Codec κ] [Transport τ] in
theorem giveUp_eq (x : Stream) (s : Session κ τ ω σ) :
    ∃ history, s.history.Extends Entry.IsPlainLine history ∧ s.giveUp x = { s with history } ∧
      (x.state = .closed → history = s.history) := by
  unfold giveUp
  split
  · exact ⟨s.history, .refl, rfl, fun _ => rfl⟩
  · rename_i hopen
    have hline : Entry.IsPlainLine (.log (Log.line .warn "Stream" x.abandonedMessage)) :=
      ⟨_, rfl, show ascii "Stream" ≠ ascii "Completion" by decide⟩
    exact ⟨_, .cons hline .refl, rfl, fun hs => absurd (beq_iff_eq.2 hs) hopen⟩

theorem execution_giveUp (x : Stream) (s : Session κ τ ω σ) : Execution w left s (s.giveUp x) := by
  obtain ⟨history, hlines, h, -⟩ := giveUp_eq x s
  rw [h]
  exact .lines hlines

theorem execution_letGo (ticket : Ticket) (s : Session κ τ ω σ) : Execution w left s (s.letGo ticket) := by
  have herased : Execution w left s { s with held := s.held.erase ticket } := .atomic (.hold s _)
  unfold letGo
  dsimp only
  split
  · exact herased
  · split
    · exact herased
    · exact (herased.trans (.atomic (.drop _ ticket))).trans (execution_giveUp _ _)

omit [Codec κ] [Transport τ] in
theorem remove_eq_of_none {id : UInt32} {registry : Registry Stream} (h : s.registry.remove id = (none, registry)) :
    (s.registry.remove id).2 = s.registry := Registry.remove_eq_self_of_none (congrArg Prod.fst h)

theorem execution_release_of_spent {id : UInt32} (hi : s.Intact) (hs : s.Spent id) :
    Execution w left { s with registry := (s.registry.remove id).2 } (s.release id).2 := by
  unfold release
  split
  · rename_i registry h
    rw [remove_eq_of_none h]
    exact .note s _ _
  · rename_i y registry h
    obtain ⟨e, he, hid, rfl⟩ := Registry.mem_of_remove h
    have hclosed : e.item.state = .closed := hs.2 _ (mem_inPlay_of_entry he) ((hi.ids e he).trans hid)
    have hfree : ¬(!e.item.isClosed && decide (e.item.ticket ∈ s.held)) = true := by
      rw [Stream.isClosed, hclosed]
      exact Bool.false_ne_true
    rw [show (s.registry.remove id).2 = registry from congrArg Prod.snd h]
    dsimp only
    rw [if_neg hfree]
    exact execution_giveUp _ _

theorem execution_release (hi : s.Intact) {id : UInt32} (hd : w.may (.streamClosed id)) :
    Execution w left s (s.release id).2 := by
  cases hremove : s.registry.remove id with
  | mk found registry =>
    cases found with
    | none =>
      unfold release
      rw [hremove]
      exact .note s _ _
    | some y =>
      obtain ⟨e, he, hid, rfl⟩ := Registry.mem_of_remove hremove
      have hsame : e.item.id = id := (hi.ids e he).trans hid
      by_cases hclosed : e.item.state = .closed
      · have hspent : s.Spent id := by
          refine ⟨hsame ▸ hi.fresh _ (mem_inPlay_of_entry he), fun x hx hid => ?_⟩
          rw [hi.eq_of_id hx (mem_inPlay_of_entry he) (hid.trans hsame.symm)]
          exact hclosed
        have hleft : Execution w left s { s with registry := (s.registry.remove id).2 } :=
          .atomic (.leave id fun y hy hid => hspent.2 _ (mem_inPlay_of_entry hy) ((hi.ids y hy).trans hid))
        exact hleft.trans (execution_release_of_spent hi hspent)
      · have hreported : Execution w left s { s with
            registry, detached := if e.item.ticket ∈ s.held then s.detached ++ [e.item] else s.detached } :=
          .atomic (.report (hsame ▸ hd) (hsame ▸ hremove) hclosed)
        have hopen : (!e.item.isClosed) = true := by
          rw [Stream.isClosed, beq_false_of_ne hclosed]
          rfl
        unfold release
        rw [hremove]
        dsimp only
        rw [hopen, Bool.true_and]
        by_cases hheld : e.item.ticket ∈ s.held
        · rw [if_pos hheld] at hreported
          rw [if_pos (decide_eq_true hheld)]
          exact hreported
        · rw [if_neg hheld] at hreported
          rw [if_neg (by simpa using hheld)]
          exact hreported.trans (execution_giveUp _ _)

/-! Turns and admission. -/

theorem turn_taken (h : s.Conforms w r) (ht : Takes s x u act) :
    (act u.metadata (u.turnOf x)).ending = none ∧
      u.turn r x.ticket act = (false, u.turned (act u.metadata (u.turnOf x))) ∨
    ∃ e os, (act u.metadata (u.turnOf x)).ending = some e ∧ x.state ≠ .closed ∧ s.values[x.ticket]? = some none ∧
      ((u.turned (act u.metadata (u.turnOf x))).given x.ticket e.outcome).Conforms w r ∧
      u.turn r x.ticket act = (((u.turned (act u.metadata (u.turnOf x))).given x.ticket e.outcome).tellAll r os
        (.settled x.ticket e.outcome)).release x.id := by
  obtain ⟨-, -, htidy, -⟩ := ht.before h.intact
  have hfind := htidy.streamOf (ht.mem_before h.intact)
  cases he : (act u.metadata (u.turnOf x)).ending with
  | none => exact Or.inl ⟨rfl, turn_of_open r hfind he⟩
  | some e =>
    have hopen := ht.not_closed_of_some he
    have hv := h.intact.unanswered ht.mem hopen
    have hunanswered : (u.turned (act u.metadata (u.turnOf x))).values[x.ticket]? = some none := by
      rw [ht.before_eq]
      exact hv
    obtain ⟨os, -, hsettle⟩ := (settle_cases r x.ticket e.outcome (u.turned (act u.metadata (u.turnOf x)))).resolve_left
      fun hnot => hnot.1 hunanswered
    refine Or.inr ⟨e, os, rfl, hopen, hv,
      ⟨ht.intact_given h.intact he, h.observers.imp_left fun hlive => ⟨?_, hlive.2⟩⟩, ?_⟩
    · rw [ht.before_eq]
      exact hlive.1
    · rw [turn_of_ended r hfind he, if_pos (ht.prompt.accounts e he).2.1, hsettle]

theorem execution_turn (h : s.Conforms w r) (ht : Takes s x u act) :
    Execution w nobody s (u.turn r x.ticket act).2 := by
  rcases turn_taken h ht with ⟨he, heq⟩ | ⟨e, os, he, hopen, hv, hconforms, heq⟩
  · rw [heq]
    exact .atomic (.turn ht he)
  · have htold := execution_tellAll hconforms os (.settled x.ticket e.outcome)
    have hlive : s.loop.stopped = false → ∃ notices,
        ((u.turned (act u.metadata (u.turnOf x))).given x.ticket e.outcome).tellAll r os (.settled x.ticket e.outcome) =
          ((u.turned (act u.metadata (u.turnOf x))).given x.ticket e.outcome).notify notices := by
      intro hlive
      refine ⟨_, tellAll_eq ?_ os _⟩
      rw [ht.before_eq]
      exact hlive
    have hspent := (htold.transitions hconforms.intact).spent hconforms.intact (ht.spent_own h.intact he)
    rw [heq]
    exact (Execution.ended ht hopen hv he htold hlive).trans
      (execution_release_of_spent (htold.intact hconforms.intact) hspent)

theorem execution_admitUpTo (h : s.Conforms w r) (n : Nat) : Execution w nobody s (s.admitUpTo r n) := by
  induction n generalizing s with
  | zero => exact .refl s
  | succ n ih =>
    unfold admitUpTo
    split
    · rename_i hcan
      cases hp : s.registry.pending with
      | nil => exact absurd hp (canAdmit_eq_true_iff.1 hcan).1
      | cons id rest =>
        obtain ⟨e, he, rfl, -, hnext⟩ := h.intact.ordered.coherent.admitNext_of_cons hp
        have hbegun : Execution w nobody s (({ s with registry := { s.registry with pending := rest }.markAdmitted e.id } :
            Session κ τ ω σ).begin r e.item) := begin_eq r e rest s ▸ execution_turn h (.start hcan hp he)
        rw [hnext]
        exact hbegun.next h fun h => ih h
    · exact .refl s

theorem execution_admitQueued (h : s.Conforms w r) : Execution w nobody s (s.admitQueued r) := by
  unfold admitQueued
  split
  · exact .refl s
  · rename_i hidle
    have hshut : ({ s with admitting := true } : Session κ τ ω σ).Conforms w r :=
      ⟨h.intact.of_same rfl rfl rfl rfl, h.observers⟩
    exact .pass (Bool.eq_false_iff.2 hidle) (execution_admitUpTo hshut (s.registry.pendingCount + s.idsLeft))

theorem execution_step (h : s.Conforms w r) (ht : Takes s x u act) : Execution w nobody s (u.step r x.ticket act) := by
  have hturn := execution_turn h ht
  rw [step_eq]
  split
  · exact hturn.next h fun h => execution_admitQueued h
  · exact hturn

theorem execution_streamClosed (h : s.Conforms w r) {id : UInt32} (hd : w.may (.streamClosed id)) :
    Execution w nobody s (s.streamClosed r id) := by
  have hreleased : Execution w nobody s (s.release id).2 := execution_release h.intact hd
  unfold streamClosed
  split
  · rename_i u heq
    rw [heq] at hreleased
    exact hreleased.next h fun h => execution_admitQueued h
  · rename_i u heq
    rw [heq] at hreleased
    exact hreleased

/-! The end of the connection. -/

theorem execution_dismiss_of_closed (hs : x.state = .closed) (r : Reaction κ τ ω σ) (s : Session κ τ ω σ) :
    Execution w left s (s.dismiss r x) := by
  have hlines : ∀ reason causes, Execution w left s (s.finish r x reason causes) := by
    intro reason causes
    obtain ⟨history, hlines, hfinish⟩ := finish_cases r x reason causes s
    obtain ⟨-, hfinish⟩ := hfinish.resolve_right fun hopen => hopen.1 hs
    rw [hfinish]
    exact .lines (hlines.imp fun _ => Entry.IsStreamLine.isPlainLine)
  unfold dismiss
  split
  · exact hlines _ _
  · exact hlines _ _

omit [Codec κ] [Transport τ] in
theorem dismiss_of_open (r : Reaction κ τ ω σ) (hopen : x.state ≠ .closed) (hv : s.values[x.ticket]? = some none) :
    ∃ history os, s.history.Extends Entry.IsStreamLine history ∧
      s.dismiss r x = (({ s with history } : Session κ τ ω σ).given x.ticket (x.lossOutcome s.metadata s.causes)).tellAll
        r os (.settled x.ticket (x.lossOutcome s.metadata s.causes)) := by
  unfold dismiss Stream.lossOutcome
  split
  · exact finish_of_open r .connectionLost s.causes hopen hv
  · exact finish_of_open r .inactive [] hopen hv

theorem execution_dismiss (h : s.Conforms w r) (hl : s.lost = true) (hx : s.Retired x.ticket) (hleft : left x)
    (hv : x.state ≠ .closed → s.values[x.ticket]? = some none) :
    Execution w left s (s.dismiss r x) ∧
      (x.state ≠ .closed → (s.dismiss r x).values[x.ticket]? = some (some (x.lossOutcome s.metadata s.causes))) ∧
      ∀ other, other ≠ x.ticket → s.Retired other → s.values[other]? = some none →
        (s.dismiss r x).values[other]? = some none := by
  by_cases hs : x.state = .closed
  · have hlines : Execution w nobody s (s.dismiss r x) := execution_dismiss_of_closed hs r s
    refine ⟨execution_dismiss_of_closed hs r s, fun hopen => absurd hs hopen, fun other _ hother hopen => ?_⟩
    exact hlines.unanswered (fun _ h => h) h.intact hl hother hopen
  · obtain ⟨history, os, hlines, heq⟩ := dismiss_of_open r hs (hv hs)
    let noted : Session κ τ ω σ := { s with history }
    have hgiven : Execution w left s (noted.given x.ticket (x.lossOutcome s.metadata s.causes)) :=
      .atomic (.dismiss hleft hl hx hs (hv hs) (hlines.imp fun _ => Entry.IsStreamLine.isPlainLine))
    have hconforms := h.later hgiven
    have htold := execution_tellAll hconforms os (.settled x.ticket (x.lossOutcome s.metadata s.causes))
    rw [heq]
    refine ⟨hgiven.trans (htold.imp (.refl w) fun _ h => h.elim), fun _ => ?_, fun other hne hother hopen => ?_⟩
    · refine (htold.transitions hconforms.intact).answered ?_
      rw [values_given]
      exact List.getElem?_set_self (List.getElem?_eq_some_iff.1 (hv hs)).1
    · have hretired : (noted.given x.ticket (x.lossOutcome s.metadata s.causes)).Retired other := Retired.given hother _ _
      exact htold.unanswered (fun _ h => h) hconforms.intact hl hretired ((values_given_of_ne hne _ _).trans hopen)

theorem execution_dismissEach (h : s.Conforms w r) (hl : s.lost = true) {xs : List Stream} (hleft : ∀ x ∈ xs, left x)
    (hd : (xs.map (·.ticket)).Nodup) (hretired : ∀ x ∈ xs, s.Retired x.ticket)
    (hopen : ∀ x ∈ xs, x.state ≠ .closed → s.values[x.ticket]? = some none) :
    Execution w left s (xs.foldl (dismiss r) s) ∧ ∀ x ∈ xs, x.state ≠ .closed →
      (xs.foldl (dismiss r) s).values[x.ticket]? = some (some (x.lossOutcome s.metadata s.causes)) := by
  induction xs generalizing s with
  | nil => exact ⟨.refl s, fun _ hx => absurd hx List.not_mem_nil⟩
  | cons x xs ih =>
    obtain ⟨hlx, hlxs⟩ := List.forall_mem_cons.1 hleft
    obtain ⟨hrx, hrxs⟩ := List.forall_mem_cons.1 hretired
    obtain ⟨hox, hoxs⟩ := List.forall_mem_cons.1 hopen
    obtain ⟨hnot, hd⟩ := List.nodup_cons.1 hd
    obtain ⟨hfirst, hanswer, hothers⟩ := execution_dismiss h hl hrx hlx hox
    have hsteps := hfirst.transitions h.intact
    obtain ⟨hmetadata, hcauses⟩ := hsteps.settled hl
    have hne : ∀ y ∈ xs, y.ticket ≠ x.ticket := fun y hy ht => hnot (List.mem_map.2 ⟨y, hy, ht⟩)
    obtain ⟨hrest, hanswers⟩ := ih (h.later hfirst) (hsteps.lost hl) hlxs hd
      (fun y hy => hsteps.retired h.intact (hrxs y hy))
      (fun y hy hopen => hothers y.ticket (hne y hy) (hrxs y hy) (hoxs y hy hopen))
    rw [hmetadata, hcauses] at hanswers
    refine ⟨hfirst.trans hrest, List.forall_mem_cons.2 ⟨fun hopen => ?_, hanswers⟩⟩
    exact (hrest.transitions (h.later hfirst).intact).answered (hanswer hopen)

theorem lossHandled (h : s.Conforms w r) (transport : Option τ) (cause : Option Fault) (message : Bytes) :
    ∃ u, LossHandled w nobody (s.lossNoted transport cause) u
      ((((s.lossNoted transport cause).note .info message).announceLoss r).dismissAll r) := by
  have hnotedLoss : (s.lossNoted transport cause).Conforms w r := ⟨h.intact.of_same rfl rfl rfl rfl, h.observers⟩
  have hnoted : Execution w nobody (s.lossNoted transport cause) ((s.lossNoted transport cause).note .info message) :=
    .note _ _ _
  obtain ⟨htold, hnotice, hlive⟩ := execution_announceLoss (hnotedLoss.later hnoted) rfl
  have hannounced := hnoted.trans htold
  -- Observers of the loss may ask for anything. It is what they leave that is cleared.
  generalize hu : ((s.lossNoted transport cause).note .info message).announceLoss r = u at hannounced hnotice hlive
  have hconforms := hnotedLoss.later hannounced
  have hgone : u.lost = true := (hannounced.transitions hnotedLoss.intact).lost rfl
  let cleared : Session κ τ ω σ := { u with registry := u.registry.clear }
  have hcleared : cleared.Conforms w r := ⟨hconforms.intact.cleared, hconforms.observers⟩
  have hdistinct : (u.registry.snapshot.map (·.ticket)).Nodup :=
    (List.nodup_append.1 (List.map_append ▸ hconforms.intact.tickets)).1
  obtain ⟨hdismissed, hanswers⟩ := execution_dismissEach hcleared hgone (fun x (hx : x ∈ u.registry.snapshot) => hx)
    hdistinct (fun x hx => hconforms.intact.toTidy.retired_of_cleared hx)
    (fun x hx hopen => hconforms.intact.unanswered (List.mem_append_left _ hx) hopen)
  have hfarewell := (hdismissed.transitions hcleared.intact).lost hgone
  exact ⟨u, hannounced, hnotice, hlive, hdismissed.trans (.atomic (.farewell .noError (Or.inr hfarewell))), hanswers⟩

theorem lossHandled_transportLost (h : s.Conforms w r) (hl : s.lost = false) (cause : Option Fault) :
    ∃ u, LossHandled w nobody (s.lossNoted s.transport cause) u (s.transportLost r cause) := by
  rcases transportLost_cases r cause s with ⟨hlost, -⟩ | ⟨-, message, heq⟩
  · exact Bool.noConfusion (hl.symm.trans hlost)
  · rw [heq]
    exact lossHandled h s.transport cause message

theorem lossHandled_discard (h : s.Conforms w r) (hl : s.lost = false) :
    ∃ u, LossHandled w nobody (s.lossNoted none none) u (s.discard r) := by
  rcases transportLost_cases r none ({ s with transport := none } : Session κ τ ω σ) with ⟨hlost, -⟩ | ⟨-, message, heq⟩
  · exact Bool.noConfusion (hl.symm.trans hlost)
  · rw [show s.discard r = ({ s with transport := none } : Session κ τ ω σ).transportLost r none from
      if_neg (Bool.eq_false_iff.1 hl), heq]
    exact lossHandled h none none message

theorem lossHandled_loseWith (h : s.Conforms w r) (hl : s.lost = false) (hc : s.closing = false)
    (ht : s.transport = none)
    (fault : Fault) : ∃ u, LossHandled w nobody (s.lossNoted s.transport (some fault)) u (s.loseWith r fault) := by
  have hlosing : (s.resolved fault).losing none = s.lossNoted s.transport (some fault) := by
    unfold losing
    rw [show (s.resolved fault).causes ++ (none : Option Fault).toList = s.causes ++ [fault] from List.append_nil _]
    rfl
  rw [loseWith_absent hl hc ht]
  rcases transportLost_cases r none (s.resolved fault) with ⟨hlost, -⟩ | ⟨-, message, heq⟩
  · exact Bool.noConfusion (hl.symm.trans hlost)
  · rw [heq, hlosing]
    exact lossHandled h s.transport (some fault) message

theorem execution_transportLost (h : s.Conforms w r) (cause : Option Fault) :
    Execution w nobody s (s.transportLost r cause) := by
  cases hl : s.lost with
  | true =>
    rw [show s.transportLost r cause = s.note .debug _ from if_pos hl]
    exact .note s _ _
  | false =>
    obtain ⟨_, hlost⟩ := lossHandled_transportLost h hl cause
    exact hlost.execution hl (Or.inl rfl)

theorem execution_discard (h : s.Conforms w r) : Execution w nobody s (s.discard r) := by
  cases hl : s.lost with
  | true =>
    rw [show s.discard r = s from if_pos hl]
    exact .refl s
  | false =>
    obtain ⟨_, hlost⟩ := lossHandled_discard h hl
    exact hlost.execution hl (Or.inr rfl)

theorem execution_loseWith (h : s.Conforms w r) (fault : Fault) : Execution w nobody s (s.loseWith r fault) := by
  cases hl : s.lost with
  | true =>
    rw [show s.loseWith r fault = s.note .debug _ from if_pos hl]
    exact .note s _ _
  | false =>
    cases hc : s.closing with
    | true =>
      rw [loseWith_again hl hc]
      exact .atomic (.blame fault hl hc)
    | false =>
      cases ht : s.transport with
      | none =>
        obtain ⟨_, hlost⟩ := lossHandled_loseWith h hl hc ht fault
        exact hlost.execution hl (Or.inl rfl)
      | some t =>
        have hasked : Execution w nobody s (s.asked fault t) := .atomic (.ask fault ⟨hl, hc⟩ ht)
        rw [loseWith_asked hl hc ht]
        split
        · exact hasked
        · exact hasked.next h fun h => execution_transportLost h none
        · exact hasked.next h fun h => execution_transportLost h _

theorem execution_flush (h : s.Conforms w r) : Execution w nobody s (s.flush r) := by
  rcases flush_cases r s with ⟨hnowhere, heq | ⟨message, heq⟩⟩ | ⟨t, hsome, ht, hl, heq | ⟨message, cause, heq⟩⟩
  · rw [heq]
    exact .atomic (.drain hnowhere)
  · rw [heq]
    exact (Execution.atomic (.drain hnowhere)).trans (.note _ _ _)
  · rw [heq]
    exact .atomic (.write hsome ht hl)
  · have hwritten : Execution w nobody s ((s.written t).note .error message) :=
      (Execution.atomic (.write hsome ht hl)).trans (.note _ _ _)
    rw [heq]
    exact hwritten.next h fun h => execution_loseWith h cause

/-! Events. -/

theorem execution_finish (h : s.Conforms w r) (hs : s.Serving) {e : Registry.Entry Stream}
    (he : e ∈ s.registry.entries) {body : EventBody} {reason : CloseReason} {causes : List Fault}
    (hb : body.Ends reason causes) {history : History}
    (hh : History.Extends Entry.IsPlainLine (.dispatched ⟨e.id, body⟩ :: s.history) history) :
    Execution w nobody s
      (({ s with registry := (s.registry.remove e.id).2, history } : Session κ τ ω σ).finish r e.item reason causes) := by
  let removed : Session κ τ ω σ := { s with registry := (s.registry.remove e.id).2, history }
  by_cases hclosed : e.item.state = .closed
  · obtain ⟨history', hlines, hfinish⟩ := finish_cases r e.item reason causes removed
    obtain ⟨-, hfinish⟩ := hfinish.resolve_right fun hopen => hopen.1 hclosed
    have hid := h.intact.ids e he
    have hpass : Execution w nobody s (s.enter (.dispatched ⟨e.id, body⟩)) := by
      refine .atomic (.pass _ hs ?_)
      have hfound : ∀ x, s.registry.find e.id = some x → x.state = .closed := by
        intro x hx
        obtain ⟨y, hy, hsame, rfl⟩ := mem_of_find hx
        rw [h.intact.ordered.coherent.eq_of_id_eq hy he hsame]
        exact hclosed
      cases hb with
      | ended => exact hfound
      | reset => exact hfound
    have hnoted := hpass.trans (.lines hh)
    have hleft : Execution w nobody s removed := by
      refine hnoted.trans (.atomic (.leave e.id fun y hy hsame => ?_))
      rw [h.intact.ordered.coherent.eq_of_id_eq hy he hsame]
      exact hclosed
    rw [hfinish]
    exact hleft.trans (.lines (hlines.imp fun _ => Entry.IsStreamLine.isPlainLine))
  · have hv := h.intact.unanswered (mem_inPlay_of_entry he) hclosed
    obtain ⟨history', os, hlines, hfinish⟩ := finish_of_open r reason causes hclosed (s := removed) hv
    have hplain := hh.trans (hlines.imp fun _ => Entry.IsStreamLine.isPlainLine)
    rw [hfinish]
    exact (Execution.atomic (.conclude hs he hclosed hv hb hplain)).next h fun h => execution_tellAll h os _

theorem execution_withStream (h : s.Conforms w r) {event : Event} {f : Stream → Session κ τ ω σ → Session κ τ ω σ}
    {otherwise : Session κ τ ω σ → Session κ τ ω σ}
    (hf : ∀ x ∈ s.registry.snapshot, x.id = event.stream → Execution w nobody s (f x (s.enter (.dispatched event))))
    (hother : s.registry.find event.stream = none →
      ∀ message, Execution w nobody s (otherwise ((s.enter (.dispatched event)).note .warn message))) :
    Execution w nobody s ((s.enter (.dispatched event)).withStream event f otherwise) := by
  unfold withStream
  split
  · rename_i x hfind
    obtain ⟨e, he, hid, rfl⟩ := mem_of_find hfind
    exact hf _ (List.mem_map_of_mem he) ((h.intact.ids e he).trans hid)
  · rename_i hfind
    exact hother hfind _

theorem execution_concludeStream (h : s.Conforms w r) {event : Event} (hpass : ∀ history,
      s.registry.find event.stream = none → History.Extends Entry.IsPlainLine (.dispatched event :: s.history) history →
        Execution w nobody s { s with history })
    {f : Stream → Session κ τ ω σ → Session κ τ ω σ}
    (hf : ∀ e ∈ s.registry.entries, e.id = event.stream → Execution w nobody s
      (f e.item { s.enter (.dispatched event) with registry := (s.registry.remove e.id).2 })) :
    Execution w nobody s ((s.enter (.dispatched event)).concludeStream r event f) := by
  unfold concludeStream
  split
  · rename_i x registry hremove
    obtain ⟨e, he, hid, rfl⟩ := Registry.mem_of_remove hremove
    have hregistry : (s.registry.remove e.id).2 = registry := by
      rw [hid]
      exact congrArg Prod.snd hremove
    have hacted := hf e he hid
    rw [hregistry] at hacted
    exact hacted.next h fun h => execution_admitQueued h
  · rename_i registry hremove
    exact hpass _ (find_of_remove hremove) (.cons (Entry.isPlainLine_session _ _) .refl)

theorem Emptied.window (h : s.Emptied) (hfind : s.streamOf ticket = some x) :
    Takes s x s Turn.receiveWindowUpdate ∧ x.ticket = ticket := by
  obtain ⟨hx, rfl⟩ := mem_of_streamOf hfind
  refine ⟨.window hx fun hlost => (List.mem_append.1 hx).resolve_left fun hx => ?_, rfl⟩
  rw [h hlost] at hx
  exact List.not_mem_nil hx

theorem execution_resume (h : s.Conforms w r) (he : s.Emptied) (ticket : Ticket) :
    Execution w nobody s (s.resume r ticket) := by
  unfold resume
  split
  · exact .refl s
  · rename_i x hfind
    split
    · exact .refl s
    · obtain ⟨hwindow, rfl⟩ := he.window hfind
      exact execution_step h hwindow

theorem execution_resumeAll (h : s.Conforms w r) (hl : s.lost = false) : Execution w nobody s (s.resumeAll r) := by
  have hheld : Execution w nobody s (s.hold s.registry.tickets) := .atomic (.hold s _)
  have hresumed := hheld.next h fun h => execution_foldl (l := s.registry.tickets) h fun u ticket _ hsu hu =>
    execution_resume hu ((hheld.trans hsu).emptied fun hlost => Bool.noConfusion (hl.symm.trans hlost)) ticket
  rw [resumeAll_eq]
  exact hresumed.next h fun h => execution_foldl h fun u ticket _ _ _ => execution_letGo ticket u

theorem execution_acknowledgeSettings (hs : s.Serving) : Execution w nobody s s.acknowledgeSettings := by
  have hacknowledged : Execution w nobody s { s with acknowledged := true } := .atomic (.acknowledged hs)
  unfold acknowledgeSettings
  dsimp only
  split
  · rename_i c _
    exact (hacknowledged.trans (.atomic (.certified c hs))).trans
      (.lines (.cons (Entry.isPlainLine_session _ _) (.cons (Entry.isPlainLine_session _ _) .refl)))
  · exact hacknowledged.trans
      (.lines (.cons (Entry.isPlainLine_session _ _) (.cons (Entry.isPlainLine_session _ _) .refl)))
  · exact hacknowledged.trans (.lines (.cons (Entry.isPlainLine_session _ _) .refl))

theorem execution_handle (h : s.Conforms w r) (hs : s.Serving) (event : Event) :
    Execution w nobody s ((s.enter (.dispatched event)).handle r event) := by
  have hpass : s.Overlooks event → Execution w nobody s (s.enter (.dispatched event)) :=
    fun hoverlooks => .atomic (.pass event hs hoverlooks)
  obtain ⟨stream, body⟩ := event
  unfold handle
  cases body with
  | response fields =>
    refine execution_withStream h (fun x hx hid => ?_) fun hfind message => ?_
    · subst hid
      exact execution_step h (.head fields hs hx)
    · exact (hpass hfind).trans (.note _ _ _)
  | data bytes length =>
    refine execution_withStream h (fun x hx hid => ?_) fun hfind message => ?_
    · subst hid
      exact execution_step h (.data bytes length hs hx)
    · exact .atomic (.stray stream bytes length hs hfind (.cons (Entry.isPlainLine_session _ _) .refl))
  | ended =>
    refine execution_concludeStream h (fun history hfind hh => ?_) fun e he hid => ?_
    · have hoverlooks : s.Overlooks ⟨stream, .ended⟩ := fun x hx => nomatch hfind.symm.trans hx
      exact (hpass hoverlooks).trans (.lines hh)
    · subst hid
      exact execution_finish h hs he .ended .refl
  | reset code =>
    refine execution_concludeStream h (fun history hfind hh => ?_) fun e he hid => ?_
    · have hoverlooks : s.Overlooks ⟨stream, .reset code⟩ := fun x hx => nomatch hfind.symm.trans hx
      exact (hpass hoverlooks).trans (.lines hh)
    · subst hid
      exact execution_finish h hs he (.reset code) (.cons (Entry.isPlainLine_session _ _) .refl)
  | windowUpdated =>
    have hopened := hpass trivial
    have hfree : ∀ x, (s.enter (.dispatched ⟨stream, .windowUpdated⟩)).lost = true → x ∈ s.detached := fun _ hlost =>
      Bool.noConfusion (hs.1.symm.trans hlost)
    dsimp only
    split
    · exact hopened.next h fun h => execution_resumeAll h hs.1
    · refine execution_withStream h (fun x hx _ => ?_) fun _ message => hopened.trans (.note _ _ _)
      exact hopened.next h fun h => execution_step h (.window (List.mem_append_left _ hx) (hfree x))
  | settingsAcknowledged =>
    exact ((hpass trivial).trans (execution_acknowledgeSettings hs)).next h fun h => execution_admitQueued h
  | remoteSettingsChanged => exact (hpass trivial).next h fun h => execution_admitQueued h
  | terminated code last debug =>
    exact ((hpass trivial).trans (.note _ .warn _)).next h fun h => execution_loseWith h _
  | unknownFrame frame => exact (hpass trivial).trans (.note _ _ _)
  | unlisted kind => exact hpass trivial

theorem execution_handleAll (h : s.Conforms w r) (events : List Event) :
    Execution w nobody s (s.handleAll r events) := by
  refine execution_foldl h fun u event _ _ hu => ?_
  split
  · exact .refl u
  · rename_i hserving
    rw [Bool.or_eq_true, not_or, Bool.not_eq_true, Bool.not_eq_true] at hserving
    exact execution_handle hu hserving event

/-! Operations. -/

theorem submit_refused (r : Reaction κ τ ω σ) (request : Request) {cause : Fault} (h : s.refusal = some cause) :
    ∃ history, s.history.Extends Entry.IsPlainLine history ∧ (s.submit r request).2 =
      ({ s.issueTicket.2 with history } : Session κ τ ω σ).given s.completions.length
        ((Stream.new 0 s.completions.length request s.metadata).outcome s.metadata .inactive [cause]) := by
  obtain ⟨message, heq⟩ := submit_of_refused r request h
  let noted : Session κ τ ω σ := s.note .warn message
  let x := Stream.new 0 noted.issueTicket.1 request noted.metadata
  have hnew : noted.issueTicket.2.completions[x.ticket]? = some {} := List.getElem?_concat_length
  obtain ⟨history, hlines, hfinish⟩ := finish_cases r x .inactive [cause] noted.issueTicket.2
  obtain ⟨-, hfinish⟩ := hfinish.resolve_left fun hclosed => StreamState.noConfusion hclosed.1
  have hsettle : ({ noted.issueTicket.2 with history } : Session κ τ ω σ).settle r x.ticket
      (x.outcome noted.metadata .inactive [cause]) =
        ({ noted.issueTicket.2 with history } : Session κ τ ω σ).given x.ticket
          (x.outcome noted.metadata .inactive [cause]) := by
    unfold settle
    dsimp only
    rw [hnew]
    rfl
  refine ⟨history, ?_, heq.trans (hfinish.trans hsettle)⟩
  exact (History.Extends.cons (Entry.isPlainLine_session _ _) .refl).trans
    (hlines.imp fun _ => Entry.IsStreamLine.isPlainLine)

theorem execution_queued (h : s.Conforms w r) {request : Request} (hd : w.may (.operation (.submit request)))
    (hopen : s.refusal = none) : Execution w nobody (s.queued request) (s.submit r request).2 := by
  have hlater := h.step (.atomic (.queue request hd hopen))
  obtain ⟨message, heq⟩ := submit_of_above r request (fun e he => h.intact.above he) hopen
  have hheld : Execution w nobody (s.queued request)
      (((s.queued request).note .debug message).hold [s.completions.length]) :=
    (Execution.note _ .debug message).trans (.atomic (.hold _ _))
  have hflushed := (hheld.next hlater fun h => execution_admitQueued h).next hlater fun h => execution_flush h
  rw [heq]
  exact hflushed.trans (execution_letGo _ _)

theorem execution_submit (h : s.Conforms w r) {request : Request} (hd : w.may (.operation (.submit request))) :
    Execution w nobody s (s.submit r request).2 := by
  cases hrefusal : s.refusal with
  | none => exact (Execution.atomic (.queue request hd hrefusal)).trans (execution_queued h hd hrefusal)
  | some cause =>
    obtain ⟨history, hlines, heq⟩ := submit_refused r request hrefusal
    rw [heq]
    exact .atomic (.refuse request hd hrefusal hlines)

theorem execution_established (h : s.Conforms w r) {transport : Option τ}
    (hd : w.may (.operation (.established transport))) : Execution w nobody s (s.established r transport) := by
  cases transport with
  | none => exact .note s _ _
  | some t =>
    cases hl : s.lost with
    | true =>
      rw [show s.established r (some t) = s.note .warn _ from if_pos hl]
      exact .note s _ _
    | false =>
      rw [established_eq r t hl]
      exact (Execution.atomic (.establish t hd hl)).next h fun h => execution_flush h

theorem execution_handshakeCompleted (h : s.Conforms w r) : Execution w nobody s (s.handshakeCompleted r) := by
  unfold handshakeCompleted
  split
  · exact .refl s
  · dsimp only
    split
    · exact .refl s
    · exact (Execution.note s .error _).next h fun h => execution_loseWith h _

theorem execution_bytesReceived (h : s.Conforms w r) {data : Bytes} (hd : w.may (.operation (.bytesReceived data))) :
    Execution w nobody s (s.bytesReceived r data) := by
  unfold bytesReceived
  split
  · exact .note s _ _
  · rename_i hserving
    rw [Bool.or_eq_true, not_or, Bool.not_eq_true, Bool.not_eq_true] at hserving
    have hreceived : Execution w nobody s (s.received data) := .atomic (.receive data hd hserving)
    dsimp only
    split
    · rename_i events _
      exact (hreceived.next h fun h => execution_handleAll h events).next h fun h => execution_flush h
    · have hflushed := fun message => (hreceived.trans (.note _ .error message)).next h fun h => execution_flush h
      exact (hflushed _).next h fun h => execution_loseWith h _

theorem execution_idleTimeout (h : s.Conforms w r) : Execution w nobody s (s.idleTimeout r) := by
  unfold idleTimeout
  split
  · exact .refl s
  · rename_i hserving
    rw [Bool.or_eq_true, not_or, Bool.not_eq_true, Bool.not_eq_true] at hserving
    have hfarewell : ∀ message code, Execution w nobody s ((s.note .warn message).closeCodec code) :=
      fun message code => (Execution.note s .warn message).trans (.atomic (.farewell code (Or.inl hserving)))
    have hflushed := fun message code => (hfarewell message code).next h fun h => execution_flush h
    exact (hflushed _ _).next h fun h => execution_loseWith h _

/-- Whatever is asked of a connection, it executes. -/
theorem execution_meet (h : s.Conforms w r) {d : Demand τ ω} (hd : w.may d) : Execution w nobody s (s.meet r d) := by
  cases d with
  | streamClosed id => exact execution_streamClosed h hd
  | operation op =>
    cases op with
    | submit request => exact execution_submit h hd
    | observe ticket observer => exact execution_observe h ticket observer
    | established transport => exact execution_established h hd
    | handshakeCompleted => exact execution_handshakeCompleted h
    | bytesReceived data => exact execution_bytesReceived h hd
    | idleTimeout => exact execution_idleTimeout h
    | checkIdle =>
      unfold meet perform checkIdle
      dsimp only
      split
      · exact .refl s
      · exact execution_idleTimeout h
    | transportLost cause => exact execution_transportLost h cause
    | discard => exact execution_discard h

omit [Codec κ] [Transport τ] in
theorem Created.intact (h : Created s) : s.Intact := by
  obtain ⟨-, hregistry, -, -, hdetached, -⟩ := h.fields
  refine ⟨h.tidy, ?_, ?_, ?_, ?_⟩
  · rw [hregistry]
    exact Registry.Ordered.empty
  · rw [hregistry]
    exact fun _ he => absurd he List.not_mem_nil
  · rw [hdetached]
    exact fun _ hx => absurd hx List.not_mem_nil
  · rw [h.inPlay]
    exact fun _ hx => absurd hx List.not_mem_nil

/-- An activity on any loop is an execution in its surroundings. -/
theorem Activity.execution {may : Demand τ ω → Prop} (h : Activity may s s') (hi : s.Intact) :
    Execution (.of may) nobody s s' := by
  induction h with
  | refl s => exact .refl s
  | meet _ r _ d hd ih ihr =>
    have hbefore := ih hi
    exact hbefore.trans (execution_meet ⟨hbefore.intact hi, Or.inr fun o news u hu => ihr o news u hu⟩ hd)
  | drift _ d ih => exact (ih hi).trans (.atomic (.drift d trivial))
  | stop _ ih => exact (ih hi).trans (.atomic (.stop _ trivial))

theorem Conforms.of_activity {may : Demand τ ω → Prop} (hi : s.Intact)
    (hr : ∀ o news u, Activity may u (r.run o news u)) : s.Conforms (.of may) r :=
  ⟨hi, Or.inr fun o news u hu => (hr o news u).execution hu⟩

theorem Activity.transitions {may : Demand τ ω → Prop} (h : Activity may s s') (hi : s.Intact) :
    Transitions .any s s' := ((h.execution hi).transitions hi).any

end Multiplex.Session
