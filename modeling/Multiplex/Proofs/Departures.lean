import Mathlib.Data.List.Perm.Subperm
import Multiplex.Proofs.Consistency
import Multiplex.Proofs.Lives
import Multiplex.Proofs.Numbering

/-! What the peer knows of an exchange that has left. An exchange whose head went out stays registered until it is over
for both sides, with one exception: if its response is complete before its request is, it leaves without a word to the
peer, to whom it is still open. The peer counts no more open exchanges than run here and were cut short in this way. -/
namespace Multiplex

open Bytes Wire

namespace Entry

def resets (id : UInt32) : Entry → Bool
  | .call (.reset i _ _) => i == id
  | .dispatched ⟨i, .reset _⟩ => i == id
  | _ => false

def NoReset (id : UInt32) (e : Entry) : Prop := ∀ code ret, e ≠ .call (.reset id code ret)

theorem IsPlainLine.noReset {id : UInt32} {e : Entry} (h : e.IsPlainLine) : e.NoReset id := by
  obtain ⟨l, rfl, -⟩ := h
  exact nofun

theorem OfTurn.noReset {id other : UInt32} {e : Entry} (h : e.OfTurn other) (hne : other ≠ id) : e.NoReset id := by
  rintro code ret rfl
  exact hne h.symm

instance (id : UInt32) : DecidablePred (Finishes id)
  | .call (.headers i _ last ret) => inferInstanceAs (Decidable (i = id ∧ last = true ∧ ret = 0))
  | .call (.data i _ last ret) => inferInstanceAs (Decidable (i = id ∧ last = true ∧ ret = 0))
  | .call (.receive _) | .call (.initiate _) | .call (.close _) | .call (.reset ..) | .call (.acknowledge ..)
  | .call (.write ..) | .call .lose | .log _ | .settled .. | .dispatched _ | .admitted .. | .lossAnnounced _ =>
    inferInstanceAs (Decidable False)

end Entry

namespace History

def Upon (e : Entry) (p : History → Prop) (h : History) : Prop := ∃ later earlier, h = later ++ e :: earlier ∧ p earlier

/-- The exchange with an id is over for both sides: request and response are complete, or it was reset. -/
inductive Terminated (id : UInt32) (h : History) : Prop
  | complete (hended : h.Upon (.dispatched ⟨id, .ended⟩) fun earlier =>
      earlier.HeadSent id ∧ ∃ e ∈ earlier, e.Finishes id)
  | resetByPeer (code : ErrorCode) (hreset : h.Upon (.dispatched ⟨id, .reset code⟩) (HeadSent id))
  | reset (code : ErrorCode) (ret : Int32) (hreset : .call (.reset id code ret) ∈ h)

/-- The response was complete when the end of the request had not been sent. -/
def CutShort (id : UInt32) (h : History) : Prop :=
  h.Upon (.dispatched ⟨id, .ended⟩) fun earlier => earlier.HeadSent id ∧ ∀ e ∈ earlier, ¬e.Finishes id

def Departed (id : UInt32) (h : History) : Prop := h.Terminated id ∨ h.CutShort id

variable {id : UInt32} {h h' : History}

theorem Upon.later {e : Entry} {p : History → Prop} (hu : h.Upon e p) (hs : h <:+ h') : h'.Upon e p := by
  obtain ⟨later, earlier, rfl, hp⟩ := hu
  obtain ⟨new, rfl⟩ := hs
  exact ⟨new ++ later, earlier, (List.append_assoc _ _ _).symm, hp⟩

theorem Departed.later (hd : h.Departed id) (hs : h <:+ h') : h'.Departed id := by
  rcases hd with (hd | ⟨code, hd⟩ | ⟨code, ret, hd⟩) | hd
  · exact Or.inl (.complete (hd.later hs))
  · exact Or.inl (.resetByPeer code (hd.later hs))
  · exact Or.inl (.reset code ret (hs.subset hd))
  · exact Or.inr (hd.later hs)

theorem headSent_iff : h.HeadSent id ↔ (id, 0) ∈ h.select Entry.opening := by
  rw [mem_select]
  constructor
  · rintro ⟨fields, last, hm⟩
    exact ⟨_, hm, rfl⟩
  · rintro ⟨e, hm, he⟩
    cases e with
    | call c =>
      cases c with
      | headers i fields last ret =>
        obtain ⟨rfl, rfl⟩ := Prod.mk.inj (Option.some.inj he)
        exact ⟨fields, last, hm⟩
      | _ => cases he
    | _ => cases he

theorem HeadSent.of_cons {e : Entry} (hs : HeadSent id (e :: h)) (he : e.opening = none) : h.HeadSent id := by
  rw [headSent_iff, select_cons, he, Option.toList_none, List.append_nil] at hs
  exact headSent_iff.2 hs

/-- An exchange that is over for both sides shows in the record. -/
theorem Terminated.shows (ht : h.Terminated id) :
    (.dispatched ⟨id, .ended⟩ ∈ h ∧ ∃ e ∈ h, e.Finishes id) ∨ h.any (Entry.resets id) = true := by
  rcases ht with ⟨later, earlier, rfl, -, e, he, hfinishes⟩ | ⟨code, later, earlier, rfl, -⟩ | ⟨code, ret, hm⟩
  · exact Or.inl ⟨List.mem_append_right _ List.mem_cons_self,
      e, List.mem_append_right _ (List.mem_cons_of_mem _ he), hfinishes⟩
  · exact Or.inr (List.any_eq_true.2 ⟨_, List.mem_append_right _ List.mem_cons_self, beq_self_eq_true id⟩)
  · exact Or.inr (List.any_eq_true.2 ⟨_, hm, beq_self_eq_true id⟩)

end History

/-! A turn ends an exchange whose head went out only with a reset. -/

namespace Turn

variable {κ : Type} [Codec κ] {m : Metadata} {t : Turn κ}

def Cancelled (t : Turn κ) : Prop := ∃ code ret, .call (.reset t.stream.id code ret) ∈ t.history

theorem cancelled_resetAndClose (t : Turn κ) (code : ErrorCode) (reason : CloseReason) :
    (t.resetAndClose m code reason).Cancelled := by
  unfold resetAndClose
  dsimp only
  generalize hreset : t.record (Codec.reset t.codec t.stream.id code).2
    (.reset t.stream.id code (Codec.reset t.codec t.stream.id code).1) = t'
  have hcancelled : t'.Cancelled := by
    rw [← hreset]
    exact ⟨code, _, List.mem_cons_self⟩
  have hclose : ∀ {u : Turn κ}, u.Cancelled → (u.close m reason [] true).Cancelled := by
    rintro u ⟨code, ret, hm⟩
    refine ⟨code, ret, ?_⟩
    rw [(spares_close u reason [] true).id]
    exact (extends_close u reason [] true).suffix.subset hm
  split
  · exact hclose hcancelled
  · obtain ⟨code, ret, hm⟩ := hcancelled
    exact hclose ⟨code, ret, List.mem_cons_of_mem _ hm⟩

theorem cancelled_checkSize (t : Turn κ) (size : Nat) :
    (t.checkSize m size).ending = t.ending ∨ (t.checkSize m size).Cancelled := by
  unfold checkSize
  split
  · exact Or.inr (cancelled_resetAndClose _ _ _)
  · split
    · exact Or.inl rfl
    · exact Or.inl rfl

theorem cancelled_receiveHeaders (fields : Headers) (hs : t.stream.state ≠ .closed) :
    (t.receiveHeaders m fields).ending = t.ending ∨ (t.receiveHeaders m fields).Cancelled := by
  have habsorb : ∀ u : Turn κ, (fields.foldl absorb u).ending = u.ending := by
    induction fields with
    | nil => exact fun u => rfl
    | cons field rest ih => exact fun u => (ih (u.absorb field)).trans (same_absorb u field).2.2
  unfold receiveHeaders
  rw [if_neg hs]
  dsimp only
  split
  · rw [← habsorb t]
    exact cancelled_checkSize _ _
  · exact Or.inl (habsorb t)

theorem cancelled_receiveData (data : Bytes) (length : Nat) (hs : t.stream.state ≠ .closed) :
    (t.receiveData m data length).ending = t.ending ∨ (t.receiveData m data length).Cancelled := by
  unfold receiveData
  rw [if_neg hs]
  dsimp only
  split
  · exact cancelled_checkSize _ _
  · exact cancelled_checkSize _ _

theorem cancelled_sendBody (m : Metadata) (t : Turn κ) :
    (t.sendBody m).ending = t.ending ∨ (t.sendBody m).Cancelled := by
  fun_induction sendBody m t with
  | case1 | case2 | case3 | case4 => exact Or.inl rfl
  | case5 t _ _ _ o _ ih =>
    rw [show t.ending = o.2.ending from (same_offer t).2.2.symm]
    exact ih
  | case6 => exact Or.inr (cancelled_resetAndClose _ _ _)

theorem cancelled_receiveWindowUpdate (m : Metadata) (t : Turn κ) :
    (t.receiveWindowUpdate m).ending = t.ending ∨ (t.receiveWindowUpdate m).Cancelled := by
  unfold receiveWindowUpdate
  split
  · exact cancelled_sendBody m t
  · exact Or.inl rfl

theorem cancelled_initiate (hs : t.stream.state = .pending) (hbefore : ¬t.history.HeadSent t.stream.id)
    (hafter : (t.initiate m).history.HeadSent t.stream.id) :
    (t.initiate m).ending = t.ending ∨ (t.initiate m).Cancelled := by
  have hclosed : ∀ (u : Turn κ) (reason : CloseReason) (causes : List Fault),
      (u.close m reason causes true).history.HeadSent t.stream.id → u.history.HeadSent t.stream.id := by
    intro u reason causes
    exact (History.Extends.headSent ((extends_close u reason causes true).imp fun _ he => he.isPlainLine.aside _)).1
  rcases initiate_eq (m := m) hs with ⟨message, hstray⟩ | ⟨url, hstart⟩
  · rw [hstray] at hafter
    exact absurd ((hclosed _ _ _ hafter).of_cons rfl) hbefore
  · rw [hstart] at hafter ⊢
    by_cases hret : (t.headAnswer url).1 = 0
    · obtain ⟨message, htaken⟩ := start_of_taken (m := m) hret
      rw [htaken]
      split
      · exact Or.inl rfl
      · exact cancelled_sendBody m _
    · obtain ⟨message, hrefused⟩ := start_of_refused (m := m) hret
      rw [hrefused] at hafter
      have hnoted := (hclosed _ _ _ hafter).of_cons rfl
      refine absurd ((History.headSent_cons fun fields last heq => hret ?_).1 hnoted) hbefore
      injection heq with heq
      injection heq

end Turn

namespace Session

variable {κ τ ω σ : Type} {s₀ s s' u : Session κ τ ω σ} {x : Stream} {id : UInt32} {may : Demand τ ω → Prop}

def Runs (id : UInt32) (s : Session κ τ ω σ) : Prop := ∃ e ∈ s.registry.entries, e.id = id ∧ e.item.state ≠ .closed

/-- Every exchange whose head went out runs, or it has left as an exchange leaves, unless somebody else may have
reported it closed. -/
def Tracked (may : Demand τ ω → Prop) (s : Session κ τ ω σ) : Prop :=
  ∀ id, s.history.HeadSent id → s.Runs id ∨ s.history.Departed id ∨ may (.streamClosed id)

theorem Tracked.of_kept (ht : s.Tracked may) (hkept : ∀ id, s.Runs id → s'.Runs id)
    (hh : s.history.Extends (fun e => e.opening = none) s'.history) : s'.Tracked may := by
  intro id hid
  rw [History.headSent_iff, hh.select_eq fun _ h => h, ← History.headSent_iff] at hid
  exact (ht id hid).imp (hkept id) (Or.imp_left fun hdeparted => hdeparted.later hh.suffix)

theorem Tracked.of_same (ht : s.Tracked may) (hregistry : s'.registry = s.registry)
    (hh : s.history.Extends (fun e => e.opening = none) s'.history) : s'.Tracked may := by
  refine ht.of_kept (fun id => ?_) hh
  unfold Runs
  rw [hregistry]
  exact fun h => h

theorem Runs.removed {other : UInt32} (h : s.Runs id) (hne : id ≠ other)
    (hregistry : s'.registry = (s.registry.remove other).2) : s'.Runs id := by
  obtain ⟨e, he, rfl, hopen⟩ := h
  exact ⟨e, hregistry ▸ Registry.mem_remove_of_ne he hne, rfl, hopen⟩

variable [Codec κ] [Transport τ] {w : Surroundings κ τ ω σ} {act : Metadata → Turn κ → Turn κ}

theorem Takes.kept (h : Takes s x u act) {e : Registry.Entry Stream} (he : e ∈ s.registry.entries) :
    ∃ y ∈ (u.turned (act u.metadata (u.turnOf x))).registry.entries, y.id = e.id ∧
      y.item = if e.item.ticket = x.ticket then (act u.metadata (u.turnOf x)).stream else e.item := by
  obtain ⟨z, hz, hid, hitem⟩ : ∃ z ∈ u.registry.entries, z.id = e.id ∧ z.item = e.item := by
    cases h with
    | start =>
      refine ⟨_, List.mem_map_of_mem he, ?_⟩
      split <;> exact ⟨rfl, rfl⟩
    | head | data | window => exact ⟨e, he, rfl, rfl⟩
  have hticket : (act u.metadata (u.turnOf x)).stream.ticket = x.ticket := h.prompt.continues.ticket
  refine ⟨_, List.mem_map_of_mem hz, ?_⟩
  dsimp only
  rw [hticket, hitem]
  by_cases hsame : e.item.ticket = x.ticket
  · rw [if_pos (beq_iff_eq.2 hsame), if_pos hsame]
    exact ⟨hid, rfl⟩
  · rw [if_neg (mt beq_iff_eq.1 hsame), if_neg hsame]
    exact ⟨hid, hitem⟩

/-- An exchange that takes a turn and whose head is out goes on, or it is reset. -/
theorem Takes.cancelled (h : Takes s x u act) (hi : s.Intact) (hn : s.Numbered) (hopen : x.state ≠ .closed)
    (hsent : (act u.metadata (u.turnOf x)).history.HeadSent x.id) :
    (act u.metadata (u.turnOf x)).ending = none ∨ (act u.metadata (u.turnOf x)).Cancelled := by
  cases h with
  | @start e rest hcan hp he =>
    refine Turn.cancelled_initiate ((hi.waits hp he).resolve_left hopen) (fun hbefore => ?_) hsent
    have hopened : (e.item.id, 0) ∈ s.openings := History.headSent_iff.1 ((hbefore.of_cons rfl).of_cons rfl)
    rw [hi.ids e he] at hopened
    have hbelow := hn.waitingIds e.key (Registry.key_mem he) (hn.head hi.ordered he hp).1 e.id
      (List.mem_map_of_mem (f := Prod.fst) hopened)
    exact UInt32.lt_irrefl _ hbelow
  | head fields => exact Turn.cancelled_receiveHeaders fields hopen
  | data bytes length => exact Turn.cancelled_receiveData bytes length hopen
  | window => exact Turn.cancelled_receiveWindowUpdate _ _

theorem Takes.heads (h : Takes s x u act) (hx : x ∉ s.registry.snapshot) :
    (act u.metadata (u.turnOf x)).history.HeadSent id ↔ s.history.HeadSent id := by
  cases h with
  | start _ _ he => exact absurd (List.mem_map_of_mem he) hx
  | head _ _ hin | data _ _ _ hin => exact absurd hin hx
  | window =>
    rw [History.headSent_iff, History.headSent_iff, (Turn.steps_receiveWindowUpdate _).openings]
    rfl

theorem Takes.tracked (h : Takes s x u act) (hi : s.Intact) (hn : s.Numbered) (ht : s.Tracked may) :
    (u.turned (act u.metadata (u.turnOf x))).Tracked may := by
  have hcontinues := h.prompt.continues
  have hbefore : s.history <:+ u.history := (h.sendsNothing hi).history.suffix
  have hlater : s.history <:+ (act u.metadata (u.turnOf x)).history := hbefore.trans hcontinues.history.suffix
  have hold : ∀ {id}, u.history.HeadSent id → s.history.HeadSent id := fun hsent =>
    (History.Extends.headSent ((h.sendsNothing hi).history.imp fun _ haside => haside _)).1 hsent
  intro id hsent
  change (act u.metadata (u.turnOf x)).history.HeadSent id at hsent
  by_cases hid : id = x.id
  · subst hid
    by_cases hs : x.state = .closed
    · have hidle := (h.idles hs).history.imp fun _ he => he.isPlainLine.aside x.id
      refine (ht x.id (hold (hidle.headSent.1 hsent))).elim (fun hruns => ?_) fun hgone =>
        Or.inr (hgone.imp_left fun hdeparted => hdeparted.later hlater)
      obtain ⟨e, he, hid, hopen⟩ := hruns
      rw [hi.eq_of_id (mem_inPlay_of_entry he) h.mem ((hi.ids e he).trans hid)] at hopen
      exact absurd hs hopen
    · rcases h.cancelled hi hn hs hsent with hending | ⟨code, ret, hm⟩
      · by_cases hx : x ∈ s.registry.snapshot
        · obtain ⟨e, he, rfl⟩ := List.mem_map.1 hx
          obtain ⟨y, hy, hid, hitem⟩ := h.kept he
          rw [if_pos rfl] at hitem
          exact Or.inl ⟨y, hy, hid.trans (hi.ids e he).symm, hitem ▸ h.open_of_none hi hs hending⟩
        · refine (ht x.id ((h.heads hx).1 hsent)).elim (fun hruns => ?_) fun hgone =>
            Or.inr (hgone.imp_left fun hdeparted => hdeparted.later hlater)
          obtain ⟨e, he, hid, -⟩ := hruns
          rw [← hi.eq_of_id (mem_inPlay_of_entry he) h.mem ((hi.ids e he).trans hid)] at hx
          exact absurd (List.mem_map_of_mem he) hx
      · rw [hcontinues.id] at hm
        exact Or.inr (Or.inl (Or.inl (.reset code ret hm)))
  · have hsent' : s.history.HeadSent id := by
      refine hold ((History.Extends.headSent (hcontinues.history.imp fun e he hsends => hid ?_)).1 hsent)
      exact he.id_of_sends hsends
    refine (ht id hsent').imp (fun hruns => ?_) (Or.imp_left fun hdeparted => hdeparted.later hlater)
    obtain ⟨e, he, rfl, hopen⟩ := hruns
    obtain ⟨y, hy, hsame, hitem⟩ := h.kept he
    have hother : e.item.ticket ≠ x.ticket := fun hticket =>
      hid ((hi.ids e he).symm.trans (congrArg Stream.id (hi.entry he h.mem hticket)))
    rw [if_neg hother] at hitem
    exact ⟨y, hy, hsame, hitem ▸ hopen⟩

omit [Codec κ] [Transport τ] in
theorem Tracked.conclude (ht : s.Tracked may) {e : Registry.Entry Stream} {body : EventBody} {reason : CloseReason}
    {causes : List Fault} (hb : body.Ends reason causes) {history : History}
    (hh : History.Extends Entry.IsPlainLine (.dispatched ⟨e.id, body⟩ :: s.history) history) (outcome : Outcome) :
    (({ s with registry := (s.registry.remove e.id).2, history } : Session κ τ ω σ).given e.item.ticket outcome).Tracked
      may := by
  have hgrowth : s.history.Extends Entry.Aside (.settled e.item.ticket outcome :: history) :=
    ((History.Extends.cons (fun _ => id) .refl).trans (hh.imp fun _ => Entry.IsPlainLine.aside)).trans
      (.cons (fun _ => id) .refl)
  intro id hsent
  have hbefore : s.history.HeadSent id := (History.Extends.headSent (hgrowth.imp fun _ haside => haside id)).1 hsent
  by_cases hid : id = e.id
  · subst hid
    have hupon : ∀ {p : History → Prop}, p s.history →
        History.Upon (.dispatched ⟨e.id, body⟩) p (.settled e.item.ticket outcome :: history) := fun hp =>
      History.Upon.later ⟨[], s.history, rfl, hp⟩ (hh.suffix.trans (List.suffix_cons _ _))
    refine Or.inr (Or.inl ?_)
    cases hb with
    | ended =>
      by_cases hfinished : ∃ entry ∈ s.history, entry.Finishes e.id
      · exact Or.inl (.complete (hupon ⟨hbefore, hfinished⟩))
      · push Not at hfinished
        exact Or.inr (hupon ⟨hbefore, hfinished⟩)
    | reset code => exact Or.inl (.resetByPeer code (hupon hbefore))
  · exact (ht id hbefore).imp (fun hruns => hruns.removed hid rfl)
      (Or.imp_left fun hdeparted => hdeparted.later hgrowth.suffix)

theorem Transition.tracked (h : Transition w s s') (hi : s.Intact) (hn : s.Numbered) (ht : s.Tracked w.may)
    (hl : s'.lost = false) : s'.Tracked w.may := by
  have hlines : ∀ {h h' : History}, h.Extends Entry.IsPlainLine h' → h.Extends (fun e => e.opening = none) h' :=
    fun hh => hh.imp fun _ he => he.unnumbered.1
  cases h with
  | close h => exact (h.tracked hi hn ht).of_same rfl (.cons rfl .refl)
  | lose => exact Bool.noConfusion hl
  | clear hlost => exact Bool.noConfusion (hlost.symm.trans hl)
  | gate => exact ht
  | atomic h =>
    cases h with
    | turn h => exact h.tracked hi hn ht
    | conclude hs he hopen hv hb hh => exact ht.conclude hb hh _
    | queue request =>
      refine ht.of_kept (fun id hruns => ?_) .refl
      obtain ⟨e, he, hid, hopen⟩ := hruns
      exact ⟨e, List.mem_append_left _ he, hid, hopen⟩
    | leave id hclosed =>
      refine ht.of_kept (fun other hruns => hruns.removed (fun hid => ?_) rfl) .refl
      obtain ⟨e, he, hother, hopen⟩ := hruns
      exact hopen (hclosed e he (hother.trans hid))
    | @report x registry hd hx =>
      intro id hsent
      by_cases hid : id = x.id
      · exact Or.inr (Or.inr (hid ▸ hd))
      · refine (ht id hsent).imp_left fun ⟨e, he, hother, hopen⟩ => ⟨e, ?_, hother, hopen⟩
        have hstays := Registry.mem_remove_of_ne he (hother ▸ hid)
        rw [hx] at hstays
        exact hstays
    | dismiss _ hlost => exact Bool.noConfusion (hlost.symm.trans hl)
    | lines hh => exact ht.of_same rfl (hlines hh)
    | refuse _ _ _ hh => exact ht.of_same rfl (.cons rfl (hlines hh))
    | stray id bytes length _ _ hh =>
      have hdispatched :
          s.history.Extends (fun e => e.opening = none) (.dispatched ⟨id, .data bytes length⟩ :: s.history) :=
        .cons rfl .refl
      exact ht.of_same rfl (.cons rfl (hdispatched.trans (hlines hh)))
    | notify | observe | hold | drift | stop | drop | acknowledged | certified | drain | blame =>
      exact ht.of_same rfl .refl
    | inline | twice | pass | receive | write | farewell | ask | announce => exact ht.of_same rfl (.cons rfl .refl)
    | establish => exact ht.of_same rfl (.cons rfl (.cons rfl .refl))

/-- As long as the connection is not lost it keeps track of its exchanges. -/
theorem Transitions.tracked (h : Transitions w s s') (hi : s.Intact) (hn : s.Numbered) (ht : s.Tracked w.may)
    (hl : s'.lost = false) : s'.Tracked w.may := by
  induction h with
  | refl => exact ht
  | tail hbefore hlast ih =>
    -- A loss is for good, so a connection that is not lost at the end was not lost on the way.
    have hopen : ∀ {b : Bool}, b = false ↔ ¬b = true := fun {b} => (Bool.not_eq_true b).symm ▸ Iff.rfl
    exact hlast.tracked (Transitions.intact hbefore hi) (Transitions.numbered hbefore hi hn)
      (ih (hopen.2 fun hlost => hopen.1 hl (hlast.lost hlost))) hl

omit [Codec κ] [Transport τ] in
theorem Created.tracked (h : Created s) : s.Tracked may := by
  rintro id ⟨fields, last, hm⟩
  rw [h.fields.2.2.2.1] at hm
  exact absurd hm List.not_mem_nil

/-! What the peer counts. -/

omit [Codec κ] [Transport τ] in
/-- Exchanges that the peer counts as open run here, but for those that were cut short. -/
theorem Tracked.length_le (ht : s.Tracked may) (hi : s.Intact) (hn : s.Numbered) {ids : List UInt32}
    (hdistinct : ids.Nodup)
    (hopen : ∀ id ∈ ids, s.history.HeadSent id ∧ ¬s.history.Terminated id ∧ ¬may (.streamClosed id)) :
    ∃ cut : List UInt32, cut.Sublist ids ∧ (∀ id ∈ cut, s.history.CutShort id) ∧
      ids.length ≤ s.registry.active + cut.length := by
  classical
  let running := (s.registry.entries.filter (·.admitted)).map (·.id)
  have hrunning : ∀ id ∈ ids.filter fun id => !decide (s.history.CutShort id), id ∈ running := by
    intro id hid
    obtain ⟨hmem, hnot⟩ := List.mem_filter.1 hid
    rw [Bool.not_eq_true', decide_eq_false_iff_not] at hnot
    obtain ⟨hsent, hlives, hmay⟩ := hopen id hmem
    obtain ⟨e, he, rfl, -⟩ := (ht id hsent).resolve_right fun hgone => hgone.elim (fun hd => hd.elim hlives hnot) hmay
    refine List.mem_map_of_mem (List.mem_filter.2 ⟨he, ?_⟩)
    by_contra hwaits
    have hopened : e.id ∈ s.opened := List.mem_map_of_mem (f := Prod.fst) (History.headSent_iff.1 hsent)
    have hbelow := hn.waitingIds e.key (Registry.key_mem he) (Bool.not_eq_true _ ▸ hwaits) e.id hopened
    exact UInt32.lt_irrefl _ hbelow
  have hcount : running.length = s.registry.active := by
    rw [hi.ordered.coherent.counted, List.countP_eq_length_filter, List.length_map]
  have hrest := (List.subperm_of_subset (hdistinct.filter _) hrunning).length_le
  have hsplit := List.length_eq_length_filter_add (l := ids) fun id => decide (s.history.CutShort id)
  refine ⟨ids.filter fun id => decide (s.history.CutShort id), List.filter_sublist, ?_, ?_⟩
  · exact fun id hid => of_decide_eq_true (List.mem_filter.1 hid).2
  · omega

/-! An exchange that is cut short leaves in silence. -/

omit [Codec κ] [Transport τ] in
def Gone (id : UInt32) (s : Session κ τ ω σ) : Prop := id < s.nextId ∧ ∀ x ∈ s.inPlay, x.id ≠ id

/-- What has gone stays away, and no reset is sent for it. -/
theorem Takes.gone (h : Takes s x u act) (hi : s.Intact) (hg : s.Gone id) :
    Gone id (u.turned (act u.metadata (u.turnOf x))) ∧
      s.history.Extends (Entry.NoReset id) (act u.metadata (u.turnOf x)).history := by
  obtain ⟨hplay, -, htidy, hnext, -⟩ := h.before hi
  have hcontinues := h.prompt.continues
  have hne : x.id ≠ id := hg.2 x h.mem
  refine ⟨⟨hnext ▸ hg.1, fun y hy => ?_⟩, ?_⟩
  · rcases (mem_inPlay_turned htidy (h.mem_before hi) hcontinues.ticket).1 hy with rfl | ⟨hy, -⟩
    · rw [hcontinues.id]
      exact hne
    · exact hg.2 y (hplay ▸ hy)
  · have hturn := hcontinues.history.imp fun e (he : e.OfTurn x.id) => he.noReset hne
    refine History.Extends.trans ?_ hturn
    cases h with
    | start => exact .cons nofun (.cons nofun .refl)
    | head | data => exact .cons nofun .refl
    | window => exact .refl

theorem Transition.gone (h : Transition w s s') (hi : s.Intact) (hg : s.Gone id) :
    s'.Gone id ∧ s.history.Extends (Entry.NoReset id) s'.history := by
  have hstays : s'.Gone id := by
    constructor
    · rcases h.nextId with hsame | ⟨hopen, hnext⟩
      · exact hsame ▸ hg.1
      · exact hnext ▸ UInt32.lt_trans hg.1 (nextId_lt_next hopen)
    · intro y hy
      rcases h.inPlay_cases with hfewer | ⟨request, hopen, rfl⟩ | ⟨x, u, act, htakes, hplay, -⟩
      · exact hg.2 y (hfewer y hy)
      · rcases List.mem_cons.1 ((inPlay_queued request s).mem_iff.1 hy) with rfl | hy
        · exact (UInt32.ne_of_lt hg.1).symm
        · exact hg.2 y hy
      · exact (htakes.gone hi hg).1.2 y (hplay ▸ hy)
  refine ⟨hstays, ?_⟩
  have hlines : ∀ {h h' : History}, h.Extends Entry.IsPlainLine h' → h.Extends (Entry.NoReset id) h' :=
    fun hh => hh.imp fun _ => Entry.IsPlainLine.noReset
  cases h with
  | close h => exact (h.gone hi hg).2.trans (.cons nofun .refl)
  | lose | clear | gate => exact .refl
  | atomic h =>
    cases h with
    | turn h => exact (h.gone hi hg).2
    | lines hh => exact hlines hh
    | refuse _ _ _ hh | dismiss _ _ _ _ _ hh => exact (hlines hh).trans (.cons nofun .refl)
    | conclude _ _ _ _ _ hh | stray _ _ _ _ _ hh =>
      exact ((History.Extends.cons nofun .refl).trans (hlines hh)).trans (.cons nofun .refl)
    | notify | observe | hold | drift | stop | drop | acknowledged | certified | drain | blame | queue | leave | report =>
      exact .refl
    | inline | twice | pass | receive | write | farewell | ask | announce => exact .cons nofun .refl
    | establish => exact .cons nofun (.cons nofun .refl)

theorem Transitions.gone (h : Transitions w s s') (hi : s.Intact) (hg : s.Gone id) :
    s'.Gone id ∧ s.history.Extends (Entry.NoReset id) s'.history := by
  induction h with
  | refl => exact ⟨hg, .refl⟩
  | tail hbefore hlast ih =>
    obtain ⟨hgone, hh⟩ := hlast.gone (Transitions.intact hbefore hi) ih.1
    exact ⟨hgone, ih.2.trans hh⟩

theorem cut_short {r : Reaction κ τ ω σ} (h : s.Conforms w r) (hlives : s.Lives) (hs : s.Serving)
    {e : Registry.Entry Stream} (he : e ∈ s.registry.entries) (hopened : e.item.state = .opened) :
    Gone e.id ((s.enter (.dispatched ⟨e.id, .ended⟩)).handle r ⟨e.id, .ended⟩) ∧
      ((s.enter (.dispatched ⟨e.id, .ended⟩)).handle r ⟨e.id, .ended⟩).history.CutShort e.id ∧
      s.history.Extends (Entry.NoReset e.id)
        ((s.enter (.dispatched ⟨e.id, .ended⟩)).handle r ⟨e.id, .ended⟩).history := by
  obtain ⟨t₀, hmade, hlife⟩ := hlives.lives e.item (mem_inPlay_of_entry he)
  have hid : e.item.id = e.id := h.intact.ids e he
  have hsending : (s.turnOf e.item).Sending := hlife.beats.sending hmade.sending
  have hsent : s.history.HeadSent e.id := hid ▸ hsending.head.2 (hsending.running (Or.inl hopened))
  have hunfinished : ∀ entry ∈ s.history, ¬entry.Finishes e.id := fun entry hentry hfinishes =>
    hlife.rests hmade hopened (hsending.finished entry hentry (hid.symm ▸ hfinishes))
  have hnot : e.item.state ≠ .closed := by
    rw [hopened]
    exact StreamState.noConfusion
  have hv := h.intact.unanswered (mem_inPlay_of_entry he) hnot
  let outcome := e.item.outcome s.metadata .ended []
  let removed : Session κ τ ω σ := { s.enter (.dispatched ⟨e.id, .ended⟩) with registry := (s.registry.remove e.id).2 }
  obtain ⟨history, os, hlines, hfinish⟩ := finish_of_open r .ended [] hnot (s := removed) hv
  let ended := ({ removed with history } : Session κ τ ω σ).given e.item.ticket outcome
  have hplain := hlines.imp fun _ => Entry.IsStreamLine.isPlainLine
  have hended : Execution w nobody s ended := .atomic (.conclude hs he hnot hv .ended hplain)
  have hconforms := h.step hended
  have hrest := (execution_tellAll hconforms os (.settled e.item.ticket outcome)).next hconforms fun h =>
    execution_admitQueued h
  have heq : (s.enter (.dispatched ⟨e.id, .ended⟩)).handle r ⟨e.id, .ended⟩ =
      (ended.tellAll r os (.settled e.item.ticket outcome)).admitQueued r := by
    have hremove : (s.enter (.dispatched ⟨e.id, .ended⟩)).registry.remove e.id = (some e.item, removed.registry) := by
      change s.registry.remove e.id = (some e.item, (s.registry.remove e.id).2)
      rw [h.intact.ordered.coherent.remove_of_mem he]
    unfold handle concludeStream
    dsimp only
    rw [hremove]
    exact congrArg (admitQueued r) hfinish
  have hgone : ended.Gone e.id := by
    refine ⟨hid ▸ h.intact.fresh _ (mem_inPlay_of_entry he), fun x hx hsame => ?_⟩
    have hdistinct := nodup_of_subperm (map_subperm (·.id) (h.intact.inPlay_removed he)) h.intact.distinct
    exact (List.nodup_cons.1 hdistinct).1 (List.mem_map.2 ⟨x, hx, hsame.trans hid.symm⟩)
  have hcut : ended.history.CutShort e.id :=
    History.Upon.later ⟨[], s.history, rfl, hsent, hunfinished⟩ (hplain.suffix.trans (List.suffix_cons _ _))
  have hsilent : s.history.Extends (Entry.NoReset e.id) ended.history :=
    ((History.Extends.cons nofun .refl).trans (hplain.imp fun _ => Entry.IsPlainLine.noReset)).trans (.cons nofun .refl)
  obtain ⟨hgone', hh⟩ := (hrest.transitions hconforms.intact).gone hconforms.intact hgone
  rw [heq]
  exact ⟨hgone', hcut.later hh.suffix, hsilent.trans hh⟩

/-- As long as the connection is not lost, in the middle of an operation too, every exchange whose head went out runs,
or it is over for both sides, or its response was complete before its request was; unless somebody else reports it
closed. So the peer counts no more open exchanges than run, and those that were cut short. An exchange whose request is
on its way is cut short by the end of its response: it leaves, and it is not reset. -/
theorem run_departures (h₀ : Created s₀) (h : Activity may s₀ s) :
    (∀ (r : Reaction κ τ ω σ) (d : Demand τ ω), (∀ o news u, Activity may u (r.run o news u)) → may d →
      Transitions (.of may) s (s.meet r d)) ∧
    ∀ v, Transitions (.of may) s v → v.lost = false →
      (∀ id, v.history.HeadSent id →
        (∃ e ∈ v.registry.entries, e.id = id ∧ e.item.state ≠ .closed) ∨ v.history.Terminated id ∨ v.history.CutShort id ∨
          may (.streamClosed id)) ∧
      (∀ ids : List UInt32, ids.Nodup →
        (∀ id ∈ ids, v.history.HeadSent id ∧ ¬v.history.Terminated id ∧ ¬may (.streamClosed id)) →
        ∃ cut : List UInt32, cut.Sublist ids ∧ (∀ id ∈ cut, v.history.CutShort id) ∧
          ids.length ≤ v.registry.active + cut.length) ∧
      (v.closing = false → ∀ e ∈ v.registry.entries, e.item.state = .opened → ∀ r : Reaction κ τ ω σ,
        (∀ o news u, Activity may u (r.run o news u)) →
        ∀ w, w = (v.enter (.dispatched ⟨e.id, .ended⟩)).handle r ⟨e.id, .ended⟩ →
          (∀ x ∈ w.registry.entries, x.id ≠ e.id) ∧ w.history.CutShort e.id ∧
            ∀ code ret, .call (.reset e.id code ret) ∈ w.history → .call (.reset e.id code ret) ∈ v.history) := by
  have hrun := (h.execution h₀.intact).transitions h₀.intact
  have hi := hrun.intact h₀.intact
  refine ⟨fun r d hr hd => (execution_meet (.of_activity hi hr) hd).transitions hi, fun v hv hl => ?_⟩
  have hall : Transitions (.of may) s₀ v := hrun.trans hv
  have hiv := hall.intact h₀.intact
  have htracked : v.Tracked may := hall.tracked h₀.intact h₀.numbered h₀.tracked hl
  have hnumbered := hall.numbered h₀.intact h₀.numbered
  refine ⟨fun id hsent => (htracked id hsent).imp_right or_assoc.1, fun ids => htracked.length_le hiv hnumbered, ?_⟩
  -- Nobody in play has the id any more, and the record grew by no reset of it.
  intro hopen e he hstate r hr w hw
  obtain ⟨hgone, hcut, new, hnew, hsilent⟩ :=
    cut_short (.of_activity hiv hr) (Transitions.lives hall h₀.intact h₀.lives) ⟨hl, hopen⟩ he hstate
  rw [← hw] at hgone hcut hnew
  have hiw : w.Intact := by
    rw [hw]
    exact (execution_handle (.of_activity hiv hr) ⟨hl, hopen⟩ ⟨e.id, .ended⟩).intact hiv
  refine ⟨fun x hx hid => hgone.2 _ (mem_inPlay_of_entry hx) ((hiw.ids x hx).trans hid), hcut, fun code ret hm => ?_⟩
  rw [hnew] at hm
  exact (List.mem_append.1 hm).resolve_left fun hm => hsilent _ hm code ret rfl

/-- Two responses are complete, on a loop that has stopped. The first request was complete as well, the second was held
up by its window, and so is the third, which goes the same way. -/
theorem run_departures_scripted :
    ∃ (s : Session Scripted.Codec Scripted.Transport Unit Unit)
      (r : Reaction Scripted.Codec Scripted.Transport Unit Unit)
      (v w : Session Scripted.Codec Scripted.Transport Unit Unit), s.loop.stopped = true ∧
        v = s.perform r (.bytesReceived []) ∧ Transitions (.of fun d => ∀ id, d ≠ .streamClosed id) s v ∧
        v.lost = false ∧ v.registry.active = 1 ∧ v.openings = [(1, 0), (3, 0), (5, 0)] ∧
        (v.history.Terminated 1 ∨ v.history.CutShort 1) ∧
        (∃ cut : List UInt32, cut.Sublist [3, 5] ∧ (∀ id ∈ cut, v.history.CutShort id) ∧ 2 ≤ 1 + cut.length) ∧
        w = (v.enter (.dispatched ⟨5, .ended⟩)).handle r ⟨5, .ended⟩ ∧ w.history.CutShort 5 := by
  let request : Request := { url := ascii "https://example.com/", body := ascii "hello" }
  let r : Reaction Scripted.Codec Scripted.Transport Unit Unit := ⟨fun _ _ s => s⟩
  let s₀ : Session Scripted.Codec Scripted.Transport Unit Unit :=
    fresh { windows := [(3, 2), (5, 2)], arrival := .events [{ body := .settingsAcknowledged }] }
  let started := { s₀ with loop := s₀.loop.stop }.performAll r
    [.established (some {}), .bytesReceived [], .submit request, .submit request, .submit request]
  let answered : Drift Scripted.Codec Scripted.Transport Unit Unit :=
    .scripted { arrival := .events [⟨1, .ended⟩, ⟨3, .ended⟩] }
  let may (d : Demand Scripted.Transport Unit) : Prop := ∀ id, d ≠ .streamClosed id
  have hr : ∀ o news u, Activity may u (r.run o news u) := fun _ _ u => .refl u
  have hrun : Activity may s₀ (started.drift answered) :=
    ((Activity.refl s₀).stop.trans (Activity.performAll hr (fun _ _ => nofun) _)).drift answered
  obtain ⟨hops, hall⟩ := run_departures (created_fresh _) hrun
  let v := (started.drift answered).perform r (.bytesReceived [])
  have hv : Transitions (.of may) (started.drift answered) v := hops r (.operation (.bytesReceived [])) hr nofun
  have hopenings : v.openings = [(1, 0), (3, 0), (5, 0)] := by decide +kernel
  have hopen : v.lost = false ∧ v.closing = false := by decide +kernel
  have hactive : v.registry.active = 1 := by decide +kernel
  have hthird : v.registry.entries.map (fun e => (e.id, e.item.state)) = [(5, .opened)] := by decide +kernel
  have hsilent : ∀ id ∈ [3, 5], ¬((.dispatched ⟨id, .ended⟩ ∈ v.history ∧ ∃ e ∈ v.history, e.Finishes id) ∨
      v.history.any (Entry.resets id) = true) := by
    refine List.forall_mem_cons.2 ⟨?_, List.forall_mem_singleton.2 ?_⟩
    · decide +kernel
    · decide +kernel
  have hsent : ∀ id ∈ [1, 3, 5], v.history.HeadSent id := by
    intro id hid
    refine History.headSent_iff.2 (show (id, 0) ∈ v.openings from ?_)
    rw [hopenings]
    exact List.mem_map_of_mem (f := fun id => (id, (0 : Int32))) hid
  obtain ⟨hleft, hcount, hcuts⟩ := hall v hv hopen.1
  have hnot : ∀ id, ¬may (.streamClosed id) := fun id h => h id rfl
  have hfirst := (hleft 1 (hsent 1 (by decide))).resolve_left (by decide +kernel)
  have hcut := hcount [3, 5] (by decide) fun id hid =>
    ⟨hsent id (List.mem_cons_of_mem _ hid), mt History.Terminated.shows (hsilent id hid), hnot id⟩
  rw [hactive] at hcut
  obtain ⟨e, he, heq⟩ := List.mem_map.1 (hthird ▸ List.mem_singleton_self (5, StreamState.opened))
  obtain ⟨hid, hstate⟩ := Prod.mk.inj heq
  obtain ⟨-, hgoes, -⟩ := hcuts hopen.2 e he hstate r hr _ rfl
  rw [hid] at hgoes
  have hstopped : (started.drift answered).loop.stopped = true := by decide +kernel
  exact ⟨started.drift answered, r, v, _, hstopped, rfl, hv, hopen.1, hactive, hopenings,
    hfirst.imp_right fun h => h.resolve_right (hnot 1), hcut, rfl, hgoes⟩

/-- The only exchange has left with its response, before its window let the rest of its request pass. The peer was not
told, and it has not heard the end of the request. -/
theorem departure_untold :
    ∃ (s₀ s s' : Session Scripted.Codec Scripted.Transport Unit Unit)
      (r : Reaction Scripted.Codec Scripted.Transport Unit Unit), Created s₀ ∧ Run s₀ s ∧
        s' = s.perform r (.bytesReceived []) ∧ (∃ e ∈ s.registry.entries, e.id = 1) ∧ s'.Serving ∧
        (∀ e ∈ s'.registry.entries, e.id ≠ 1) ∧ s'.registry.active = 0 ∧ s'.history.HeadSent 1 ∧
        ¬s'.history.Terminated 1 := by
  let request : Request := { url := ascii "https://example.com/", body := ascii "hello" }
  let r : Reaction Scripted.Codec Scripted.Transport Unit Unit := ⟨fun _ _ s => s⟩
  let s₀ : Session Scripted.Codec Scripted.Transport Unit Unit :=
    fresh { defaultWindow := 2, arrival := .events [{ body := .settingsAcknowledged }] }
  let started := s₀.performAll r [.established (some {}), .bytesReceived [], .submit request]
  let answered : Drift Scripted.Codec Scripted.Transport Unit Unit :=
    .scripted { arrival := .events [⟨1, .ended⟩] }
  let s := started.drift answered
  let s' := s.perform r (.bytesReceived [])
  have hrun : Run s₀ s := (run_performAll r _ s₀).tail (.drift started answered)
  have hhead : (1, 0) ∈ s'.openings := by decide +kernel
  have hsilent : ¬((.dispatched ⟨1, .ended⟩ ∈ s'.history ∧ ∃ e ∈ s'.history, e.Finishes 1) ∨
      s'.history.any (Entry.resets 1) = true) := by decide +kernel
  have hstanding : s'.lost = false ∧ s'.closing = false := by decide +kernel
  have hbefore : s.registry.entries.map (·.id) = [1] := by decide +kernel
  have hafter : s'.registry.entries = [] ∧ s'.registry.active = 0 := by decide +kernel
  have hgone : ∀ e ∈ s'.registry.entries, e.id ≠ 1 := by
    rw [hafter.1]
    exact fun e he => absurd he List.not_mem_nil
  exact ⟨s₀, s, s', r, created_fresh _, hrun, rfl, List.mem_map.1 (hbefore ▸ List.mem_singleton_self 1), hstanding, hgone,
    hafter.2, History.headSent_iff.2 hhead, mt History.Terminated.shows hsilent⟩

end Session

end Multiplex
