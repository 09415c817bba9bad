import Multiplex.Proofs.Transition

/-! What holds in the middle of an operation too, when observers are told at once. A registered exchange that has not
ended stands where its entry says and has not been answered; one that has ended never takes a turn that does more than
write a line. -/
namespace Multiplex

open Bytes Wire

namespace Turn

variable {κ : Type} [Codec κ] {m : Metadata} {d : Direction} {t t' : Turn κ}

structure Idles (t t' : Turn κ) : Prop where
  stream : t'.stream = t.stream
  codec : t'.codec = t.codec
  ending : t'.ending = t.ending
  history : t.history.Extends Entry.IsStreamLine t'.history

omit [Codec κ] in
theorem idles_note (t : Turn κ) (level : Log.Level) (message : Bytes) : t.Idles (t.note level message) :=
  ⟨rfl, rfl, rfl, .cons ⟨_, rfl, rfl⟩ .refl⟩

theorem Step.idles (h : Step m d t t') (hs : t.stream.state = .closed) : t.Idles t' := by
  cases h with
  | note => exact idles_note t _ _
  | piece hopen | complete hopen => exact StreamState.noConfusion (hs.symm.trans hopen)
  | absorb _ hopen | headReceived hopen | expect _ hopen | warned hopen | append _ hopen | acknowledge _ hopen
  | reset _ hopen | close _ _ hopen => exact absurd hs hopen

theorem Steps.idles (h : Steps m d t t') (hs : t.stream.state = .closed) : t.Idles t' := by
  induction h with
  | refl => exact ⟨rfl, rfl, rfl, .refl⟩
  | tail _ hstep ih =>
    have hnext := hstep.idles (ih.stream.symm ▸ hs)
    exact ⟨hnext.stream.trans ih.stream, hnext.codec.trans ih.codec, hnext.ending.trans ih.ending,
      ih.history.trans hnext.history⟩

end Turn

namespace Session

variable {κ τ ω σ : Type} {s s' u v : Session κ τ ω σ} {x y : Stream} {ticket : Ticket} {i : UInt32}

structure Intact (s : Session κ τ ω σ) : Prop extends Tidy s where
  ordered : s.registry.Ordered
  placed : ∀ e ∈ s.registry.entries, e.item.state = .closed ∨ e.item.Fits e.admitted
  aside : ∀ x ∈ s.detached, x.state = .closed ∨ ∃ admitted, x.Fits admitted
  owed : ∀ x ∈ s.inPlay, x.state = .closed ∨ s.values[x.ticket]? = some none

/-- Whoever has this id has ended, and nobody gets it again. -/
def Spent (i : UInt32) (s : Session κ τ ω σ) : Prop := i < s.nextId ∧ ∀ x ∈ s.inPlay, x.id = i → x.state = .closed

namespace Intact

theorem fits (h : s.Intact) (hx : x ∈ s.inPlay) : x.state = .closed ∨ ∃ admitted, x.Fits admitted := by
  rcases List.mem_append.1 hx with hx | hx
  · obtain ⟨e, he, rfl⟩ := List.mem_map.1 hx
    exact (h.placed e he).imp_right fun hfit => ⟨_, hfit⟩
  · exact h.aside x hx

theorem unanswered (h : s.Intact) (hx : x ∈ s.inPlay) (hopen : x.state ≠ .closed) : s.values[x.ticket]? = some none :=
  (h.owed x hx).resolve_left hopen

theorem entry (h : s.Intact) {e : Registry.Entry Stream} (he : e ∈ s.registry.entries) (hx : x ∈ s.inPlay)
    (ht : e.item.ticket = x.ticket) : e.item = x := h.eq_of_ticket (mem_inPlay_of_entry he) hx ht

theorem of_same (h : s.Intact) (hregistry : s'.registry = s.registry) (hdetached : s'.detached = s.detached)
    (hnext : s'.nextId = s.nextId) (hvalues : s'.values = s.values) : s'.Intact := by
  have hplay : s'.inPlay = s.inPlay :=
    congrArg₂ (fun registry detached => registry.snapshot ++ detached) hregistry hdetached
  have hlength : s'.completions.length = s.completions.length := by
    rw [← length_values, hvalues, length_values]
  refine ⟨h.toTidy.of_same hregistry hdetached hnext hlength, ?_, ?_, ?_, ?_⟩
  · rw [hregistry]
    exact h.ordered
  · rw [hregistry]
    exact h.placed
  · rw [hdetached]
    exact h.aside
  · rw [hplay, hvalues]
    exact h.owed

theorem of_fewer (h : s.Intact) {registry : Registry Stream} {detached : List Stream} (hordered : registry.Ordered)
    (hentries : ∀ e ∈ registry.entries, e ∈ s.registry.entries) (hdetached : ∀ x ∈ detached, x ∈ s.inPlay)
    (hplay : (registry.snapshot ++ detached).Subperm s.inPlay) :
    ({ s with registry, detached } : Session κ τ ω σ).Intact := by
  have hclerical : Clerical s { s with registry, detached } :=
    ⟨fun y hy => ⟨y, hentries y hy, rfl, rfl⟩, hplay, rfl, ⟨0, (List.append_nil _).symm⟩, fun h => h, .refl⟩
  exact ⟨hclerical.tidy h.toTidy, hordered, fun e he => h.placed e (hentries e he), fun x hx => h.fits (hdetached x hx),
    fun x hx => h.owed x (hplay.subset hx)⟩

theorem removed (h : s.Intact) (id : UInt32) :
    ({ s with registry := (s.registry.remove id).2 } : Session κ τ ω σ).Intact := by
  cases hremove : s.registry.remove id with
  | mk found registry =>
    cases found with
    | none =>
      have hsame : registry = s.registry := by
        have hnone : (s.registry.remove id).1 = none := congrArg Prod.fst hremove
        rw [← Registry.remove_eq_self_of_none hnone, hremove]
      rw [hsame]
      exact h
    | some x =>
      obtain ⟨e, he, hid, -⟩ := Registry.mem_of_remove hremove
      have hordered := h.ordered.remove he
      rw [hid, hremove] at hordered
      have hsub := Registry.entries_remove s.registry id
      rw [hremove] at hsub
      exact h.of_fewer hordered (fun e he => hsub.subset he) (fun x hx => List.mem_append_right _ hx)
        (clerical_remove hremove).inPlay

theorem cleared (h : s.Intact) : ({ s with registry := s.registry.clear } : Session κ τ ω σ).Intact :=
  h.of_fewer Registry.Ordered.empty (fun _ he => absurd he List.not_mem_nil)
    (fun _ hx => List.mem_append_right _ hx) (clerical_clear s).inPlay

theorem given (h : s.Intact) (hdone : ∀ x ∈ s.inPlay, x.ticket = ticket → x.state = .closed) (outcome : Outcome) :
    (s.given ticket outcome).Intact where
  toTidy := h.toTidy.of_same rfl rfl rfl List.length_set
  ordered := h.ordered
  placed := h.placed
  aside := h.aside
  owed := by
    intro x hx
    by_cases ht : x.ticket = ticket
    · exact Or.inl (hdone x hx ht)
    · have hvalues : (s.given ticket outcome).values = s.values.set ticket (some outcome) := List.map_set
      rw [hvalues, List.getElem?_set_ne (Ne.symm ht)]
      exact h.owed x hx

theorem queued (h : s.Intact) (request : Request) (hopen : s.refusal = none) : (s.queued request).Intact where
  toTidy := h.toTidy.queued request hopen
  ordered := h.ordered.enqueue rfl fun _ he => h.above he
  placed := by
    intro e he
    rcases List.mem_append.1 he with he | he
    · exact h.placed e he
    · rw [List.mem_singleton.1 he]
      exact Or.inr ⟨rfl, rfl⟩
  aside := h.aside
  owed := by
    have hvalues : (s.queued request).values = s.values ++ [none] := List.map_append
    intro x hx
    rw [hvalues]
    rcases List.mem_cons.1 ((inPlay_queued request s).mem_iff.1 hx) with rfl | hx
    · refine Or.inr ?_
      rw [show (s.newcomer request).ticket = s.values.length from (length_values s).symm]
      exact List.getElem?_concat_length
    · refine (h.owed x hx).imp_right fun hopen => ?_
      rw [List.getElem?_append_left (List.getElem?_eq_some_iff.1 hopen).1]
      exact hopen

end Intact

/-! Whom a transition answers. -/

theorem values_observe {c : Completion ω Outcome} (observers : List ω) (hc : s.completions[ticket]? = some c) :
    ({ s with completions := s.completions.set ticket { c with observers } } : Session κ τ ω σ).values = s.values :=
  values_set_same hc rfl

theorem values_given (ticket : Ticket) (outcome : Outcome) (s : Session κ τ ω σ) :
    (s.given ticket outcome).values = s.values.set ticket (some outcome) := List.map_set

theorem values_given_of_ne {other : Ticket} (hne : ticket ≠ other) (outcome : Outcome) (s : Session κ τ ω σ) :
    (s.given other outcome).values[ticket]? = s.values[ticket]? := by
  rw [values_given, List.getElem?_set_ne (Ne.symm hne)]

theorem values_issued_of_lt (hlt : ticket < s.completions.length) {history : History} :
    ({ s.issueTicket.2 with history } : Session κ τ ω σ).values[ticket]? = s.values[ticket]? := by
  have hvalues : ({ s.issueTicket.2 with history } : Session κ τ ω σ).values = s.values ++ [none] := List.map_append
  rw [hvalues, List.getElem?_append_left (by rwa [length_values])]

variable [Codec κ] [Transport τ]

namespace Takes

variable {act : Metadata → Turn κ → Turn κ}

theorem prompt (h : Takes s x u act) : u.Prompt x act := by
  cases h with
  | start => exact .start _ _ _ _ rfl
  | head fields => exact .head fields _ rfl
  | data bytes length => exact .data bytes length _ rfl
  | window => exact .window

theorem mem (h : Takes s x u act) : x ∈ s.inPlay := by
  cases h with
  | start _ _ he => exact mem_inPlay_of_entry he
  | head _ _ hx | data _ _ _ hx => exact List.mem_append_left _ hx
  | window hx _ => exact hx

theorem before (h : Takes s x u act) (hi : s.Intact) : u.inPlay = s.inPlay ∧ u.registry.Ordered ∧ u.Tidy ∧
    u.nextId = s.nextId ∧ u.detached = s.detached ∧ u.values = s.values := by
  cases h with
  | @start e rest hcan hp he =>
    obtain ⟨f, hf, hmap⟩ : ∃ f : Registry.Entry Stream → Registry.Entry Stream,
        (∀ y, (f y).id = y.id ∧ (f y).item = y.item) ∧
          (s.popped e rest).registry.entries = s.registry.entries.map f := by
      refine ⟨fun y => if y.id == e.id then { y with admitted := true } else y, fun y => ?_, rfl⟩
      dsimp only
      split <;> exact ⟨rfl, rfl⟩
    have hsnapshot : (s.popped e rest).registry.snapshot = s.registry.snapshot := by
      unfold Registry.snapshot
      rw [hmap, List.map_map]
      exact List.map_congr_left fun y _ => (hf y).2
    have hplay : (s.popped e rest).inPlay = s.inPlay := congrArg (· ++ s.detached) hsnapshot
    refine ⟨hplay, hi.ordered.markAdmitted hp, ?_, rfl, rfl, rfl⟩
    constructor
    · intro y hy
      obtain ⟨z, hz, rfl⟩ := List.mem_map.1 (hmap ▸ hy)
      rw [(hf z).1, (hf z).2]
      exact hi.ids z hz
    · rw [hplay]
      exact hi.tickets
    · rw [hplay]
      exact hi.distinct
    · rw [hplay]
      exact hi.fresh
    · rw [hplay]
      exact hi.issued
  | head | data =>
    exact ⟨rfl, hi.ordered, hi.toTidy.of_same rfl rfl rfl rfl, rfl, rfl, rfl⟩
  | window => exact ⟨rfl, hi.ordered, hi.toTidy, rfl, rfl, rfl⟩

theorem others (h : Takes s x u act) (hi : s.Intact) {e : Registry.Entry Stream} (he : e ∈ u.registry.entries)
    (hne : e.item.ticket ≠ x.ticket) : e.item.state = .closed ∨ e.item.Fits e.admitted := by
  cases h with
  | @start first rest hcan hp hfirst =>
    obtain ⟨y, hy, rfl⟩ := List.mem_map.1 he
    split
    · rename_i heq
      obtain rfl := hi.ordered.coherent.eq_of_id_eq hy hfirst (beq_iff_eq.1 heq)
      rw [if_pos heq] at hne
      exact absurd rfl hne
    · exact hi.placed y hy
  | head | data | window => exact hi.placed e he

theorem mem_before (h : Takes s x u act) (hi : s.Intact) : x ∈ u.inPlay := (h.before hi).1 ▸ h.mem

theorem idles (h : Takes s x u act) (hs : x.state = .closed) :
    (u.turnOf x).Idles (act u.metadata (u.turnOf x)) := by
  cases h with
  | @start e rest =>
    have hnot : e.item.state ≠ .pending := by
      rw [hs]
      exact StreamState.noConfusion
    rw [show Turn.initiate _ ((s.popped e rest).turnOf e.item) = Turn.warnStray _ _ from if_pos hnot]
    exact Turn.idles_note _ _ _
  | head fields => exact (Turn.steps_receiveHeaders _ fields).idles hs
  | data bytes length => exact (Turn.steps_receiveData _ bytes length).idles hs
  | window => exact (Turn.steps_receiveWindowUpdate _).idles hs

theorem sound (h : Takes s x u act) (hi : s.Intact) (hopen : x.state ≠ .closed) :
    ∃ admitted, (act u.metadata (u.turnOf x)).Sound admitted ∧
      ∀ e ∈ u.registry.entries, e.item.ticket = x.ticket → e.admitted = admitted := by
  obtain ⟨admitted, hfit⟩ := (hi.fits h.mem).resolve_left hopen
  have hsame : ∀ e ∈ s.registry.entries, e.item.ticket = x.ticket → e.admitted = admitted := by
    intro e he ht
    obtain rfl := hi.entry he h.mem ht
    rw [← ((hi.placed e he).resolve_left hopen).1, hfit.1]
  cases h with
  | @start e rest hcan hp he =>
    obtain ⟨y, hy, hid, hwaits, -⟩ := hi.ordered.coherent.admitNext_of_cons hp
    obtain rfl := hi.ordered.coherent.eq_of_id_eq hy he hid
    refine ⟨true, Turn.sound_initiate rfl (hwaits ▸ (hi.placed y hy).resolve_left hopen), fun z hz ht => ?_⟩
    obtain ⟨z, hz', rfl⟩ := List.mem_map.1 hz
    split
    · rfl
    · rename_i hne
      rw [if_neg hne] at ht
      refine absurd (beq_iff_eq.2 ?_) hne
      rw [← hi.ids z hz', hi.entry hz' (mem_inPlay_of_entry hy) ht, hi.ids y hy]
  | head fields => exact ⟨admitted, (Turn.steps_receiveHeaders _ fields).sound (Turn.sound_of_fits rfl hfit), hsame⟩
  | data bytes length =>
    exact ⟨admitted, (Turn.steps_receiveData _ bytes length).sound (Turn.sound_of_fits rfl hfit), hsame⟩
  | window => exact ⟨admitted, (Turn.steps_receiveWindowUpdate _).sound (Turn.sound_of_fits rfl hfit), hsame⟩

theorem open_of_none (h : Takes s x u act) (hi : s.Intact) (hopen : x.state ≠ .closed)
    (he : (act u.metadata (u.turnOf x)).ending = none) : (act u.metadata (u.turnOf x)).stream.state ≠ .closed := by
  obtain ⟨admitted, hsound, -⟩ := h.sound hi hopen
  unfold Turn.Sound at hsound
  rw [he] at hsound
  exact hsound.not_closed

theorem closed_of_some (h : Takes s x u act) {e : Ending} (he : (act u.metadata (u.turnOf x)).ending = some e) :
    (act u.metadata (u.turnOf x)).stream.state = .closed := (h.prompt.accounts e he).1

theorem not_closed_of_some (h : Takes s x u act) {e : Ending} (he : (act u.metadata (u.turnOf x)).ending = some e) :
    x.state ≠ .closed := by
  intro hs
  have hnone : (act u.metadata (u.turnOf x)).ending = none := (h.idles hs).ending
  exact Option.some_ne_none e (he.symm.trans hnone)

theorem fits (h : Takes s x u act) (hi : s.Intact) : (act u.metadata (u.turnOf x)).stream.state = .closed ∨
    ∃ admitted, (act u.metadata (u.turnOf x)).stream.Fits admitted ∧
      ∀ e ∈ u.registry.entries, e.item.ticket = x.ticket → e.admitted = admitted := by
  by_cases hs : x.state = .closed
  · rw [(h.idles hs).stream]
    exact Or.inl hs
  · obtain ⟨admitted, hsound, hsame⟩ := h.sound hi hs
    unfold Turn.Sound at hsound
    split at hsound
    · exact Or.inr ⟨admitted, hsound, hsame⟩
    · exact Or.inl hsound.1

theorem intact (h : Takes s x u act) (hi : s.Intact) : (u.turned (act u.metadata (u.turnOf x))).Intact := by
  obtain ⟨hplay, hordered, htidy, hnext, hdetached, hvalues⟩ := h.before hi
  have hx := h.mem_before hi
  have hcontinues := h.prompt.continues
  refine ⟨htidy.turned hx hcontinues.id hcontinues.ticket, ?_, ?_, ?_, ?_⟩
  case refine_1 =>
    have hsame : ∀ e ∈ u.registry.entries,
        (e.item.ticket == (act u.metadata (u.turnOf x)).stream.ticket) = true →
          e.id = (act u.metadata (u.turnOf x)).stream.id := by
      intro e he hp
      rw [← hordered.ids e he, hcontinues.id]
      refine congrArg Stream.id (htidy.eq_of_ticket (mem_inPlay_of_entry he) hx ?_)
      exact (beq_iff_eq.1 hp).trans hcontinues.ticket
    exact hordered.replace (p := (·.ticket == (act u.metadata (u.turnOf x)).stream.ticket)) hsame
  case refine_2 =>
    intro e he
    obtain ⟨y, hy, rfl⟩ := List.mem_map.1 he
    split
    · rename_i hp
      refine (h.fits hi).imp_right fun ⟨admitted, hfit, hsame⟩ => ?_
      rwa [hsame y hy ((beq_iff_eq.1 hp).trans hcontinues.ticket)]
    · rename_i hp
      exact h.others hi hy fun ht => hp (beq_iff_eq.2 (ht.trans hcontinues.ticket.symm))
  case refine_3 =>
    intro z hz
    obtain ⟨y, hy, rfl⟩ := List.mem_map.1 hz
    split
    · exact (h.fits hi).imp_right fun ⟨admitted, hfit, _⟩ => ⟨admitted, hfit⟩
    · exact hi.aside y (hdetached ▸ hy)
  case refine_4 =>
    intro z hz
    change z.state = .closed ∨ u.values[z.ticket]? = some none
    rw [hvalues]
    rcases (mem_inPlay_turned htidy hx hcontinues.ticket).1 hz with rfl | ⟨hz, -⟩
    · rw [hcontinues.ticket]
      refine (hi.owed x h.mem).imp_left fun hs => ?_
      rw [(h.idles hs).stream]
      exact hs
    · exact hi.owed z (hplay ▸ hz)

theorem spent (h : Takes s x u act) (hi : s.Intact) (hs : s.Spent i) :
    (u.turned (act u.metadata (u.turnOf x))).Spent i := by
  obtain ⟨hplay, -, htidy, hnext, -⟩ := h.before hi
  have hcontinues := h.prompt.continues
  refine ⟨hnext ▸ hs.1, fun y hy hid => ?_⟩
  rcases (mem_inPlay_turned htidy (h.mem_before hi) hcontinues.ticket).1 hy with rfl | ⟨hy, -⟩
  · have hclosed := hs.2 x h.mem (hcontinues.id.symm.trans hid)
    rw [(h.idles hclosed).stream]
    exact hclosed
  · exact hs.2 y (hplay ▸ hy) hid

theorem intact_given (h : Takes s x u act) (hi : s.Intact) {e : Ending}
    (he : (act u.metadata (u.turnOf x)).ending = some e) :
    ((u.turned (act u.metadata (u.turnOf x))).given x.ticket e.outcome).Intact := by
  have hturned := h.intact hi
  obtain ⟨-, -, htidy, -⟩ := h.before hi
  have hcontinues := h.prompt.continues
  refine hturned.given (fun y hy ht => ?_) e.outcome
  rcases (mem_inPlay_turned htidy (h.mem_before hi) hcontinues.ticket).1 hy with rfl | ⟨hy, hne⟩
  · exact h.closed_of_some he
  · exact absurd (htidy.eq_of_ticket hy (h.mem_before hi) ht) hne

theorem spent_own (h : Takes s x u act) (hi : s.Intact) {e : Ending}
    (he : (act u.metadata (u.turnOf x)).ending = some e) : (u.turned (act u.metadata (u.turnOf x))).Spent x.id := by
  obtain ⟨hplay, -, htidy, hnext, -⟩ := h.before hi
  have hcontinues := h.prompt.continues
  refine ⟨hnext ▸ hi.fresh x h.mem, fun y hy hid => ?_⟩
  rcases (mem_inPlay_turned htidy (h.mem_before hi) hcontinues.ticket).1 hy with rfl | ⟨hy, hne⟩
  · exact h.closed_of_some he
  · exact absurd (htidy.eq_of_id hy (h.mem_before hi) hid) hne

end Takes

variable {w : Surroundings κ τ ω σ} {left : Stream → Prop}

omit [Codec κ] [Transport τ] in
theorem Intact.inPlay_removed (hi : s.Intact) {e : Registry.Entry Stream} (he : e ∈ s.registry.entries) :
    (e.item :: ({ s with registry := (s.registry.remove e.id).2 } : Session κ τ ω σ).inPlay).Subperm s.inPlay := by
  have hremove : s.registry.remove e.id = (some e.item, (s.registry.remove e.id).2) := by
    rw [hi.ordered.coherent.remove_of_mem he]
  exact (Registry.snapshot_remove hremove).append (List.Subperm.refl s.detached)

structure Surroundings.Within (w w' : Surroundings κ τ ω σ) : Prop where
  may : ∀ d, w.may d → w'.may d
  around : ∀ s d, w.around s d → w'.around s d
  stops : w.stops → w'.stops

omit [Codec κ] [Transport τ] in
theorem Surroundings.Within.refl (w : Surroundings κ τ ω σ) : w.Within w := ⟨fun _ h => h, fun _ _ h => h, fun h => h⟩

theorem Atomic.imp {w' : Surroundings κ τ ω σ} {left' : Stream → Prop} (h : Atomic w left s s') (hw : w.Within w')
    (hleft : ∀ x, left x → left' x) : Atomic w' left' s s' := by
  cases h with
  | lines h => exact .lines h
  | inline message h => exact .inline message h
  | twice hl hc hf => exact .twice hl hc hf
  | notify notices h => exact .notify notices h
  | observe observers hc => exact .observe observers hc
  | hold held => exact .hold s held
  | drift d h => exact .drift d (hw.around _ d h)
  | stop h => exact .stop s (hw.stops h)
  | queue request hd h => exact .queue request (hw.may _ hd) h
  | refuse request hd h hh => exact .refuse request (hw.may _ hd) h hh
  | turn h he => exact .turn h he
  | leave id h => exact .leave id h
  | report hd hx hopen => exact .report (hw.may _ hd) hx hopen
  | drop ticket => exact .drop s ticket
  | conclude hs he hopen hv hb hh => exact .conclude hs he hopen hv hb hh
  | pass event hs h => exact .pass event hs h
  | stray id bytes length hs hn hh => exact .stray id bytes length hs hn hh
  | acknowledged hs => exact .acknowledged hs
  | certified certificate hs => exact .certified certificate hs
  | receive data hd hs => exact .receive data (hw.may _ hd) hs
  | drain h => exact .drain h
  | write hout ht hl => exact .write hout ht hl
  | establish t hd hl => exact .establish t (hw.may _ hd) hl
  | farewell code hs => exact .farewell code hs
  | blame fault hl hc => exact .blame fault hl hc
  | ask fault hs ht => exact .ask fault hs ht
  | announce hl hc hf => exact .announce hl hc hf
  | dismiss hx hl hr hopen hv hh => exact .dismiss (hleft _ hx) hl hr hopen hv hh

theorem Transition.imp {w' : Surroundings κ τ ω σ} (h : Transition w s s') (hw : w.Within w') : Transition w' s s' := by
  cases h with
  | atomic h => exact .atomic (h.imp hw fun _ h => h)
  | close h hopen hv he => exact .close h hopen hv he
  | lose transport cause hl ht => exact .lose transport cause hl ht
  | clear hl => exact .clear hl
  | gate admitting => exact .gate _ admitting

omit [Codec κ] [Transport τ] in
theorem Surroundings.within_any (w : Surroundings κ τ ω σ) : w.Within .any :=
  ⟨fun _ _ => trivial, fun _ _ _ => trivial, fun _ => trivial⟩

theorem Transitions.any (h : Transitions w s s') : Transitions .any s s' :=
  Relation.ReflTransGen.mono (fun _ _ h => h.imp w.within_any) _ _ h

theorem Atomic.intact (h : Atomic w left s s') (hi : s.Intact) : s'.Intact := by
  cases h with
  | lines | inline | twice | notify | hold | drift | stop | pass | stray | acknowledged | certified | receive
  | drain | write | establish | farewell | blame | ask | announce => exact hi.of_same rfl rfl rfl rfl
  | observe observers hc => exact hi.of_same rfl rfl rfl (values_observe observers hc)
  | queue request _ hopen => exact hi.queued request hopen
  | @refuse request cause history hd hrefusal hh =>
    have hissued : ({ s.issueTicket.2 with history } : Session κ τ ω σ).Intact := by
      have hvalues : ({ s.issueTicket.2 with history } : Session κ τ ω σ).values = s.values ++ [none] := List.map_append
      refine ⟨?_, hi.ordered, hi.placed, hi.aside, fun x hx => (hi.owed x hx).imp_right fun hopen => ?_⟩
      · have hclerical : Clerical s { s.issueTicket.2 with history := s.history } :=
          ⟨fun y hy => ⟨y, hy, rfl, rfl⟩, .refl _, rfl, ⟨1, hvalues⟩, fun h => h, .refl⟩
        exact (hclerical.tidy hi.toTidy).of_same rfl rfl rfl rfl
      · rw [hvalues, List.getElem?_append_left (List.getElem?_eq_some_iff.1 hopen).1]
        exact hopen
    exact hissued.given (fun x hx ht => absurd ht (Nat.ne_of_lt (hi.issued x hx))) _
  | turn h => exact h.intact hi
  | leave id => exact hi.removed id
  | @report x registry hd hx hopen =>
    obtain ⟨e, he, hid, rfl⟩ := Registry.mem_of_remove hx
    have hregistry : (s.registry.remove e.id).2 = registry := by
      rw [hid, hx]
    split
    · refine hi.of_fewer (hregistry ▸ hi.ordered.remove he) (fun y hy => ?_) (fun y hy => ?_) (clerical_detach hx).inPlay
      · exact (Registry.entries_remove s.registry e.id).subset (hregistry ▸ hy)
      · rcases List.mem_append.1 hy with hy | hy
        · exact List.mem_append_right _ hy
        · rw [List.mem_singleton.1 hy]
          exact mem_inPlay_of_entry he
    · exact hregistry ▸ hi.removed e.id
  | drop ticket =>
    exact hi.of_fewer hi.ordered (fun _ he => he) (fun _ hx => List.mem_append_right _ (List.mem_of_mem_filter hx))
      ((List.Subperm.refl _).append List.filter_sublist.subperm)
  | @conclude e body reason causes history hs he hopen hv hb hh =>
    have hremoved : ({ s with registry := (s.registry.remove e.id).2, history } : Session κ τ ω σ).Intact :=
      (hi.removed e.id).of_same rfl rfl rfl rfl
    have hplay := hi.inPlay_removed he
    have hdistinct := (List.nodup_cons.1 (nodup_of_subperm (map_subperm (·.ticket) hplay) hi.tickets)).1
    exact hremoved.given (fun x hx ht => absurd (List.mem_map.2 ⟨x, hx, ht⟩) hdistinct) _
  | @dismiss x history _ hl hx hopen hv hh =>
    have hnoted : ({ s with history } : Session κ τ ω σ).Intact := hi.of_same rfl rfl rfl rfl
    exact hnoted.given (fun y hy ht => absurd ht (hx.2 y hy)) _

theorem Transition.intact (h : Transition w s s') (hi : s.Intact) : s'.Intact := by
  cases h with
  | atomic h => exact h.intact hi
  | close h _ _ he => exact h.intact_given hi he
  | lose | gate => exact hi.of_same rfl rfl rfl rfl
  | clear => exact hi.cleared

theorem Transitions.intact (h : Transitions w s s') (hi : s.Intact) : s'.Intact := by
  induction h with
  | refl => exact hi
  | tail _ hlast ih => exact hlast.intact ih

/-! What has ended, has ended. -/

omit [Codec κ] [Transport τ] in
theorem mem_inPlay_removed {id : UInt32} (hx : x ∈ ({ s with registry := (s.registry.remove id).2 } :
    Session κ τ ω σ).inPlay) : x ∈ s.inPlay := by
  rcases List.mem_append.1 hx with hx | hx
  · obtain ⟨e, he, rfl⟩ := List.mem_map.1 hx
    exact mem_inPlay_of_entry ((Registry.entries_remove s.registry id).subset he)
  · exact List.mem_append_right _ hx

theorem Takes.before_eq {act : Metadata → Turn κ → Turn κ} (h : Takes s x u act) :
    u = { s with registry := u.registry, history := u.history } := by
  cases h <;> rfl

theorem Transition.inPlay_cases (h : Transition w s s') :
    (∀ x ∈ s'.inPlay, x ∈ s.inPlay) ∨ (∃ request, s.refusal = none ∧ s' = s.queued request) ∨
      ∃ x u act, Takes s x u act ∧ s'.inPlay = (u.turned (act u.metadata (u.turnOf x))).inPlay ∧
        (u.turned (act u.metadata (u.turnOf x))).history <:+ s'.history := by
  cases h with
  | close h => exact Or.inr (Or.inr ⟨_, _, _, h, rfl, List.suffix_cons _ _⟩)
  | lose | gate => exact Or.inl fun _ hx => hx
  | clear => exact Or.inl fun _ hx => List.mem_append_right _ hx
  | atomic h =>
    cases h with
    | queue request _ hopen => exact Or.inr (Or.inl ⟨request, hopen, rfl⟩)
    | turn h => exact Or.inr (Or.inr ⟨_, _, _, h, rfl, List.suffix_rfl⟩)
    | leave | conclude => exact Or.inl fun _ hx => mem_inPlay_removed hx
    | @report x registry hd hx =>
      refine Or.inl fun y hy => ?_
      split at hy
      · exact (clerical_detach hx).inPlay.subset hy
      · exact (clerical_remove hx).inPlay.subset hy
    | drop => exact Or.inl fun y hy => ((List.Subperm.refl _).append List.filter_sublist.subperm).subset hy
    | _ => exact Or.inl fun _ hx => hx

theorem Transition.nextId (h : Transition w s s') :
    s'.nextId = s.nextId ∨ s.refusal = none ∧ s'.nextId = s.nextId + 2 := by
  cases h with
  | atomic h =>
    cases h with
    | queue _ _ hopen => exact Or.inr ⟨hopen, rfl⟩
    | turn h =>
      rw [h.before_eq]
      exact Or.inl rfl
    | _ => exact Or.inl rfl
  | close h =>
    rw [h.before_eq]
    exact Or.inl rfl
  | lose | clear | gate => exact Or.inl rfl

theorem Transition.spent (h : Transition w s s') (hi : s.Intact) (hs : s.Spent i) : s'.Spent i := by
  constructor
  · rcases h.nextId with hsame | ⟨hopen, hnext⟩
    · exact hsame ▸ hs.1
    · exact hnext ▸ UInt32.lt_trans hs.1 (nextId_lt_next hopen)
  · intro y hy hid
    rcases h.inPlay_cases with hfewer | ⟨request, hopen, rfl⟩ | ⟨x, u, act, htakes, hplay, -⟩
    · exact hs.2 y (hfewer y hy) hid
    · rcases List.mem_cons.1 ((inPlay_queued request s).mem_iff.1 hy) with rfl | hy
      · exact absurd (hid ▸ hs.1) (UInt32.lt_irrefl _)
      · exact hs.2 y hy hid
    · exact (htakes.spent hi hs).2 y (hplay ▸ hy) hid

theorem Transitions.spent (h : Transitions w s s') (hi : s.Intact) (hs : s.Spent i) : s'.Spent i := by
  induction h with
  | refl => exact hs
  | tail hbefore hlast ih => exact hlast.spent (Transitions.intact hbefore hi) ih

theorem Atomic.lost (h : Atomic w left s s') : s'.lost = s.lost := by
  cases h with
  | turn h =>
    rw [h.before_eq]
    rfl
  | _ => rfl

theorem Transition.lost (h : Transition w s s') (hl : s.lost = true) : s'.lost = true := by
  cases h with
  | atomic h => exact h.lost.trans hl
  | close h =>
    rw [h.before_eq]
    exact hl
  | lose => rfl
  | clear | gate => exact hl

theorem Transitions.lost (h : Transitions w s s') (hl : s.lost = true) : s'.lost = true := by
  induction h with
  | refl => exact hl
  | tail _ hlast ih => exact hlast.lost ih

theorem Atomic.stopped (h : Atomic w left s s') (hw : ¬w.stops) : s'.loop.stopped = s.loop.stopped := by
  cases h with
  | stop h => exact absurd h hw
  | turn h =>
    rw [h.before_eq]
    rfl
  | _ => rfl

theorem Transition.stopped (h : Transition w s s') (hw : ¬w.stops) : s'.loop.stopped = s.loop.stopped := by
  cases h with
  | atomic h => exact h.stopped hw
  | close h =>
    rw [h.before_eq]
    rfl
  | lose | clear | gate => rfl

theorem Transitions.stopped (h : Transitions w s s') (hw : ¬w.stops) : s'.loop.stopped = s.loop.stopped := by
  induction h with
  | refl => rfl
  | tail _ hlast ih => exact (hlast.stopped hw).trans ih

theorem Transition.settled (h : Transition w s s') (hl : s.lost = true) :
    s'.metadata = s.metadata ∧ s'.causes = s.causes := by
  cases h with
  | atomic h =>
    cases h with
    | certified _ hs => exact Bool.noConfusion (hl.symm.trans hs.1)
    | establish _ _ hopen | blame _ hopen => exact Bool.noConfusion (hl.symm.trans hopen)
    | ask _ hs => exact Bool.noConfusion (hl.symm.trans hs.1)
    | turn h =>
      rw [h.before_eq]
      exact ⟨rfl, rfl⟩
    | _ => exact ⟨rfl, rfl⟩
  | close h =>
    rw [h.before_eq]
    exact ⟨rfl, rfl⟩
  | lose _ _ hopen => exact Bool.noConfusion (hl.symm.trans hopen)
  | clear | gate => exact ⟨rfl, rfl⟩

theorem Transitions.settled (h : Transitions w s s') (hl : s.lost = true) :
    s'.metadata = s.metadata ∧ s'.causes = s.causes := by
  induction h with
  | refl => exact ⟨rfl, rfl⟩
  | tail hbefore hlast ih =>
    obtain ⟨hmetadata, hcauses⟩ := hlast.settled (Transitions.lost hbefore hl)
    exact ⟨hmetadata.trans ih.1, hcauses.trans ih.2⟩

theorem Transition.answered {outcome : Outcome} (h : Transition w s s')
    (hv : s.values[ticket]? = some (some outcome)) : s'.values[ticket]? = some (some outcome) := by
  have hlt : ticket < s.completions.length := length_values s ▸ (List.getElem?_eq_some_iff.1 hv).1
  have hne : ∀ {other}, s.values[other]? = some none → ticket ≠ other := by
    rintro other hopen rfl
    rw [hv] at hopen
    cases hopen
  cases h with
  | atomic h =>
    cases h with
    | observe observers hc =>
      rw [values_observe observers hc]
      exact hv
    | queue request =>
      have hvalues : (s.queued request).values = s.values ++ [none] := List.map_append
      rw [hvalues, List.getElem?_append_left (List.getElem?_eq_some_iff.1 hv).1]
      exact hv
    | refuse =>
      rw [values_given_of_ne (Nat.ne_of_lt hlt), values_issued_of_lt hlt]
      exact hv
    | turn h =>
      rw [h.before_eq]
      exact hv
    | conclude _ _ _ hopen => exact (values_given_of_ne (hne hopen) _ _).trans hv
    | dismiss _ _ _ _ hopen => exact (values_given_of_ne (hne hopen) _ _).trans hv
    | _ => exact hv
  | close h _ hopen =>
    rw [values_given_of_ne (hne hopen), h.before_eq]
    exact hv
  | lose | clear | gate => exact hv

theorem Transitions.answered {outcome : Outcome} (h : Transitions w s s')
    (hv : s.values[ticket]? = some (some outcome)) : s'.values[ticket]? = some (some outcome) := by
  induction h with
  | refl => exact hv
  | tail _ hlast ih => exact hlast.answered ih

theorem Transition.told (h : Transition w s s') (ht : s.Told) : s'.Told := by
  cases h with
  | atomic h =>
    cases h with
    | drift d =>
      intro c hc
      obtain ⟨c', hc', rfl⟩ := Option.map_eq_some_iff.1 hc
      exact ht c' hc'
    | announce =>
      rintro c ⟨rfl⟩
      rfl
    | turn h =>
      rw [h.before_eq]
      exact ht
    | _ => exact ht
  | close h =>
    rw [h.before_eq]
    exact ht
  | lose | clear | gate => exact ht

theorem Transitions.told (h : Transitions w s s') (ht : s.Told) : s'.Told := by
  induction h with
  | refl => exact ht
  | tail _ hlast ih => exact hlast.told ih

omit [Codec κ] [Transport τ] in
theorem remove_of_vacant (hr : s.registry = {}) (id : UInt32) : (s.registry.remove id) = (none, {}) := by
  rw [hr]
  rfl

theorem Takes.vacant {act : Metadata → Turn κ → Turn κ} (h : Takes s x u act) (hr : s.registry = {}) :
    (u.turned (act u.metadata (u.turnOf x))).registry = {} := by
  have hnot : x ∉ s.registry.snapshot := by
    rw [hr]
    exact List.not_mem_nil
  cases h with
  | start hcan hp =>
    rw [hr] at hp
    cases hp
  | head _ _ hx | data _ _ _ hx => exact absurd hx hnot
  | window =>
    rw [turned, keep, hr]
    rfl

theorem Transition.vacant (h : Transition w s s') (hl : s.lost = true) (hr : s.registry = {}) : s'.registry = {} := by
  cases h with
  | atomic h =>
    cases h with
    | queue _ _ hopen => exact Bool.noConfusion (hl.symm.trans (refusal_eq_none_iff.1 hopen).1)
    | turn h => exact h.vacant hr
    | leave id => exact congrArg Prod.snd (remove_of_vacant hr id)
    | report _ hx =>
      rw [remove_of_vacant hr] at hx
      cases hx
    | conclude hs => exact Bool.noConfusion (hl.symm.trans hs.1)
    | _ => exact hr
  | close h => exact h.vacant hr
  | lose _ _ hopen => exact Bool.noConfusion (hl.symm.trans hopen)
  | clear => rfl
  | gate => exact hr

theorem Transitions.vacant (h : Transitions w s s') (hl : s.lost = true) (hr : s.registry = {}) : s'.registry = {} := by
  induction h with
  | refl => exact hr
  | tail hbefore hlast ih => exact hlast.vacant (Transitions.lost hbefore hl) ih

def Emptied (s : Session κ τ ω σ) : Prop := s.lost = true → s.registry = {}

theorem Execution.emptied (h : Execution w left s s') (hs : s.Emptied) : s'.Emptied := by
  induction h with
  | refl => exact hs
  | @atomic left s s' h =>
    intro hl
    have hlost : s.lost = true := h.lost.symm.trans hl
    exact Transition.vacant (.atomic (h.imp (.refl w) fun _ _ => trivial)) hlost (hs hlost)
  | trans _ _ ih ih' => exact ih' (ih hs)
  | pass _ _ ih => exact ih hs
  | @ended left s u v x act e h hopen hv he _ _ ih =>
    have hclose : Transition w s ((u.turned (act u.metadata (u.turnOf x))).given x.ticket e.outcome) :=
      .close h hopen hv he
    have hclosed : ((u.turned (act u.metadata (u.turnOf x))).given x.ticket e.outcome).Emptied := by
      intro hl
      have hlost : s.lost = true := by
        rw [h.before_eq] at hl
        exact hl
      exact hclose.vacant hlost (hs hlost)
    exact fun hl => congrArg Prod.snd (remove_of_vacant (ih hclosed hl) x.id)
  | lost _ _ _ _ _ _ _ _ _ _ ih' => exact ih' fun _ => rfl

theorem Takes.retired {act : Metadata → Turn κ → Turn κ} (h : Takes s x u act) (hi : s.Intact) (hr : s.Retired ticket) :
    (u.turned (act u.metadata (u.turnOf x))).Retired ticket := by
  obtain ⟨hplay, -, htidy, -⟩ := h.before hi
  have hcontinues := h.prompt.continues
  refine ⟨?_, fun y hy => ?_⟩
  · rw [h.before_eq]
    exact hr.1
  · rcases (mem_inPlay_turned htidy (h.mem_before hi) hcontinues.ticket).1 hy with rfl | ⟨hy, -⟩
    · rw [hcontinues.ticket]
      exact hr.2 x h.mem
    · exact hr.2 y (hplay ▸ hy)

theorem Transition.tickets_le (h : Transition w s s') : s.completions.length ≤ s'.completions.length := by
  cases h with
  | atomic h =>
    cases h with
    | observe | conclude | dismiss => exact Nat.le_of_eq List.length_set.symm
    | queue request =>
      rw [show (s.queued request).completions.length = s.completions.length + 1 from List.length_append]
      exact Nat.le_succ _
    | refuse =>
      change s.completions.length ≤ (List.set _ _ _).length
      rw [List.length_set, issueTicket, List.length_append]
      exact Nat.le_add_right _ _
    | turn h =>
      rw [h.before_eq]
      exact Nat.le_refl _
    | _ => exact Nat.le_refl _
  | close h =>
    rw [h.before_eq]
    exact Nat.le_of_eq List.length_set.symm
  | lose | clear | gate => exact Nat.le_refl _

theorem Transition.retired (h : Transition w s s') (hi : s.Intact) (hr : s.Retired ticket) : s'.Retired ticket := by
  refine ⟨Nat.lt_of_lt_of_le hr.1 h.tickets_le, fun y hy => ?_⟩
  rcases h.inPlay_cases with hfewer | ⟨request, -, rfl⟩ | ⟨x, u, act, htakes, hplay, -⟩
  · exact hr.2 y (hfewer y hy)
  · rcases List.mem_cons.1 ((inPlay_queued request s).mem_iff.1 hy) with rfl | hy
    · exact Nat.ne_of_gt hr.1
    · exact hr.2 y hy
  · exact (htakes.retired hi hr).2 y (hplay ▸ hy)

theorem Transitions.retired (h : Transitions w s s') (hi : s.Intact) (hr : s.Retired ticket) : s'.Retired ticket := by
  induction h with
  | refl => exact hr
  | tail hbefore hlast ih => exact hlast.retired (Transitions.intact hbefore hi) ih

/-- An exchange that has taken its last turn leaves when its observers have been told. -/
theorem Takes.leave {act : Metadata → Turn κ → Turn κ} (h : Takes s x u act) (hi : s.Intact) {e : Ending}
    (he : (act u.metadata (u.turnOf x)).ending = some e)
    (htold : Transitions w ((u.turned (act u.metadata (u.turnOf x))).given x.ticket e.outcome) v) :
    Transition w v { v with registry := (v.registry.remove x.id).2 } := by
  have hgiven := h.intact_given hi he
  have hspent := htold.spent hgiven (h.spent_own hi he)
  have hintact := htold.intact hgiven
  refine .atomic (.leave x.id fun y hy hid => ?_)
  exact hspent.2 y.item (mem_inPlay_of_entry hy) ((hintact.ids y hy).trans hid)

/-- Nested or not, it is one transition after the other. -/
theorem Execution.transitions (h : Execution w left s s') (hi : s.Intact) : Transitions w s s' := by
  induction h with
  | refl => exact .refl
  | atomic h => exact .single (.atomic (h.imp (.refl w) fun _ _ => trivial))
  | trans _ _ ih ih' =>
    have hfirst := ih hi
    exact Relation.ReflTransGen.trans hfirst (ih' (Transitions.intact hfirst hi))
  | @pass left s u _ _ ih =>
    have hshut : Transitions w s { s with admitting := true } := .single (.gate s true)
    exact (hshut.trans (ih (Transitions.intact hshut hi))).tail (.gate u false)
  | @ended left s u v x act e h hopen hv he _ _ ih =>
    -- The outcome, what observers do about it and the leaving of the exchange, one after the other.
    have hclose : Transitions w s ((u.turned (act u.metadata (u.turnOf x))).given x.ticket e.outcome) :=
      .single (.close h hopen hv he)
    have htold := ih (h.intact_given hi he)
    exact (Relation.ReflTransGen.trans hclose htold).tail (h.leave hi he htold)
  | @lost left s u v transport cause hl ht _ _ _ _ _ ih ih' =>
    -- The loss, its announcement, the clearing of the register and the end of those that were in it.
    have hlose : Transitions w s (s.lossNoted transport cause) := .single (.lose transport cause hl ht)
    have htold := hlose.trans (ih (Transitions.intact hlose hi))
    have hgone : u.lost = true := Transitions.lost (ih (Transitions.intact hlose hi)) rfl
    have hcleared := htold.tail (.clear hgone)
    exact hcleared.trans (ih' (Transitions.intact hcleared hi))

theorem Execution.imp {w' : Surroundings κ τ ω σ} {left' : Stream → Prop} (h : Execution w left s s')
    (hw : w.Within w') (hleft : ∀ x, left x → left' x) : Execution w' left' s s' := by
  induction h generalizing left' with
  | refl s => exact .refl s
  | atomic h => exact .atomic (h.imp hw hleft)
  | trans _ _ ih ih' => exact (ih hleft).trans (ih' hleft)
  | pass hidle _ ih => exact .pass hidle (ih hleft)
  | ended h hopen hv he _ hlive ih => exact .ended h hopen hv he (ih hleft) hlive
  | lost transport cause hl ht _ hnotice hlive _ hall ih ih' =>
    exact .lost transport cause hl ht (ih hleft) hnotice hlive (ih' fun _ h => h) hall

theorem Execution.unanswered (h : Execution w left s s') (hleft : ∀ x, ¬left x) (hi : s.Intact) (hl : s.lost = true)
    (hr : s.Retired ticket) (hv : s.values[ticket]? = some none) : s'.values[ticket]? = some none := by
  induction h with
  | refl => exact hv
  | @atomic left s s' h =>
    cases h with
    | observe observers hc =>
      rw [values_observe observers hc]
      exact hv
    | queue request _ hopen => exact Bool.noConfusion (hl.symm.trans (refusal_eq_none_iff.1 hopen).1)
    | refuse =>
      rw [values_given_of_ne (Nat.ne_of_lt hr.1), values_issued_of_lt hr.1]
      exact hv
    | turn h =>
      rw [h.before_eq]
      exact hv
    | conclude hs => exact Bool.noConfusion (hl.symm.trans hs.1)
    | dismiss hx => exact absurd hx (hleft _)
    | _ => exact hv
  | trans h _ ih ih' =>
    have hfirst := h.transitions hi
    exact ih' hleft (hfirst.intact hi) (hfirst.lost hl) (hfirst.retired hi hr) (ih hleft hi hl hr hv)
  | pass _ _ ih => exact ih hleft (hi.of_same rfl rfl rfl rfl) hl hr hv
  | @ended left s u v x act e h hopen hopen' he _ _ ih =>
    have hclose : Transition w s ((u.turned (act u.metadata (u.turnOf x))).given x.ticket e.outcome) :=
      .close h hopen hopen' he
    refine ih hleft (hclose.intact hi) (hclose.lost hl) (hclose.retired hi hr) ?_
    rw [values_given_of_ne (Ne.symm (hr.2 x h.mem)), h.before_eq]
    exact hv
  | lost _ _ hopen => exact Bool.noConfusion (hl.symm.trans hopen)

theorem Execution.admitting (h : Execution w left s s') : s'.admitting = s.admitting := by
  induction h with
  | refl => rfl
  | atomic h =>
    cases h with
    | turn h =>
      rw [h.before_eq]
      rfl
    | _ => rfl
  | trans _ _ ih ih' => exact ih'.trans ih
  | pass hidle => exact hidle.symm
  | ended h _ _ _ _ _ ih =>
    rw [h.before_eq] at ih
    exact ih
  | lost _ _ _ _ _ _ _ _ _ ih ih' => exact ih'.trans ih

theorem Execution.intact (h : Execution w left s s') (hi : s.Intact) :
    s'.Intact := Transitions.intact (h.transitions hi) hi

end Session

end Multiplex
