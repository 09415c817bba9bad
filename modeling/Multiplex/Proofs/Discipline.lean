import Multiplex.Proofs.Activity
import Multiplex.Proofs.Frames

/-! The discipline of a whole connection. Every change keeps the record in order and the exchanges as far as the record
says, with a ledger of the ids that were given out. So in every run, whoever is told in the middle of what, nothing is
sent out of turn and nothing after the end. -/
namespace Multiplex

open Bytes Wire

namespace Session

variable {κ τ ω σ : Type} {s s' : Session κ τ ω σ} {x : Stream} {ledger : Ledger}

structure Disciplined (ledger : Ledger) (s : Session κ τ ω σ) : Prop where
  known : ∀ x ∈ s.inPlay, (x.id, x.ticket) ∈ ledger
  issued : ∀ p ∈ ledger, p.1 < s.nextId ∧ p.2 < s.completions.length
  ids : (ledger.map Prod.fst).Nodup
  tickets : (ledger.map Prod.snd).Nodup
  grounded : s.history.Grounded (Entry.Allowed ledger)
  fitsRecord : ∀ x ∈ s.inPlay, x.FitsRecord s.history
  given : ∀ ticket outcome, .settled ticket outcome ∈ s.history ↔ s.values[ticket]? = some (some outcome)

theorem Disciplined.unsettled (h : s.Disciplined ledger) {ticket : Ticket} (hopen : s.values[ticket]? = some none) :
    s.history.Unsettled ticket := by
  intro outcome hm
  rw [h.given, hopen] at hm
  cases hm

theorem Disciplined.quiet (h : s.Disciplined ledger) (hplay : ∀ x ∈ s'.inPlay, x ∈ s.inPlay)
    (hnext : s'.nextId = s.nextId) (hlength : s.completions.length ≤ s'.completions.length)
    (hvalues : ∀ (ticket : Ticket) (outcome : Outcome),
      s'.values[ticket]? = some (some outcome) ↔ s.values[ticket]? = some (some outcome))
    (hh : s.history.Extends Entry.Silent s'.history) : s'.Disciplined ledger where
  known := fun x hx => h.known x (hplay x hx)
  issued := by
    rw [hnext]
    exact fun p hp => ⟨(h.issued p hp).1, Nat.lt_of_lt_of_le (h.issued p hp).2 hlength⟩
  ids := h.ids
  tickets := h.tickets
  grounded := h.grounded.silence hh
  fitsRecord := fun x hx => (h.fitsRecord x (hplay x hx)).silence hh
  given := by
    intro ticket outcome
    obtain ⟨new, hnew, hsilent⟩ := hh
    rw [hvalues, ← h.given, hnew, List.mem_append]
    exact or_iff_right fun hm => hsilent _ hm

theorem getElem?_issued {values : List (Option Outcome)} (n : Nat) {ticket : Ticket} {outcome : Outcome} :
    (values ++ List.replicate n none)[ticket]? = some (some outcome) ↔ values[ticket]? = some (some outcome) := by
  rw [List.getElem?_append]
  split
  · exact Iff.rfl
  · rename_i hlong
    rw [List.getElem?_eq_none (Nat.le_of_not_lt hlong), List.getElem?_replicate]
    split
    · simp
    · simp

theorem Clerical.disciplined (h : Clerical s s') (hd : s.Disciplined ledger) : s'.Disciplined ledger := by
  obtain ⟨n, hvalues⟩ := h.values
  refine hd.quiet h.inPlay.subset h.nextId h.length_le (fun ticket outcome => ?_)
    (h.history.imp fun _ => Entry.Clerical.silent)
  rw [hvalues]
  exact getElem?_issued n

theorem Disciplined.queued (hd : s.Disciplined ledger) (request : Request) (hopen : s.refusal = none) :
    (s.queued request).Disciplined ((s.nextId, s.completions.length) :: ledger) := by
  have hgrow : s.nextId < (s.queued request).nextId := nextId_lt_next hopen
  have hlength : (s.queued request).completions.length = s.completions.length + 1 := List.length_append
  have hunspoken : s.history.Unspoken s.nextId := by
    intro e he hs
    obtain ⟨later, earlier, hsplit⟩ := List.append_of_mem he
    obtain ⟨ticket, hm, -⟩ := (hd.grounded.at hsplit).due hs
    exact UInt32.lt_irrefl _ (hd.issued _ hm).1
  have hunsettled : s.history.Unsettled s.completions.length := by
    intro outcome hm
    rw [hd.given, List.getElem?_eq_none (Nat.le_of_eq (length_values s))] at hm
    cases hm
  constructor
  case known =>
    intro x hx
    rcases List.mem_cons.1 ((inPlay_queued request s).mem_iff.1 hx) with rfl | hx
    · exact List.mem_cons_self
    · exact List.mem_cons_of_mem _ (hd.known x hx)
  case issued =>
    rw [hlength]
    refine List.forall_mem_cons.2 ⟨⟨hgrow, Nat.lt_succ_self _⟩, fun p hp => ?_⟩
    exact ⟨UInt32.lt_trans (hd.issued p hp).1 hgrow, Nat.lt_succ_of_lt (hd.issued p hp).2⟩
  case ids =>
    refine List.nodup_cons.2 ⟨fun hm => ?_, hd.ids⟩
    obtain ⟨p, hp, heq⟩ := List.mem_map.1 hm
    exact UInt32.lt_irrefl _ (heq ▸ (hd.issued p hp).1)
  case tickets =>
    refine List.nodup_cons.2 ⟨fun hm => ?_, hd.tickets⟩
    obtain ⟨p, hp, heq⟩ := List.mem_map.1 hm
    exact Nat.lt_irrefl _ (heq ▸ (hd.issued p hp).2)
  case grounded => exact hd.grounded.imp fun _ _ _ => Entry.Allowed.mono (List.subset_cons_self _ _)
  case fitsRecord =>
    intro x hx
    rcases List.mem_cons.1 ((inPlay_queued request s).mem_iff.1 hx) with rfl | hx
    · refine ⟨fun _ => hunspoken.unreset, fun _ => hunsettled, fun _ => hunspoken, StreamState.noConfusion, ?_⟩
      exact fun hsent => hsent.elim StreamState.noConfusion StreamState.noConfusion
    · exact hd.fitsRecord x hx
  case given =>
    intro ticket outcome
    rw [show (s.queued request).values = s.values ++ List.replicate 1 none from List.map_append, getElem?_issued]
    exact hd.given ticket outcome

theorem Disciplined.settled (hd : s.Disciplined ledger) {ticket : Ticket} {outcome : Outcome}
    (hopen : s.values[ticket]? = some none) (hdone : ∀ x ∈ s.inPlay, x.ticket = ticket → x.state = .closed)
    (hallowed : Entry.Allowed ledger (.settled ticket outcome) s.history) :
    (s.given ticket outcome).Disciplined ledger where
  known := hd.known
  issued := by
    rw [show (s.given ticket outcome).completions.length = s.completions.length from List.length_set]
    exact hd.issued
  ids := hd.ids
  tickets := hd.tickets
  grounded := ⟨hallowed, hd.grounded⟩
  fitsRecord := by
    intro x hx
    refine (hd.fitsRecord x hx).extend (.cons (fun h => h) .refl) fun hs other hm => ?_
    rcases List.mem_cons.1 hm with heq | hm
    · injection heq with hticket
      exact hs (hdone x hx hticket)
    · exact (hd.fitsRecord x hx).unsettled hs other hm
  given := by
    intro other o
    obtain ⟨hlt, -⟩ := List.getElem?_eq_some_iff.1 hopen
    rw [show (s.given ticket outcome).values = s.values.set ticket (some outcome) from List.map_set]
    change _ ∈ Entry.settled ticket outcome :: s.history ↔ _
    by_cases heq : other = ticket
    · subst heq
      rw [List.getElem?_set_self hlt]
      simp [hd.unsettled hopen o, eq_comm]
    · rw [List.getElem?_set_ne (Ne.symm heq), ← hd.given]
      simp [heq]

variable [Codec κ]

theorem Prompt.fitsRecord {act : Metadata → Turn κ → Turn κ} (ha : s.Prompt x act)
    (h : (s.turnOf x).FitsRecord ledger) : (act s.metadata (s.turnOf x)).FitsRecord ledger := by
  cases ha with
  | start ready active limit earlier hh => exact h.initiate hh
  | window => exact h.receiveWindowUpdate
  | head fields earlier hh =>
    have hm : .dispatched ⟨x.id, .response fields⟩ ∈ s.history := hh.symm ▸ List.mem_cons_self
    exact h.receiveHeaders (.head fields hm) fields
  | data bytes length earlier hh =>
    have hm : .dispatched ⟨x.id, .data bytes length⟩ ∈ s.history := hh.symm ▸ List.mem_cons_self
    exact h.receiveData (.data bytes length hm) bytes length

theorem Disciplined.turned (hd : s.Disciplined ledger) (ht : s.Tidy) {act : Metadata → Turn κ → Turn κ}
    (hx : x ∈ s.inPlay) (ha : s.Prompt x act) : (s.turned (act s.metadata (s.turnOf x))).Disciplined ledger := by
  have hturn := ha.fitsRecord ⟨hd.known x hx, hd.grounded, hd.fitsRecord x hx⟩
  have hcontinues := ha.continues
  have hplay := fun y => mem_inPlay_turned (y := y) ht hx hcontinues.ticket
  constructor
  case known =>
    intro y hy
    rcases (hplay y).1 hy with rfl | ⟨hy, -⟩
    · exact hturn.known
    · exact hd.known y hy
  case issued => exact hd.issued
  case ids => exact hd.ids
  case tickets => exact hd.tickets
  case grounded => exact hturn.grounded
  case fitsRecord =>
    intro y hy
    rcases (hplay y).1 hy with rfl | ⟨hy, hne⟩
    · exact hturn.stream
    · refine (hd.fitsRecord y hy).extend (hcontinues.history.imp fun e he hs => hne ?_) fun hs => ?_
      · exact ht.eq_of_id hy hx (he.id_of_speaks hs)
      · exact ((hd.fitsRecord y hy).unsettled hs).extend hcontinues.history fun outcome he => he
  case given =>
    intro ticket outcome
    obtain ⟨new, hnew, hof⟩ := hcontinues.history
    refine Iff.trans ?_ (hd.given ticket outcome)
    change _ ∈ (act s.metadata (s.turnOf x)).history ↔ _
    rw [hnew, List.mem_append]
    exact or_iff_right fun hm => hof _ hm

/-- Every change keeps a connection in order; the ledger at most grows. -/
theorem Change.disciplined (h : Change s s') (ht : s.Tidy) (hd : s.Disciplined ledger) :
    ∃ new, s'.Disciplined (new ++ ledger) := by
  cases h with
  | clerical h => exact ⟨[], h.disciplined hd⟩
  | lose h =>
    refine ⟨[], (h.disciplined hd).quiet (fun _ hx => hx) rfl (Nat.le_refl _) (fun _ _ => Iff.rfl) (.cons trivial .refl)⟩
  | queue request hopen => exact ⟨[_], hd.queued request hopen⟩
  | turn hx ha => exact ⟨[], hd.turned ht hx ha⟩
  | settle hopen hdone hr => exact ⟨[], hd.settled hopen hdone fun heq => absurd heq hr⟩
  | @conclude x registry outcome earlier history hx hs hopen hh hl =>
    have hplay : x ∈ s.inPlay := by
      obtain ⟨e, he, -, heq⟩ := Registry.mem_of_remove hx
      exact heq ▸ mem_inPlay_of_entry he
    have hremoved : ({ s with registry, history } : Session κ τ ω σ).Disciplined ledger :=
      hd.quiet (clerical_remove hx).inPlay.subset rfl (Nat.le_refl _) (fun _ _ => Iff.rfl)
        (hl.imp fun _ => Entry.IsStreamLine.silent)
    refine ⟨[], hremoved.settled hopen (fun y hy hticket => ?_) fun _ => ?_⟩
    · exact absurd hticket ((ht.retired_of_removed hx).2 y hy)
    · obtain ⟨lines, hlines, hof⟩ := hl
      refine ⟨x.id, lines, earlier, hd.known x hplay, hlines.trans (congrArg (lines ++ ·) hh), hof, ?_⟩
      have hsent := (hd.fitsRecord x hplay).sent_or hs
      rw [hh] at hsent
      refine hsent.imp (fun hhead => ?_) fun hunspoken e he => hunspoken e (List.mem_cons_of_mem _ he)
      exact (History.headSent_cons fun _ _ heq => by cases heq).1 hhead

theorem Changes.disciplined (h : Changes s s') (ht : s.Tidy) (hd : s.Disciplined ledger) :
    ∃ new, s'.Disciplined (new ++ ledger) := by
  induction h with
  | refl => exact ⟨[], hd⟩
  | tail hbefore hchange ih =>
    obtain ⟨new, hd'⟩ := ih
    obtain ⟨new', hd''⟩ := hchange.disciplined (Changes.tidy hbefore ht) hd'
    exact ⟨new' ++ new, List.append_assoc _ _ _ ▸ hd''⟩

omit [Codec κ] in
theorem Created.disciplined [Transport τ] (h : Created s) : s.Disciplined [] := by
  obtain ⟨-, -, hcompletions, hhistory, -⟩ := h.fields
  constructor
  · rw [h.inPlay]
    exact fun _ hx => absurd hx List.not_mem_nil
  · exact fun _ hp => absurd hp List.not_mem_nil
  · exact List.nodup_nil
  · exact List.nodup_nil
  · rw [hhistory]
    trivial
  · rw [h.inPlay]
    exact fun _ hx => absurd hx List.not_mem_nil
  · intro ticket outcome
    rw [hhistory, values, hcompletions]
    simp

/-! What that comes to. -/

omit [Codec κ] in
/-- Once a request is settled nothing is sent on its exchange. -/
theorem Disciplined.silent (hd : s.Disciplined ledger) {id : UInt32} {ticket : Ticket} (hm : (id, ticket) ∈ ledger)
    {later earlier : History} {outcome : Outcome} (hsplit : s.history = later ++ .settled ticket outcome :: earlier) :
    later.Unspoken id := by
  intro e he hs
  -- What is sent presumes a request that is not settled, and the id stands for no other request.
  obtain ⟨after, between, rfl⟩ := List.append_of_mem he
  rw [List.append_assoc] at hsplit
  obtain ⟨other, hother, hunsettled⟩ := (hd.grounded.at hsplit).due hs
  have hsame : (id, other) = (id, ticket) := List.inj_on_of_nodup_map hd.ids hother hm rfl
  obtain rfl := (Prod.mk.inj hsame).2
  exact hunsettled outcome (List.mem_append_right _ List.mem_cons_self)

omit [Codec κ] in
theorem Disciplined.heads (hd : s.Disciplined ledger) (id : UInt32) : s.history.countP (Entry.isHead id) ≤ 1 := by
  refine hd.grounded.countP_le_one fun e earlier hallowed he x hx => Bool.eq_false_iff.2 fun hx' => ?_
  unfold Entry.isHead at he
  split at he
  · rw [beq_iff_eq] at he
    subst he
    exact hallowed.2.1 x hx (Entry.speaks_of_isHead hx')
  · cases he

omit [Codec κ] in
theorem Disciplined.resets (hd : s.Disciplined ledger) (id : UInt32) : s.history.countP (Entry.isReset id) ≤ 1 := by
  refine hd.grounded.countP_le_one fun e earlier hallowed he x hx => ?_
  unfold Entry.isReset at he
  split at he
  · rw [beq_iff_eq] at he
    subst he
    exact hallowed.2.1 x hx
  · cases he

/-- How a connection speaks to its peer on its exchanges. Each id that is spoken under was given out for one request,
whose admission comes right before the head; when that request is settled, the connection falls silent about the id. -/
structure Conduct (s : Session κ τ ω σ) : Prop where
  heads : ∀ id, s.history.countP (Entry.isHead id) ≤ 1
  resets : ∀ id, s.history.countP (Entry.isReset id) ≤ 1
  pieces : ∀ later id bytes last ret earlier, s.history = later ++ .call (.data id bytes last ret) :: earlier →
    ∃ fields, .call (.headers id fields false 0) ∈ earlier
  owners : ∃ ledger : Ledger, (ledger.map Prod.fst).Nodup ∧ (ledger.map Prod.snd).Nodup ∧
    (∀ x ∈ s.inPlay, (x.id, x.ticket) ∈ ledger) ∧
    (∀ e ∈ s.history, ∀ id, e.Speaks id → ∃ ticket, (id, ticket) ∈ ledger) ∧
    (∀ later id fields last ret earlier, s.history = later ++ .call (.headers id fields last ret) :: earlier →
      ∃ ticket ready active limit rest, (id, ticket) ∈ ledger ∧
        earlier = .admitted ticket ready active limit :: rest) ∧
    ∀ id ticket, (id, ticket) ∈ ledger → ∀ (later : History) outcome earlier,
      s.history = later ++ .settled ticket outcome :: earlier → later.Unspoken id

omit [Codec κ] in
theorem Disciplined.conduct (hd : s.Disciplined ledger) : s.Conduct where
  heads := hd.heads
  resets := hd.resets
  pieces := fun _ _ _ _ _ _ hsplit => (hd.grounded.at hsplit).2
  owners := by
    refine ⟨ledger, hd.ids, hd.tickets, hd.known, fun e he id hs => ?_, fun _ _ _ _ _ _ hsplit => ?_,
      fun id ticket hm later outcome earlier hsplit => hd.silent hm hsplit⟩
    · obtain ⟨later, earlier, hsplit⟩ := List.append_of_mem he
      obtain ⟨ticket, hm, -⟩ := (hd.grounded.at hsplit).due hs
      exact ⟨ticket, hm⟩
    · exact (hd.grounded.at hsplit).2.2

variable [Transport τ] {s₀ : Session κ τ ω σ}

theorem FreeRun.disciplined (h₀ : Created s₀) (h : FreeRun s₀ s) : ∃ ledger, s.Disciplined ledger := by
  obtain ⟨ledger, hd⟩ := (Activity.changes h h₀.tidy).disciplined h₀.tidy h₀.disciplined
  exact ⟨_, hd⟩

theorem FreeRun.disciplined_of_taken {u : Session κ τ ω σ} {r : Reaction κ τ ω σ} {request : Request} (h₀ : Created s₀)
    (hu : FreeRun s₀ u) (hr : ∀ o news w, FreeRun w (r.run o news w)) (hopen : u.refusal = none)
    (hrest : FreeRun (u.submit r request).2 s) :
    ∃ ledger, (u.nextId, u.completions.length) ∈ ledger ∧ s.Disciplined ledger := by
  have htidy := (Activity.changes hu h₀.tidy).tidy h₀.tidy
  obtain ⟨before, hbefore⟩ := FreeRun.disciplined h₀ hu
  have htaken := changes_submit_of_taken (fun o news w hw => (hr o news w).changes hw) request htidy hopen
  have hqueued := htidy.queued request hopen
  have hlater := htaken.trans (hrest.changes (htaken.tidy hqueued))
  obtain ⟨new, hafter⟩ := hlater.disciplined hqueued (hbefore.queued request hopen)
  exact ⟨_, List.mem_append_right _ List.mem_cons_self, hafter⟩

/-- In every state of a run, on a loop that may have stopped and with observers that ask for anything in the middle of
an operation, the conduct of the connection is in order. A request has an outcome exactly when it is settled on record,
and from then on nothing is sent under the id that it was taken with. -/
theorem run_frames (h₀ : Created s₀) (h : FreeRun s₀ s) :
    s.Conduct ∧ (∀ ticket outcome, s.peek ticket = some outcome ↔ .settled ticket outcome ∈ s.history) ∧
      ∀ (u : Session κ τ ω σ) (r : Reaction κ τ ω σ) (request : Request), FreeRun s₀ u →
        (∀ o news w, FreeRun w (r.run o news w)) → u.refusal = none → FreeRun (u.submit r request).2 s →
        ∀ (later : History) outcome earlier, s.history = later ++ .settled u.completions.length outcome :: earlier →
          later.Unspoken u.nextId := by
  obtain ⟨ledger, hd⟩ := FreeRun.disciplined h₀ h
  refine ⟨hd.conduct, fun ticket outcome => ?_, fun u r request hu hr hopen hrest later outcome earlier hsplit => ?_⟩
  · rw [peek_eq_some_iff, hd.given]
  · obtain ⟨ledger, hm, hafter⟩ := FreeRun.disciplined_of_taken h₀ hu hr hopen hrest
    exact hafter.silent hm hsplit

/-- On a stopped loop the observer of a response that gets too large submits another request in the middle of the reset.
-/
theorem run_frames_scripted :
    ∃ (s₀ u s : Session Scripted.Codec Scripted.Transport Unit Unit)
      (r : Reaction Scripted.Codec Scripted.Transport Unit Unit) (request : Request), Created s₀ ∧ FreeRun s₀ u ∧
        (∀ o news w, FreeRun w (r.run o news w)) ∧ u.refusal = none ∧ FreeRun (u.submit r request).2 s ∧
        u.loop.stopped = true ∧ s.Conduct ∧ s.history.countP (Entry.isHead 1) = 1 ∧
        s.history.countP (Entry.isReset 1) = 1 ∧ s.history.countP (Entry.isHead 3) = 1 ∧
        ∃ (later earlier : History) (outcome : Outcome), s.peek 0 = some outcome ∧
          s.history = later ++ .settled 0 outcome :: earlier ∧ later.Unspoken 1 := by
  let request : Request := { url := ascii "https://example.com/", maxSize := 2 }
  let r₀ : Reaction Scripted.Codec Scripted.Transport Unit Unit := ⟨fun _ _ s => s⟩
  let r : Reaction Scripted.Codec Scripted.Transport Unit Unit := ⟨fun _ _ s => (s.submit r₀ request).2⟩
  have hr₀ : ∀ o news w, FreeRun w (r₀.run o news w) := fun _ _ w => .refl w
  have hr : ∀ o news w, FreeRun w (r.run o news w) := fun _ _ w =>
    (Activity.refl w).meet r₀ hr₀ (.operation (.submit request)) trivial
  let s₀ : Session Scripted.Codec Scripted.Transport Unit Unit :=
    fresh { arrival := .events [{ body := .settingsAcknowledged }] }
  let ready := s₀.performAll r [.established (some {}), .bytesReceived []]
  let u : Session Scripted.Codec Scripted.Transport Unit Unit := { ready with loop := ready.loop.stop }
  let asked := (u.submit r request).2
  let answered : Drift Scripted.Codec Scripted.Transport Unit Unit :=
    .scripted { arrival := .events [⟨1, .data (ascii "hello") 5⟩] }
  let s := ((asked.perform r (.observe 0 ())).drift answered).perform r (.bytesReceived [])
  have hu : FreeRun s₀ u := (Activity.performAll hr (fun _ _ => trivial) s₀).stop
  have hasked : FreeRun u asked := (Activity.refl u).meet r hr (.operation (.submit request)) trivial
  have hrest : FreeRun asked s :=
    (((Activity.refl asked).meet r hr (.operation (.observe 0 ())) trivial).drift answered).meet r hr
      (.operation (.bytesReceived [])) trivial
  have hopen : u.refusal = none := by decide +kernel
  obtain ⟨hconduct, hpeek, hsilent⟩ := run_frames (created_fresh _) (hu.trans (hasked.trans hrest))
  have hstopped : u.loop.stopped = true := by decide +kernel
  have hcounts : s.history.countP (Entry.isHead 1) = 1 ∧ s.history.countP (Entry.isReset 1) = 1 ∧
      s.history.countP (Entry.isHead 3) = 1 := by decide +kernel
  have hsettled : (s.peek 0).isSome = true := by decide +kernel
  obtain ⟨outcome, houtcome⟩ := Option.isSome_iff_exists.1 hsettled
  obtain ⟨(later : History), earlier, hsplit⟩ := List.append_of_mem ((hpeek 0 outcome).1 houtcome)
  have hticket : u.completions.length = 0 := by decide +kernel
  have hid : u.nextId = 1 := by decide +kernel
  have hlater : later.Unspoken 1 := by
    have h := hsilent u r request hu hr hopen hrest later outcome earlier
    rw [hticket, hid] at h
    exact h hsplit
  exact ⟨s₀, u, s, r, request, created_fresh _, hu, hr, hopen, hrest, hstopped, hconduct, hcounts.1, hcounts.2.1,
    hcounts.2.2, later, earlier, outcome, houtcome, hsplit, hlater⟩

end Session

end Multiplex
