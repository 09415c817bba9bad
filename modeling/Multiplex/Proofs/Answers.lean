import Multiplex.Proofs.Discipline

/-! Answers to requests that were not sent. An id is in the register before anything goes out under it, and an event
that names it is taken for an answer whatever has been sent. So when the connection says that a response is complete, or
resets an exchange, the head of the request went out before, or the peer spoke first. -/
namespace Multiplex

open Bytes Wire

namespace Entry

def Answers (id : UInt32) : Entry → Prop
  | .dispatched ⟨i, .response _⟩ | .dispatched ⟨i, .data _ _⟩ | .dispatched ⟨i, .ended⟩ => i = id
  | _ => False

/-- An entry that takes an exchange for one that the peer knows: its response is complete, or it is reset. -/
def Presumes (id : UInt32) (ticket : Ticket) : Entry → Prop
  | .call (.reset i _ _) => i = id
  | .settled t outcome => t = ticket ∧ outcome.reason = .ended
  | _ => False

end Entry

namespace History

variable {id : UInt32} {ticket : Ticket} {h h' : History}

def Unasked (id : UInt32) (h : History) : Prop :=
  ∃ (later : History) (e : Entry) (earlier : History), h = later ++ e :: earlier ∧ e.Answers id ∧ earlier.Unspoken id

def Founded (id : UInt32) (ticket : Ticket) (h : History) : Prop :=
  h.Grounded fun e earlier => e.Presumes id ticket → earlier.HeadSent id

/-- What is presumed of an exchange before its head was sent, the peer let on. -/
def Prompted (id : UInt32) (ticket : Ticket) (h : History) : Prop :=
  h.Grounded fun e earlier => e.Presumes id ticket → earlier.HeadSent id ∨ earlier.Unasked id

theorem Unasked.later (hu : h.Unasked id) (hh : h <:+ h') : h'.Unasked id := by
  obtain ⟨new, rfl⟩ := hh
  obtain ⟨later, e, earlier, rfl, he⟩ := hu
  exact ⟨new ++ later, e, earlier, (List.append_assoc _ _ _).symm, he⟩

theorem Answered.unasked (ha : h.Answered id) (hu : h.Unspoken id) : h.Unasked id := by
  have hsplit : ∀ e ∈ h, e.Answers id → h.Unasked id := by
    intro e he hanswers
    obtain ⟨later, earlier, rfl⟩ := List.append_of_mem he
    exact ⟨later, e, earlier, rfl, hanswers, fun x hx => hu x (List.mem_append_right _ (List.mem_cons_of_mem e hx))⟩
  cases ha with
  | head fields hm => exact hsplit _ hm rfl
  | data bytes length hm => exact hsplit _ hm rfl

theorem Founded.headSent {e : Entry} (he : e ∈ h) (hp : e.Presumes id ticket) (hf : h.Founded id ticket) :
    h.HeadSent id := by
  obtain ⟨later, earlier, hsplit⟩ := List.append_of_mem he
  obtain ⟨fields, last, hm⟩ := (Grounded.at hf hsplit) hp
  exact ⟨fields, last, hsplit ▸ List.mem_append_right _ (List.mem_cons_of_mem _ hm)⟩

theorem not_headSent (hnone : ∀ e ∈ h, e.isHead id = false) : ¬h.HeadSent id := by
  rintro ⟨fields, last, hm⟩
  exact Bool.noConfusion ((beq_self_eq_true id).symm.trans (hnone _ hm))

/-- With a peer that does not speak first nothing is presumed too early. -/
theorem Prompted.founded (hp : h.Prompted id ticket) (hu : ¬h.Unasked id) : h.Founded id ticket := by
  induction h with
  | nil => trivial
  | cons e h ih =>
    have hearlier : ¬Unasked id h := fun hearlier => hu (hearlier.later (List.suffix_cons e h))
    exact ⟨fun hpresumes => (hp.1 hpresumes).resolve_right hearlier, ih hp.2 hearlier⟩

end History

theorem Entry.Allowed.grounds {ledger : Ledger} {e : Entry} {earlier : History} {id : UInt32} {ticket : Ticket}
    (h : e.Allowed ledger earlier) (hd : (ledger.map Prod.snd).Nodup) (hm : (id, ticket) ∈ ledger)
    (hp : e.Presumes id ticket) : earlier.HeadSent id ∨ earlier.Unasked id := by
  unfold Entry.Presumes at hp
  split at hp
  · subst hp
    exact h.2.2.imp_right fun ⟨hunspoken, hanswered⟩ => hanswered.unasked hunspoken
  · obtain ⟨rfl, hreason⟩ := hp
    obtain ⟨i, lines, rest, hknown, rfl, -, hrest⟩ := h hreason
    obtain rfl := (Prod.mk.inj (List.inj_on_of_nodup_map hd hknown hm rfl)).1
    refine hrest.imp (fun hsent => ?_) fun hunspoken => ⟨lines, _, rest, rfl, rfl, hunspoken⟩
    obtain ⟨fields, last, hhead⟩ := hsent
    exact ⟨fields, last, List.mem_append_right _ (List.mem_cons_of_mem _ hhead)⟩
  · exact hp.elim

namespace Turn

variable {κ : Type} [Codec κ] {m : Metadata}

theorem reset_resetAndClose (t : Turn κ) (code : ErrorCode) (reason : CloseReason) :
    ∃ ret, .call (.reset t.stream.id code ret) ∈ (t.resetAndClose m code reason).history := by
  unfold resetAndClose
  dsimp only
  split
  · exact ⟨_, (extends_close _ reason [] true).suffix.subset List.mem_cons_self⟩
  · exact ⟨_, (extends_close _ reason [] true).suffix.subset (List.mem_cons_of_mem _ List.mem_cons_self)⟩

theorem reset_receiveData {t : Turn κ} {bytes : Bytes} (length : Nat) (hs : t.stream.state ≠ .closed)
    (hlimit : 0 < t.stream.maxSize) (hsize : t.stream.maxSize < (t.stream.response.body ++ bytes).length) :
    ∃ ret, .call (.reset t.stream.id .cancel ret) ∈ (t.receiveData m bytes length).history := by
  unfold receiveData
  rw [if_neg hs]
  dsimp only
  split
  · unfold checkSize
    rw [if_pos ⟨hlimit, hsize⟩]
    exact reset_resetAndClose _ _ _
  · unfold checkSize
    rw [if_pos ⟨hlimit, hsize⟩]
    exact reset_resetAndClose _ _ _

end Turn

namespace Session

variable {κ τ ω σ : Type} {s : Session κ τ ω σ} {r : Reaction κ τ ω σ} {x : Stream} {ledger : Ledger}

theorem Disciplined.prompted (hd : s.Disciplined ledger) {id : UInt32} {ticket : Ticket} (hm : (id, ticket) ∈ ledger) :
    s.history.Prompted id ticket :=
  hd.grounded.imp fun _ _ _ hallowed => hallowed.grounds hd.tickets hm

/-! What an answer does to an exchange, however far it has come. -/

theorem Tidy.find (ht : s.Tidy) (hx : x ∈ s.registry.snapshot) : s.registry.find x.id = some x := by
  obtain ⟨e, he, rfl⟩ := List.mem_map.1 hx
  unfold Registry.find
  cases hfind : s.registry.findEntry e.item.id with
  | none => exact absurd (ht.ids e he).symm (Registry.findEntry_eq_none_iff.1 hfind e he)
  | some e' =>
    obtain ⟨he', hid⟩ := Registry.mem_of_findEntry hfind
    refine congrArg some (ht.eq_of_id (mem_inPlay_of_entry he') (mem_inPlay_of_entry he) ?_)
    exact (ht.ids e' he').trans hid

theorem Tidy.remove (ht : s.Tidy) (hx : x ∈ s.registry.snapshot) :
    ∃ registry, s.registry.remove x.id = (some x, registry) := by
  have hfind := ht.find hx
  unfold Registry.find at hfind
  obtain ⟨e, he, rfl⟩ := Option.map_eq_some_iff.1 hfind
  unfold Registry.remove
  rw [he]
  dsimp only
  split
  · exact ⟨_, rfl⟩
  · exact ⟨_, rfl⟩

theorem Disciplined.open (hd : s.Disciplined ledger) (ht : s.Tidy) (hx : x ∈ s.inPlay) (hs : x.state ≠ .closed) :
    s.values[x.ticket]? = some none := by
  have hissued : x.ticket < s.values.length := by
    rw [length_values]
    exact ht.issued x hx
  rw [List.getElem?_eq_getElem hissued]
  cases hvalue : s.values[x.ticket] with
  | none => rfl
  | some outcome =>
    have hgiven := (hd.given x.ticket outcome).2 (List.getElem?_eq_some_iff.2 ⟨hissued, hvalue⟩)
    exact absurd hgiven ((hd.fitsRecord x hx).unsettled hs outcome)

variable [Codec κ] [Transport τ]

/-- The end of a response settles the request, whether or not its head was sent. -/
theorem Disciplined.ended (hd : s.Disciplined ledger) (ht : s.Tidy) (hr : r.Orderly) (hx : x ∈ s.registry.snapshot)
    (hs : x.state ≠ .closed) : ((s.enter (.dispatched ⟨x.id, .ended⟩)).handle r ⟨x.id, .ended⟩).peek x.ticket =
      some (x.outcome s.metadata .ended []) := by
  let heard := s.enter (.dispatched ⟨x.id, .ended⟩)
  have hheard : Changes s heard := .enter s trivial
  obtain ⟨registry, hremove⟩ := ht.remove hx
  let removed : Session κ τ ω σ := { heard with registry }
  have hopen : removed.values[x.ticket]? = some none := hd.open ht (List.mem_append_left _ hx) hs
  have hhandle : heard.handle r ⟨x.id, .ended⟩ = (removed.finish r x .ended []).admitQueued r := by
    unfold handle concludeStream
    dsimp only
    rw [show heard.registry.remove x.id = (some x, registry) from hremove]
  obtain ⟨history, os, hlines, hfinish⟩ := finish_of_open r .ended [] hs hopen
  let settled := ({ removed with history } : Session κ τ ω σ).given x.ticket (x.outcome s.metadata .ended [])
  have hsettled : Changes s settled := hheard.trans (.single (.conclude hremove hs hopen rfl hlines))
  have htidy := hsettled.tidy ht
  have htold := changes_tellAll hr os (.settled x.ticket (x.outcome s.metadata .ended [])) htidy
  have hrest := htold.trans (changes_admitQueued hr (htold.tidy htidy))
  obtain ⟨new, hafter⟩ := (hsettled.trans hrest).disciplined ht hd
  rw [peek_eq_some_iff, hhandle, hfinish]
  exact (hafter.given _ _).1 (hrest.suffix.subset List.mem_cons_self)

theorem Tidy.cancelled (ht : s.Tidy) (hr : r.Orderly) (hx : x ∈ s.registry.snapshot) (hs : x.state ≠ .closed)
    {bytes : Bytes} (length : Nat) (hlimit : 0 < x.maxSize) (hsize : x.maxSize < (x.response.body ++ bytes).length) :
    ∃ ret, .call (.reset x.id .cancel ret) ∈
      ((s.enter (.dispatched ⟨x.id, .data bytes length⟩)).handle r ⟨x.id, .data bytes length⟩).history := by
  let heard := s.enter (.dispatched ⟨x.id, .data bytes length⟩)
  have hheard : Changes s heard := .enter s trivial
  have htidy := hheard.tidy ht
  have hfind : heard.streamOf x.ticket = some x := ht.streamOf (List.mem_append_left _ hx)
  have hprompt : heard.Prompt x fun m => Turn.receiveData m bytes length := .data bytes length s.history rfl
  have hstep := changes_step_of_found hr htidy hfind hprompt
  have hhandle : heard.handle r ⟨x.id, .data bytes length⟩ =
      heard.step r x.ticket fun m => Turn.receiveData m bytes length := by
    unfold handle withStream
    dsimp only
    rw [show heard.registry.find x.id = some x from ht.find hx]
  obtain ⟨ret, hreset⟩ :=
    Turn.reset_receiveData (m := heard.metadata) (t := heard.turnOf x) length hs hlimit hsize
  rw [hhandle]
  exact ⟨ret, hstep.suffix.subset hreset⟩

variable {s₀ : Session κ τ ω σ}

/-- In every state of a run, what is presumed of an exchange before its head was sent, the peer let on; with a peer that
never speaks first the head always went out before. This is so of every exchange in a ledger of the ids given out, and
of every request since it was taken. But of an exchange that waits, on which nothing was sent, the connection believes
the peer: the end of a response settles the request as if it were answered, and a piece that is too much resets it. -/
theorem run_answers (h₀ : Created s₀) (h : FreeRun s₀ s) :
    (∃ ledger : Ledger, (ledger.map Prod.fst).Nodup ∧ (ledger.map Prod.snd).Nodup ∧
      (∀ x ∈ s.inPlay, (x.id, x.ticket) ∈ ledger) ∧
      (∀ id code ret, .call (.reset id code ret) ∈ s.history → ∃ ticket, (id, ticket) ∈ ledger) ∧
      (∀ ticket outcome, s.peek ticket = some outcome → outcome.reason = .ended → ∃ id, (id, ticket) ∈ ledger) ∧
      ∀ id ticket, (id, ticket) ∈ ledger → s.history.Prompted id ticket ∧
        (¬s.history.Unasked id → s.history.Founded id ticket)) ∧
    (∀ (u : Session κ τ ω σ) (r : Reaction κ τ ω σ) (request : Request), FreeRun s₀ u →
      (∀ o news w, FreeRun w (r.run o news w)) → u.refusal = none → FreeRun (u.submit r request).2 s →
      s.history.Prompted u.nextId u.completions.length ∧
        (¬s.history.Unasked u.nextId → s.history.Founded u.nextId u.completions.length)) ∧
    ∀ x ∈ s.registry.snapshot, x.state = .pending → s.history.Unspoken x.id ∧ s.peek x.ticket = none ∧
      ∀ r : Reaction κ τ ω σ, (∀ o news w, FreeRun w (r.run o news w)) →
        (∃ outcome, ((s.enter (.dispatched ⟨x.id, .ended⟩)).handle r ⟨x.id, .ended⟩).peek x.ticket = some outcome ∧
          outcome.reason = .ended) ∧
        ∀ bytes length, 0 < x.maxSize → x.maxSize < (x.response.body ++ bytes).length →
          ∃ ret, .call (.reset x.id .cancel ret) ∈
            ((s.enter (.dispatched ⟨x.id, .data bytes length⟩)).handle r ⟨x.id, .data bytes length⟩).history := by
  have htidy := (Activity.changes h h₀.tidy).tidy h₀.tidy
  obtain ⟨ledger, hd⟩ := FreeRun.disciplined h₀ h
  refine ⟨⟨ledger, hd.ids, hd.tickets, hd.known, ?_, ?_, ?_⟩, ?_, ?_⟩
  · intro id code ret hm
    obtain ⟨later, earlier, hsplit⟩ := List.append_of_mem hm
    obtain ⟨ticket, hknown, -⟩ := (hd.grounded.at hsplit).1
    exact ⟨ticket, hknown⟩
  · intro ticket outcome hpeek hreason
    rw [peek_eq_some_iff, ← hd.given] at hpeek
    obtain ⟨later, earlier, hsplit⟩ := List.append_of_mem hpeek
    obtain ⟨id, lines, rest, hknown, -⟩ := (hd.grounded.at hsplit) hreason
    exact ⟨id, hknown⟩
  · exact fun id ticket hm => ⟨hd.prompted hm, (hd.prompted hm).founded⟩
  · intro u r request hu hr hopen hrest
    obtain ⟨_, hm, hafter⟩ := FreeRun.disciplined_of_taken h₀ hu hr hopen hrest
    exact ⟨hafter.prompted hm, (hafter.prompted hm).founded⟩
  · intro x hx hs
    have hplay : x ∈ s.inPlay := List.mem_append_left _ hx
    have hopen : x.state ≠ .closed := by
      rw [hs]
      exact StreamState.noConfusion
    refine ⟨(hd.fitsRecord x hplay).waiting (Or.inr hs), ?_, fun r hr => ?_⟩
    · rw [Option.eq_none_iff_forall_ne_some]
      intro outcome hpeek
      rw [peek_eq_some_iff, hd.open htidy hplay hopen] at hpeek
      cases hpeek
    · have horderly : r.Orderly := fun o news w hw => (hr o news w).changes hw
      exact ⟨⟨_, hd.ended htidy horderly hx hopen, rfl⟩, fun bytes length hlimit hsize =>
        htidy.cancelled horderly hx hopen length hlimit hsize⟩

/-- A request waits for the settings. Nobody spoke on its exchange, but if the peer ends the response or sends too much,
it is believed. -/
theorem run_answers_scripted :
    ∃ (s₀ u s : Session Scripted.Codec Scripted.Transport Unit Unit)
      (r : Reaction Scripted.Codec Scripted.Transport Unit Unit) (request : Request) (x : Stream), Created s₀ ∧
        FreeRun s₀ u ∧ (∀ o news w, FreeRun w (r.run o news w)) ∧ u.refusal = none ∧ s = (u.submit r request).2 ∧
        u.nextId = 1 ∧ u.completions.length = 0 ∧ s.history.Founded 1 0 ∧ x ∈ s.registry.snapshot ∧ x.id = 1 ∧
        x.ticket = 0 ∧ s.history.Unspoken 1 ∧ s.peek 0 = none ∧
        (∃ outcome, ((s.enter (.dispatched ⟨1, .ended⟩)).handle r ⟨1, .ended⟩).peek 0 = some outcome ∧
          outcome.reason = .ended) ∧
        ∃ ret, .call (.reset 1 .cancel ret) ∈
          ((s.enter (.dispatched ⟨1, .data (ascii "hello") 5⟩)).handle r ⟨1, .data (ascii "hello") 5⟩).history := by
  let request : Request := { url := ascii "https://example.com/", maxSize := 2 }
  let r : Reaction Scripted.Codec Scripted.Transport Unit Unit := ⟨fun _ _ s => s⟩
  have hr : ∀ o news w, FreeRun w (r.run o news w) := fun _ _ w => .refl w
  let s₀ : Session Scripted.Codec Scripted.Transport Unit Unit := fresh {}
  let u := s₀.performAll r [.established (some {})]
  let s := (u.submit r request).2
  have hu : FreeRun s₀ u := .performAll hr (fun _ _ => trivial) s₀
  have hs : FreeRun u s := (Activity.refl u).meet r hr (.operation (.submit request)) trivial
  have hopen : u.refusal = none := by decide +kernel
  have hnext : u.nextId = 1 ∧ u.completions.length = 0 := by decide +kernel
  obtain ⟨-, htaken, hwaits⟩ := run_answers (created_fresh _) (hu.trans hs)
  have hfounded := (htaken u r request hu hr hopen (.refl s)).2
  rw [hnext.1, hnext.2] at hfounded
  have hquiet : ∀ e ∈ s.history, e.event = none := by decide +kernel
  have hasked : ¬s.history.Unasked 1 := by
    rintro ⟨later, e, earlier, hsplit, hanswers, -⟩
    have hevent := hquiet e (hsplit ▸ List.mem_append_right _ List.mem_cons_self)
    unfold Entry.Answers at hanswers
    split at hanswers
    · cases hevent
    · cases hevent
    · cases hevent
    · exact hanswers
  let x : Stream := u.newcomer request
  have hx : x ∈ s.registry.snapshot := by decide +kernel
  obtain ⟨hsilent, hnone, hbelieves⟩ := hwaits x hx rfl
  obtain ⟨hended, hcancelled⟩ := hbelieves r hr
  have hid : x.id = 1 := hnext.1
  have hticket : x.ticket = 0 := hnext.2
  rw [hid] at hsilent hended hcancelled
  rw [hticket] at hnone hended
  exact ⟨s₀, u, s, r, request, x, created_fresh _, hu, hr, hopen, rfl, hnext.1, hnext.2, hfounded hasked, hx, hid, hticket,
    hsilent, hnone, hended, hcancelled (ascii "hello") 5 (by decide +kernel) (by decide +kernel)⟩

/-- Two requests wait for the settings. The peer ends the one and sends too much for the other. The one is settled as
answered, and the other is reset, though nothing was ever sent on either. -/
theorem answer_believed :
    ∃ (s₀ s s' : Session Scripted.Codec Scripted.Transport Unit Unit)
      (r : Reaction Scripted.Codec Scripted.Transport Unit Unit), Created s₀ ∧ FreeRun s₀ s ∧
        s.registry.snapshot.map (fun x => (x.id, x.ticket, x.state)) = [(1, 0, .pending), (3, 1, .pending)] ∧
        s' = s.perform r (.bytesReceived []) ∧ ¬s'.history.HeadSent 1 ∧ ¬s'.history.HeadSent 3 ∧
        (∃ outcome, s'.peek 0 = some outcome ∧ outcome.reason = .ended) ∧
        .call (.reset 3 .cancel 0) ∈ s'.history ∧ ¬s'.history.Founded 1 0 ∧ ¬s'.history.Founded 3 1 := by
  let request : Request := { url := ascii "https://example.com/", maxSize := 2 }
  let r : Reaction Scripted.Codec Scripted.Transport Unit Unit := ⟨fun _ _ s => s⟩
  have hr : ∀ o news w, FreeRun w (r.run o news w) := fun _ _ w => .refl w
  let s₀ : Session Scripted.Codec Scripted.Transport Unit Unit := fresh {}
  let waiting := s₀.performAll r [.established (some {}), .submit request, .submit request]
  let answered : Drift Scripted.Codec Scripted.Transport Unit Unit :=
    .scripted { arrival := .events [⟨1, .ended⟩, ⟨3, .data (ascii "hello") 5⟩] }
  let s := waiting.drift answered
  let s' := s.perform r (.bytesReceived [])
  have hrun : FreeRun s₀ s := (Activity.performAll hr (fun _ _ => trivial) s₀).drift answered
  have hunsent : ∀ e ∈ s'.history, e.isHead 1 = false ∧ e.isHead 3 = false := by decide +kernel
  have hfirst : ¬s'.history.HeadSent 1 := History.not_headSent fun e he => (hunsent e he).1
  have hsecond : ¬s'.history.HeadSent 3 := History.not_headSent fun e he => (hunsent e he).2
  have hended : (s'.peek 0).map (·.reason) = some .ended := by decide +kernel
  have hreset : .call (.reset 3 .cancel 0) ∈ s'.history := by decide +kernel
  obtain ⟨outcome, hpeek, hreason⟩ := Option.map_eq_some_iff.1 hended
  obtain ⟨ledger, hd⟩ := FreeRun.disciplined (created_fresh _) (hrun.meet r hr (.operation (.bytesReceived [])) trivial)
  have hsettled : .settled 0 outcome ∈ s'.history := (hd.given 0 outcome).2 (peek_eq_some_iff.1 hpeek)
  have hpending : s.registry.snapshot.map (fun x => (x.id, x.ticket, x.state)) = [(1, 0, .pending), (3, 1, .pending)] := by
    decide +kernel
  exact ⟨s₀, s, s', r, created_fresh _, hrun, hpending, rfl, hfirst, hsecond, ⟨outcome, hpeek, hreason⟩, hreset,
    mt (History.Founded.headSent hsettled ⟨rfl, hreason⟩) hfirst, mt (History.Founded.headSent hreset rfl) hsecond⟩

end Session

end Multiplex
