import Multiplex.Proofs.Activity

/-! A connection that waits for its transport to close. Whatever is asked of it meanwhile, short of news from the
transport itself, its exchanges stay as they are, and new requests are turned away. -/
namespace Multiplex

open Bytes Wire

def Entry.Still : Entry → Prop
  | .call (.initiate _) | .call (.write ..) | .log _ | .settled .. => True
  | _ => False

def Entry.isLose : Entry → Bool
  | .call .lose => true
  | _ => false

theorem Entry.Clerical.isLose {e : Entry} (h : e.Clerical) : e.isLose = false := by
  unfold Entry.isLose
  split
  · exact h.elim
  · rfl

theorem Entry.OfTurn.isLose {e : Entry} {id : UInt32} (h : e.OfTurn id) : e.isLose = false := by
  unfold Entry.isLose
  split
  · exact h.elim
  · rfl

theorem Entry.IsStreamLine.still {e : Entry} (h : e.IsStreamLine) : e.Still := by
  obtain ⟨l, rfl, -⟩ := h
  trivial

namespace Session

variable {κ τ ω σ : Type} {s s' u : Session κ τ ω σ} {r : Reaction κ τ ω σ}

/-! The transport is asked to close once. -/

/-- The transport was asked to close at most once, and not before the connection was closing. -/
def AskedOnce (s : Session κ τ ω σ) : Prop := s.history.countP Entry.isLose ≤ if s.closing then 1 else 0

theorem Created.askedOnce (h : Created s) : s.AskedOnce := by
  obtain ⟨-, -, -, hhistory, -⟩ := h.fields
  unfold AskedOnce
  rw [hhistory]
  exact Nat.zero_le _

theorem AskedOnce.quiet {p : Entry → Prop} (h : s.AskedOnce) (hclosing : s.closing = true → s'.closing = true)
    (hh : s.history.Extends p s'.history) (hp : ∀ e, p e → e.isLose = false) : s'.AskedOnce := by
  unfold AskedOnce at h ⊢
  rw [hh.countP_eq hp]
  cases hs : s.closing with
  | true =>
    rw [hs] at h
    rw [hclosing hs]
    exact h
  | false =>
    rw [hs] at h
    exact Nat.le_trans h (Nat.zero_le _)

theorem Clerical.askedOnce (h : Clerical s s') (ha : s.AskedOnce) : s'.AskedOnce :=
  ha.quiet h.closing h.history fun _ => Entry.Clerical.isLose

theorem Change.askedOnce [Codec κ] (h : Change s s') (ha : s.AskedOnce) : s'.AskedOnce := by
  cases h with
  | clerical h => exact h.askedOnce ha
  | @lose s' h hopen hclosing =>
    have hnone : s'.history.countP Entry.isLose = 0 := by
      unfold AskedOnce at ha
      rw [hopen] at ha
      rw [h.history.countP_eq fun _ => Entry.Clerical.isLose]
      exact Nat.le_zero.1 ha
    unfold AskedOnce
    rw [show (s'.enter (.call .lose)).closing = true from hclosing]
    change (Entry.call .lose :: s'.history).countP Entry.isLose ≤ 1
    rw [List.countP_cons, hnone]
    exact Nat.le_refl 1
  | queue request => exact ha
  | turn hx hprompt =>
    exact ha.quiet id hprompt.continues.history fun _ => Entry.OfTurn.isLose
  | settle => exact ha.quiet id (.cons (p := fun e => e.isLose = false) rfl .refl) fun _ he => he
  | conclude hx hs hopen hh hl =>
    have hlines := hl.imp fun e (he : e.IsStreamLine) => he.clerical.isLose
    exact ha.quiet id (hlines.trans (.cons rfl .refl)) fun _ he => he

theorem Changes.askedOnce [Codec κ] (h : Changes s s') (ha : s.AskedOnce) : s'.AskedOnce := by
  induction h with
  | refl => exact ha
  | tail _ hchange ih => exact hchange.askedOnce ih

/-! The freeze. -/

/-- The connection asked for its end, and has not heard of it. -/
def Leaving (s : Session κ τ ω σ) : Prop := s.closing = true ∧ s.lost = false

structure Frozen (s s' : Session κ τ ω σ) : Prop where
  closing : s'.closing = s.closing
  lost : s'.lost = s.lost
  nextId : s'.nextId = s.nextId
  registry : s'.registry = s.registry
  detached : s'.detached = s.detached
  issued : s.completions.length ≤ s'.completions.length
  peek : ∀ ticket < s.completions.length, s'.peek ticket = s.peek ticket
  history : s.history.Extends Entry.Still s'.history

end Session

def Reaction.Freezes {κ τ ω σ : Type} (r : Reaction κ τ ω σ) : Prop :=
  ∀ o news (s : Session κ τ ω σ), s.Leaving → s.Frozen (r.run o news s)

namespace Session

variable {κ τ ω σ : Type} {s s' u : Session κ τ ω σ} {r : Reaction κ τ ω σ}

theorem length_given (s : Session κ τ ω σ) (ticket : Ticket) (outcome : Outcome) :
    (s.given ticket outcome).completions.length = s.completions.length := List.length_set

theorem peek_given {ticket : Ticket} (ht : ticket < s.completions.length) (outcome : Outcome) :
    (s.given ticket outcome).peek ticket = some outcome := by
  unfold peek
  rw [show (s.given ticket outcome).completions[ticket]? = _ from List.getElem?_set_self ht]
  rfl

namespace Frozen

theorem refl (s : Session κ τ ω σ) : s.Frozen s := ⟨rfl, rfl, rfl, rfl, rfl, Nat.le_refl _, fun _ _ => rfl, .refl⟩

theorem trans (h : s.Frozen u) (h' : u.Frozen s') : s.Frozen s' where
  closing := h'.closing.trans h.closing
  lost := h'.lost.trans h.lost
  nextId := h'.nextId.trans h.nextId
  registry := h'.registry.trans h.registry
  detached := h'.detached.trans h.detached
  issued := Nat.le_trans h.issued h'.issued
  peek := fun ticket ht => (h'.peek ticket (Nat.lt_of_lt_of_le ht h.issued)).trans (h.peek ticket ht)
  history := h.history.trans h'.history

theorem leaving (h : s.Frozen s') (hs : s.Leaving) : s'.Leaving := ⟨h.closing.trans hs.1, h.lost.trans hs.2⟩

theorem of_same (hclosing : s'.closing = s.closing) (hlost : s'.lost = s.lost) (hnext : s'.nextId = s.nextId)
    (hregistry : s'.registry = s.registry) (hdetached : s'.detached = s.detached) (hvalues : s'.values = s.values)
    (hh : s.history.Extends Entry.Still s'.history) : s.Frozen s' where
  closing := hclosing
  lost := hlost
  nextId := hnext
  registry := hregistry
  detached := hdetached
  issued := Nat.le_of_eq (by rw [← length_values, ← length_values, hvalues])
  peek := fun ticket _ => Option.ext fun outcome => by rw [peek_eq_some_iff, peek_eq_some_iff, hvalues]
  history := hh

theorem note (s : Session κ τ ω σ) (level : Log.Level) (message : Bytes) (source : String) :
    s.Frozen (s.note level message source) := .of_same rfl rfl rfl rfl rfl rfl (.cons trivial .refl)

theorem issueTicket (s : Session κ τ ω σ) : s.Frozen s.issueTicket.2 where
  closing := rfl
  lost := rfl
  nextId := rfl
  registry := rfl
  detached := rfl
  issued := by
    rw [show s.issueTicket.2.completions = s.completions ++ [{}] from rfl, List.length_append]
    exact Nat.le_add_right _ _
  peek := by
    intro ticket ht
    unfold Session.peek
    rw [show s.issueTicket.2.completions = s.completions ++ [{}] from rfl, List.getElem?_append_left ht]
  history := .refl

theorem given (h : s.Frozen u) {ticket : Ticket} (ht : s.completions.length ≤ ticket) (outcome : Outcome) :
    s.Frozen (u.given ticket outcome) where
  closing := h.closing
  lost := h.lost
  nextId := h.nextId
  registry := h.registry
  detached := h.detached
  issued := by
    rw [length_given]
    exact h.issued
  peek := by
    intro other hother
    rw [← h.peek other hother]
    unfold Session.peek
    rw [show (u.given ticket outcome).completions = u.completions.set ticket ⟨some outcome, []⟩ from rfl,
      List.getElem?_set_ne (Nat.ne_of_gt (Nat.lt_of_lt_of_le hother ht))]
  history := h.history.trans (.cons trivial .refl)

end Frozen

theorem frozen_tell (hr : r.Freezes) (n : Notice ω) (hs : s.Leaving) : s.Frozen (s.tell r n) := by
  unfold tell
  split
  · exact .of_same rfl rfl rfl rfl rfl rfl .refl
  · have hnote := Frozen.note s .warn (ascii "Event loop unavailable, notifying observer inline") "Completion"
    exact hnote.trans (hr n.observer n.news _ (hnote.leaving hs))

theorem frozen_tellAll (hr : r.Freezes) (os : List ω) (news : News) (hs : s.Leaving) :
    s.Frozen (s.tellAll r os news) := by
  unfold tellAll
  induction os generalizing s with
  | nil => exact .refl s
  | cons o os ih =>
    have hfirst := frozen_tell hr ⟨o, news⟩ hs
    exact hfirst.trans (ih (hfirst.leaving hs))

theorem frozen_observe (hr : r.Freezes) (ticket : Ticket) (o : ω) (hs : s.Leaving) :
    s.Frozen (s.observe r ticket o) := by
  unfold observe
  split
  · exact .refl s
  · rename_i c hc
    have hvalue := Completion.value_observe c o
    split
    · rename_i c' hobserve
      rw [hobserve] at hvalue
      exact .of_same rfl rfl rfl rfl rfl (values_set_same hc hvalue) .refl
    · exact frozen_tell hr _ hs

variable [Codec κ] [Transport τ]

def closedFault : Fault := .plain .networkClosed "Connection already closed"

/-! What is asked in vain of a connection that is closing. -/

omit [Codec κ] [Transport τ] in
theorem refusal_of_closing (hs : s.closing = true) : s.refusal = some closedFault := by
  unfold refusal
  rw [hs, Bool.or_true]
  rfl

theorem handshakeCompleted_of_closing (hs : s.closing = true) (r : Reaction κ τ ω σ) : s.handshakeCompleted r = s := by
  have hnone : s.transport.filter (fun _ => !s.lost && !s.closing) = none := by
    rw [hs]
    simp
  unfold handshakeCompleted
  rw [hnone]

theorem idleTimeout_of_closing (hs : s.closing = true) (r : Reaction κ τ ω σ) : s.idleTimeout r = s := by
  unfold idleTimeout
  rw [hs, Bool.or_true, if_pos rfl]

theorem checkIdle_of_closing (hs : s.closing = true) (r : Reaction κ τ ω σ) : s.checkIdle r = (false, s) := by
  unfold checkIdle
  rw [hs, Bool.or_true, Bool.true_or, if_pos rfl]

theorem bytesReceived_of_closing (hs : s.closing = true) (r : Reaction κ τ ω σ) (data : Bytes) :
    ∃ message, s.bytesReceived r data = s.note .debug message := ⟨_, if_pos (by rw [hs, Bool.or_true])⟩

theorem frozen_submit (hr : r.Freezes) (request : Request) (hs : s.Leaving) :
    s.Frozen (s.submit r request).2 ∧ ∃ outcome, (s.submit r request).2.peek (s.submit r request).1 = some outcome ∧
      outcome.reason = .inactive ∧ outcome.causes = [closedFault] := by
  obtain ⟨message, hsubmit⟩ := submit_of_refused r request (refusal_of_closing hs.1)
  let issued := (s.note .warn message).issueTicket.2
  let x := Stream.new 0 s.completions.length request s.metadata
  have hissued : s.Frozen issued := (Frozen.note s .warn message "Session").trans (.issueTicket _)
  have hlast : issued.completions[s.completions.length]? = some {} := List.getElem?_concat_length
  obtain ⟨history, os, hlines, hfinish⟩ :=
    finish_of_open r .inactive [closedFault] (x := x) StreamState.noConfusion (values_getElem? hlast)
  let outcome := x.outcome s.metadata .inactive [closedFault]
  let noted : Session κ τ ω σ := { issued with history }
  have hnoted : s.Frozen noted := hissued.trans
    (.of_same rfl rfl rfl rfl rfl rfl (hlines.imp fun _ => Entry.IsStreamLine.still))
  have hgiven : s.Frozen (noted.given s.completions.length outcome) := hnoted.given (Nat.le_refl _) outcome
  have hdone : (s.submit r request).2 =
      (noted.given s.completions.length outcome).tellAll r os (.settled x.ticket outcome) := hsubmit.trans hfinish
  have htold := frozen_tellAll hr os (.settled x.ticket outcome) (hgiven.leaving hs)
  have hlt : s.completions.length < noted.completions.length := (List.getElem?_eq_some_iff.1 hlast).1
  rw [ticket_submit, hdone]
  refine ⟨hgiven.trans htold, outcome, ?_, rfl, rfl⟩
  rw [htold.peek _ (length_given noted _ outcome ▸ hlt)]
  exact peek_given hlt outcome

theorem frozen_loseWith (cause : Fault) (hs : s.closing = true) : s.Frozen (s.loseWith r cause) := by
  unfold loseWith
  split
  · exact .note s _ _ _
  · dsimp only
    rw [if_pos hs]
    exact .of_same rfl rfl rfl rfl rfl rfl .refl

theorem frozen_flush (r : Reaction κ τ ω σ) (hs : s.closing = true) : s.Frozen (s.flush r) := by
  rcases flush_cases r s with ⟨-, h | ⟨message, h⟩⟩ | ⟨t, -, -, -, h | ⟨message, cause, h⟩⟩
  · rw [h]
    exact .of_same rfl rfl rfl rfl rfl rfl .refl
  · rw [h]
    exact .of_same rfl rfl rfl rfl rfl rfl (.cons trivial .refl)
  · rw [h]
    exact .of_same rfl rfl rfl rfl rfl rfl (.cons trivial .refl)
  · have hwritten : s.Frozen ((s.written t).note .error message) :=
      .of_same rfl rfl rfl rfl rfl rfl (.cons trivial (.cons trivial .refl))
    rw [h]
    exact hwritten.trans (frozen_loseWith cause hs)

theorem frozen_established (r : Reaction κ τ ω σ) (transport : Option τ) (hs : s.closing = true) :
    s.Frozen (s.established r transport) := by
  rcases established_cases r transport s with ⟨level, message, h⟩ | ⟨t, -, h⟩
  · rw [h]
    exact .note s _ _ _
  · have hopening : s.Frozen (s.opening t) :=
      .of_same rfl rfl rfl rfl rfl rfl (.cons trivial (.cons trivial .refl))
    rw [h]
    exact hopening.trans (frozen_flush r hs)

/-- Neither news of the loss of the transport, nor the end of the connection, nor word that an exchange is closed. -/
def Demand.Routine : Demand τ ω → Prop
  | .operation (.transportLost _) | .operation .discard | .streamClosed _ => False
  | _ => True

theorem frozen_meet (hr : r.Freezes) {d : Demand τ ω} (hd : d.Routine) (hs : s.Leaving) : s.Frozen (s.meet r d) := by
  cases d with
  | streamClosed id => exact hd.elim
  | operation op =>
    cases op with
    | submit request => exact (frozen_submit hr request hs).1
    | observe ticket observer => exact frozen_observe hr ticket observer hs
    | established transport => exact frozen_established r transport hs.1
    | handshakeCompleted =>
      rw [meet, perform, handshakeCompleted_of_closing hs.1]
      exact .refl s
    | bytesReceived data =>
      obtain ⟨message, h⟩ := bytesReceived_of_closing hs.1 r data
      rw [meet, perform, h]
      exact .note s _ _ _
    | idleTimeout =>
      rw [meet, perform, idleTimeout_of_closing hs.1]
      exact .refl s
    | checkIdle =>
      rw [meet, perform, checkIdle_of_closing hs.1]
      exact .refl s
    | transportLost cause => exact hd.elim
    | discard => exact hd.elim

theorem Activity.frozen (h : Activity Demand.Routine s s') (hs : s.Leaving) : s.Frozen s' := by
  induction h with
  | refl s => exact .refl s
  | meet _ r _ d hd ih ihr =>
    have hbefore := ih hs
    exact hbefore.trans (frozen_meet (fun o news u hu => ihr o news u hu) hd (hbefore.leaving hs))
  | drift _ d ih => exact (ih hs).trans (.of_same rfl rfl rfl rfl rfl rfl .refl)
  | stop _ ih => exact (ih hs).trans (.of_same rfl rfl rfl rfl rfl rfl .refl)

/-! Batches. -/

theorem handleAll_of_closing (r : Reaction κ τ ω σ) (events : List Event) (hs : s.closing = true) :
    s.handleAll r events = s := by
  unfold handleAll
  induction events with
  | nil => rfl
  | cons event events ih =>
    rw [List.foldl_cons, if_pos (by rw [hs, Bool.or_true])]
    exact ih

theorem handleAll_append (r : Reaction κ τ ω σ) (before after : List Event) (s : Session κ τ ω σ) :
    s.handleAll r (before ++ after) = (s.handleAll r before).handleAll r after := List.foldl_append

/-- A batch ends with the event that makes the connection close. Only the output that there is by then is still sent. -/
theorem bytesReceived_cut_short {data : Bytes} {before after : List Event} (hs : s.Serving)
    (hbatch : (Codec.receive s.codec data).1 = .ok (before ++ after))
    (hclosing : ((s.received data).handleAll r before).closing = true) :
    s.bytesReceived r data = ((s.received data).handleAll r before).flush r := by
  rw [bytesReceived_of_batch hs hbatch, handleAll_append, handleAll_of_closing r after hclosing]

/-- Until it hears of its end, a connection that is closing stays frozen whatever routine is asked of it, by whoever, on
a loop that may have stopped; every request meanwhile is turned away. A batch stops at the event that makes the
connection close. And in a whole run the transport is asked to close at most once. -/
theorem run_freeze {s₀ : Session κ τ ω σ} (h₀ : Created s₀) (h : FreeRun s₀ s) :
    (s.closing = true → s.lost = false → ∀ s', Activity Demand.Routine s s' → s.Frozen s' ∧
      ∀ (r : Reaction κ τ ω σ) (request : Request), (∀ o news w, Activity Demand.Routine w (r.run o news w)) →
        s.Frozen (s'.submit r request).2 ∧
        ∃ outcome, (s'.submit r request).2.peek (s'.submit r request).1 = some outcome ∧
          outcome.reason = .inactive ∧ outcome.causes = [.plain .networkClosed "Connection already closed"]) ∧
    (s.lost = false → s.closing = false → ∀ (r : Reaction κ τ ω σ) data before event after,
      (Codec.receive s.codec data).1 = .ok (before ++ event :: after) →
        ∀ u, u = (s.received data).handleAll r (before ++ [event]) → u.closing = true →
          s.bytesReceived r data = u.flush r ∧ u.Frozen (s.bytesReceived r data)) ∧
    s.history.countP Entry.isLose ≤ 1 := by
  refine ⟨fun hclosing hlost s' h' => ?_, fun hlost hopen r data before event after hbatch u hu hclosing => ?_, ?_⟩
  · have hfrozen := h'.frozen ⟨hclosing, hlost⟩
    refine ⟨hfrozen, fun r request hr => ?_⟩
    obtain ⟨hsubmit, hsettled⟩ :=
      frozen_submit (fun o news w hw => (hr o news w).frozen hw) request (hfrozen.leaving ⟨hclosing, hlost⟩)
    exact ⟨hfrozen.trans hsubmit, hsettled⟩
  · subst hu
    rw [List.append_cons] at hbatch
    rw [bytesReceived_cut_short ⟨hlost, hopen⟩ hbatch hclosing]
    exact ⟨rfl, frozen_flush r hclosing⟩
  · have hasked : s.AskedOnce := (Activity.changes h h₀.tidy).askedOnce h₀.askedOnce
    unfold AskedOnce at hasked
    split at hasked
    · exact hasked
    · exact Nat.le_trans hasked (Nat.zero_le 1)

/-- The peer says farewell in the middle of a batch, and the transport takes its time. One exchange runs and one waits.
-/
theorem run_freeze_scripted :
    ∃ (s₀ t u s s' : Session Scripted.Codec Scripted.Transport Unit Unit)
      (r : Reaction Scripted.Codec Scripted.Transport Unit Unit) (request : Request) (event : Event) (after : List Event),
        Created s₀ ∧ FreeRun s₀ t ∧ t.lost = false ∧ t.closing = false ∧
        (Codec.receive t.codec []).1 = .ok ([] ++ event :: after) ∧ u = (t.received []).handleAll r [event] ∧
        u.closing = true ∧ s = t.perform r (.bytesReceived []) ∧ u.Frozen s ∧ s.closing = true ∧ s.lost = false ∧
        s.registry.snapshot.map (fun x => (x.id, x.state)) = [(1, .halfClosed), (3, .pending)] ∧
        Activity Demand.Routine s s' ∧ s.Frozen s' ∧ s.history.countP Entry.isLose = 1 ∧
        s'.history.countP Entry.isLose ≤ 1 ∧
        ∃ outcome, (s'.submit r request).2.peek (s'.submit r request).1 = some outcome ∧ outcome.reason = .inactive ∧
          outcome.causes = [.plain .networkClosed "Connection already closed"] := by
  let request : Request := { url := ascii "https://example.com/" }
  let r : Reaction Scripted.Codec Scripted.Transport Unit Unit := ⟨fun _ _ s => s⟩
  let s₀ : Session Scripted.Codec Scripted.Transport Unit Unit :=
    fresh { localLimit := 1, arrival := .events [{ body := .settingsAcknowledged }] }
  let started := s₀.performAll r
    [.established (some { onLose := .later }), .bytesReceived [], .submit request, .submit request]
  let event : Event := { body := .terminated .noError 1 [] }
  let after : List Event := [⟨1, .data (ascii "late") 4⟩, ⟨1, .ended⟩]
  let leaving : Drift Scripted.Codec Scripted.Transport Unit Unit := .scripted { arrival := .events (event :: after) }
  let t := started.drift leaving
  let s := t.perform r (.bytesReceived [])
  let ops : List (Operation Scripted.Transport Unit) :=
    [.submit request, .observe 0 (), .bytesReceived [], .handshakeCompleted, .idleTimeout, .checkIdle]
  have hfree : ∀ o news w, FreeRun w (r.run o news w) := fun _ _ w => .refl w
  have hroutine : ∀ o news w, Activity Demand.Routine w (r.run o news w) := fun _ _ w => .refl w
  have ht : FreeRun s₀ t := (Activity.performAll hfree (fun _ _ => trivial) s₀).drift leaving
  have hs : FreeRun s₀ s := ht.meet r hfree (.operation (.bytesReceived [])) trivial
  have hops : ∀ op ∈ ops, Demand.Routine (.operation op) := by simp [ops, Demand.Routine]
  have hs' : Activity Demand.Routine s (s.performAll r ops) := .performAll hroutine hops s
  have hserving : t.lost = false ∧ t.closing = false := by decide +kernel
  have hclosing : ((t.received []).handleAll r [event]).closing = true := by decide +kernel
  have hleaving : s.closing = true ∧ s.lost = false := by decide +kernel
  have hexchanges : s.registry.snapshot.map (fun x => (x.id, x.state)) = [(1, .halfClosed), (3, .pending)] := by
    decide +kernel
  have hasked : s.history.countP Entry.isLose = 1 := by decide +kernel
  obtain ⟨-, hbatch, -⟩ := run_freeze (created_fresh _) ht
  obtain ⟨-, hflushed⟩ := hbatch hserving.1 hserving.2 r [] [] event after rfl _ rfl hclosing
  obtain ⟨hfreeze, -, -⟩ := run_freeze (created_fresh _) hs
  obtain ⟨hfrozen, hsubmit⟩ := hfreeze hleaving.1 hleaving.2 _ hs'
  have hsilent : (s.performAll r ops).history.countP Entry.isLose ≤ 1 := by decide +kernel
  exact ⟨s₀, t, _, s, _, r, request, event, after, created_fresh _, ht, hserving.1, hserving.2, rfl, rfl, hclosing, rfl,
    hflushed, hleaving.1, hleaving.2, hexchanges, hs', hfrozen, hasked, hsilent, (hsubmit r request hroutine).2⟩

end Session

end Multiplex
