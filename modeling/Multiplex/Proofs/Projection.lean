import Mathlib.Data.List.Infix
import Multiplex.Proofs.Assembly
import Multiplex.Proofs.Teardown

/-! Responses as projections of a run. Of all events that a connection takes up, those that name an exchange while it is
registered make up its response, in their order; whatever else is dispatched in between does not show in it. -/
namespace Multiplex

open Bytes Wire

namespace History

def addressed (id : UInt32) (h : History) : List Event := (h.select Entry.event).filter (·.stream == id)

/-- The events about the exchange with an id that were dispatched before its request was settled. -/
def heard (id : UInt32) (ticket : Ticket) : History → List Event
  | [] => []
  | e :: h => heard id ticket h ++ if h.any (Entry.settles ticket) then [] else e.event.toList.filter (·.stream == id)

def since (old h : History) : History := h.take (h.length - old.length)

theorem since_append (new old : History) : since old (new ++ old) = new := by
  unfold since
  rw [List.length_append, Nat.add_sub_cancel, List.take_left]

variable {id : UInt32} {ticket : Ticket} {h : History}

theorem heard_append_of_eventless {new : History} (hnew : ∀ e ∈ new, e.event = none) :
    heard id ticket (new ++ h) = h.heard id ticket := by
  induction new with
  | nil => rfl
  | cons e new ih =>
    obtain ⟨he, hrest⟩ := List.forall_mem_cons.1 hnew
    rw [List.cons_append, heard, he, Option.toList_none, List.filter_nil, ite_self, List.append_nil, ih hrest]

theorem heard_cons_of_settled (hs : h.any (Entry.settles ticket) = true) (e : Entry) :
    heard id ticket (e :: h) = h.heard id ticket := by
  rw [heard, if_pos hs, List.append_nil]

theorem heard_cons_dispatched (hs : h.any (Entry.settles ticket) = false) (event : Event) :
    heard id ticket (.dispatched event :: h) =
      h.heard id ticket ++ if event.stream = id then [event] else [] := by
  rw [heard, hs, if_neg Bool.false_ne_true]
  by_cases hid : event.stream = id
  · simp [Entry.event, hid]
  · simp [Entry.event, hid]

theorem addressed_cons (e : Entry) (h : History) :
    addressed id (e :: h) = h.addressed id ++ e.event.toList.filter (·.stream == id) := by
  rw [addressed, select_cons, List.filter_append]
  rfl

theorem heard_eq_addressed (hs : h.any (Entry.settles ticket) = false) : h.heard id ticket = h.addressed id := by
  induction h with
  | nil => rfl
  | cons e h ih =>
    rw [List.any_cons, Bool.or_eq_false_iff] at hs
    rw [heard, addressed_cons, ih hs.2, hs.2, if_neg Bool.false_ne_true]

theorem heard_prefix (id : UInt32) (ticket : Ticket) (h : History) : h.heard id ticket <+: h.addressed id := by
  induction h with
  | nil => exact List.prefix_rfl
  | cons e h ih =>
    rw [addressed_cons]
    cases hs : h.any (Entry.settles ticket) with
    | true =>
      rw [heard_cons_of_settled hs]
      exact ih.trans (List.prefix_append _ _)
    | false =>
      rw [heard, hs, if_neg Bool.false_ne_true, heard_eq_addressed hs]

end History

structure Response.Assembled (events : List Event) (r : Response) : Prop where
  headers : r.headers = Header.ofMessage (events.flatMap Event.headers)
  body : r.body = events.flatMap Event.bytes

theorem Response.Assembled.next {events : List Event} {event : Event} {r r' : Response} (h : r.Assembled events)
    (hg : r.Grows (Header.ofMessage event.headers) event.bytes r') : r'.Assembled (events ++ [event]) := by
  constructor
  · rw [hg.headers, h.headers, List.flatMap_append, Header.ofMessage_append, List.flatMap_singleton]
  · rw [hg.body, h.body, List.flatMap_append, List.flatMap_singleton]

theorem Response.Assembled.same {events : List Event} {r r' : Response} (h : r.Assembled events)
    (hg : r.Grows [] [] r') : r'.Assembled events := by
  constructor
  · rw [hg.headers, h.headers, List.append_nil]
  · rw [hg.body, h.body, List.append_nil]

/-- Events of which exactly the last says that the response is complete. -/
def Concluded (events : List Event) : Prop :=
  ∃ earlier last, events = earlier ++ [last] ∧ last.body = .ended ∧ ∀ event ∈ earlier, event.body ≠ .ended

/-- Such a sequence of events ends where the first of them says so. -/
theorem Concluded.eq_of_prefix {events events' all : List Event} (h : Concluded events) (h' : Concluded events')
    (hp : events <+: all) (hp' : events' <+: all) : events = events' := by
  have hle : ∀ {a b : List Event}, Concluded a → Concluded b → a <+: b → a = b := by
    rintro a b ⟨xs, x, rfl, hx, -⟩ ⟨ys, y, rfl, -, hys⟩ hab
    rcases List.prefix_concat_iff.1 hab with heq | hab
    · exact heq
    · exact absurd hx (hys x (hab.subset (List.mem_append_right _ (List.mem_singleton_self x))))
  rcases List.prefix_or_prefix_of_prefix hp hp' with hpp | hpp
  · exact hle h h' hpp
  · exact (hle h' h hpp).symm

/-- A request gets the response that some events make up, at the last of them. -/
structure Outcome.Answers (request : Request) (events : List Event) (o : Outcome) : Prop where
  response : o.response.Assembled events
  url : o.response.url = request.url
  protocol : o.response.protocol = ascii "h2"
  concluded : Concluded events

def Entry.Unheard (e : Entry) : Prop :=
  e.event = none ∧ ∀ ticket outcome, e = .settled ticket outcome → outcome.reason ≠ .ended

theorem Entry.Unheard.of_log (l : Log.Line) : (Entry.log l).Unheard := ⟨rfl, fun _ _ h => Entry.noConfusion h⟩

theorem Entry.Unheard.of_call (c : Call) : (Entry.call c).Unheard := ⟨rfl, fun _ _ h => Entry.noConfusion h⟩

theorem Entry.OfTurn.unheard {id : UInt32} {e : Entry} (h : e.OfTurn id) : e.Unheard := by
  cases e with
  | log l => exact .of_log l
  | call c => exact .of_call c
  | _ => exact h.elim

theorem Entry.unheard_settled {ticket : Ticket} {outcome : Outcome} (hr : outcome.reason ≠ .ended) :
    (Entry.settled ticket outcome).Unheard := by
  refine ⟨rfl, fun t o h => ?_⟩
  cases h
  exact hr

theorem Entry.IsPlainLine.unheard {e : Entry} (h : e.IsPlainLine) : e.Unheard := by
  obtain ⟨l, rfl, -⟩ := h
  exact .of_log l

theorem History.Extends.unheard {h h' : History} (hh : h.Extends Entry.IsPlainLine h') :
    h.Extends Entry.Unheard h' := hh.imp fun _ => Entry.IsPlainLine.unheard

namespace Registry

structure Entry.Follows (fields : Headers) (bytes : Bytes) (x y : Entry Stream) : Prop where
  id : y.id = x.id
  ticket : y.item.ticket = x.item.ticket
  request : y.item.request = x.item.request
  response : x.item.response.Grows fields bytes y.item.response

namespace Entry.Follows

variable {x y z : Entry Stream}

theorem refl (x : Entry Stream) : Follows [] [] x x := ⟨rfl, rfl, rfl, .refl _⟩

end Entry.Follows

end Registry

namespace Session

variable {κ τ ω σ : Type} {s s' u v : Session κ τ ω σ} {x : Stream} {id : UInt32} {ticket : Ticket} {event : Event}
  {request : Request} {new old : History}

structure Silent (s s' : Session κ τ ω σ) : Prop where
  history : s.history.Extends Entry.Unheard s'.history
  kept : ∀ y ∈ s'.registry.entries, y.item.state ≠ .closed → y.id = s.nextId ∨
    ∃ x ∈ s.registry.entries, x.item.state ≠ .closed ∧ x.Follows [] [] y

def Reaches (event : Event) (x y : Registry.Entry Stream) : Prop :=
  x.Follows (if x.id = event.stream then Header.ofMessage event.headers else [])
    (if x.id = event.stream then event.bytes else []) y

structure Completes (event : Event) (ticket : Ticket) (outcome : Outcome) (s s' : Session κ τ ω σ) : Prop where
  body : event.body = .ended
  exchange : ∃ x ∈ s.registry.entries, x.item.state ≠ .closed ∧ x.id = event.stream ∧ x.item.ticket = ticket ∧
    outcome = x.item.outcome s.metadata .ended []
  gone : ∀ y ∈ s'.registry.entries, y.id ≠ event.stream

/-- An event comes in. The exchange that it names takes it up, unless it has ended. -/
structure Hears (event : Event) (s s' : Session κ τ ω σ) : Prop where
  history : ∃ added, s'.history = added ++ .dispatched event :: s.history ∧ ∀ e ∈ added, e.event = none ∧
    ∀ ticket outcome, e = .settled ticket outcome → outcome.reason = .ended → Completes event ticket outcome s s'
  kept : ∀ y ∈ s'.registry.entries, y.item.state ≠ .closed →
    (event.body = .ended → y.id ≠ event.stream) ∧
      ∃ x ∈ s.registry.entries, x.item.state ≠ .closed ∧ Reaches event x y

theorem Silent.of_subset (hregistry : s'.registry.entries ⊆ s.registry.entries)
    (hh : s.history.Extends Entry.Unheard s'.history) : Silent s s' :=
  ⟨hh, fun y hy hopen => Or.inr ⟨y, hregistry hy, hopen, .refl y⟩⟩

theorem Silent.given {outcome : Outcome} (h : Silent s s') (hr : outcome.reason ≠ .ended) :
    Silent s (s'.given ticket outcome) :=
  ⟨h.history.trans (.cons (Entry.unheard_settled hr) .refl), h.kept⟩

theorem Hears.given {outcome : Outcome} (h : Hears event s s') (hr : outcome.reason ≠ .ended) :
    Hears event s (s'.given ticket outcome) := by
  obtain ⟨added, hadded, hquiet⟩ := h.history
  refine ⟨⟨.settled ticket outcome :: added, ?_, ?_⟩, h.kept⟩
  · exact congrArg (Entry.settled ticket outcome :: ·) hadded
  · intro e he
    rcases List.mem_cons.1 he with rfl | he
    · refine ⟨rfl, fun t o heq hended => ?_⟩
      cases heq
      exact absurd hended hr
    · refine ⟨(hquiet e he).1, fun t o heq hended => ?_⟩
      obtain ⟨hbody, hexchange, hgone⟩ := (hquiet e he).2 t o heq hended
      exact ⟨hbody, hexchange, hgone⟩

theorem Hears.of_same {history : History} (hregistry : s'.registry = s.registry) (hh : s'.history = history)
    (hlines : History.Extends Entry.Unheard (.dispatched event :: s.history) history)
    (hnone : ∀ x ∈ s.registry.entries, x.item.state ≠ .closed → x.id = event.stream →
      Header.ofMessage event.headers = [] ∧ event.bytes = [] ∧ event.body ≠ .ended) : Hears event s s' := by
  obtain ⟨added, rfl, hquiet⟩ := hlines
  refine ⟨⟨added, hh, fun e he => ⟨(hquiet e he).1, fun t o heq hended => ?_⟩⟩, fun y hy hopen => ?_⟩
  · exact absurd hended ((hquiet e he).2 t o heq)
  · rw [hregistry] at hy
    refine ⟨fun hbody hid => (hnone y hy hopen hid).2.2 hbody, y, hy, hopen, ?_⟩
    unfold Reaches
    by_cases hid : y.id = event.stream
    · rw [if_pos hid, if_pos hid, (hnone y hy hopen hid).1, (hnone y hy hopen hid).2.1]
      exact .refl y
    · rw [if_neg hid, if_neg hid]
      exact .refl y

variable [Codec κ] [Transport τ] {w : Surroundings κ τ ω σ} {act : Metadata → Turn κ → Turn κ}

theorem Takes.origin (h : Takes s x u act) (hi : s.Intact) {y : Registry.Entry Stream}
    (hy : y ∈ (u.turned (act u.metadata (u.turnOf x))).registry.entries) (hopen : y.item.state ≠ .closed) :
    ∃ z ∈ s.registry.entries, z.item.state ≠ .closed ∧ z.id = y.id ∧
      (z.item = y.item ∧ z.id ≠ x.id ∨ z.item = x ∧ z.id = x.id ∧ y.item = (act u.metadata (u.turnOf x)).stream) := by
  obtain ⟨y', hy', rfl⟩ := List.mem_map.1 hy
  obtain ⟨z, hz, hid, hitem⟩ := h.entries hy'
  have hticket := h.prompt.continues.ticket
  split at hopen
  · rename_i hsame
    have hown : z.item = x := hi.entry hz h.mem (hitem.symm ▸ (beq_iff_eq.1 hsame).trans hticket)
    have hnot : x.state ≠ .closed := fun hs => hopen ((congrArg Stream.state (h.idles hs).stream).trans hs)
    rw [if_pos hsame]
    exact ⟨z, hz, hown ▸ hnot, hid, Or.inr ⟨hown, hown ▸ (hi.ids z hz).symm, rfl⟩⟩
  · rename_i hother
    rw [if_neg hother]
    refine ⟨z, hz, hitem ▸ hopen, hid, Or.inl ⟨hitem, fun hsame => hother (beq_iff_eq.2 ?_)⟩⟩
    rw [← hitem, hi.eq_of_id (mem_inPlay_of_entry hz) h.mem ((hi.ids z hz).trans hsame)]
    exact hticket.symm

theorem Takes.follows (h : Takes s x u act) (hi : s.Intact) {fields : Headers} {bytes : Bytes}
    (hg : x.state ≠ .closed → x.response.Grows fields bytes (act u.metadata (u.turnOf x)).stream.response)
    {y : Registry.Entry Stream} (hy : y ∈ (u.turned (act u.metadata (u.turnOf x))).registry.entries)
    (hopen : y.item.state ≠ .closed) : ∃ z ∈ s.registry.entries, z.item.state ≠ .closed ∧
      z.Follows (if z.id = x.id then fields else []) (if z.id = x.id then bytes else []) y := by
  have hcontinues := h.prompt.continues
  obtain ⟨z, hz, hnot, hid, ⟨hitem, hne⟩ | ⟨rfl, hown, hitem⟩⟩ := h.origin hi hy hopen
  · refine ⟨z, hz, hnot, ?_⟩
    rw [if_neg hne, if_neg hne]
    exact ⟨hid.symm, congrArg Stream.ticket hitem.symm, congrArg Stream.request hitem.symm,
      .of_eq (congrArg Stream.response hitem.symm)⟩
  · refine ⟨z, hz, hnot, ?_⟩
    rw [if_pos hown, if_pos hown]
    exact ⟨hid.symm, hitem ▸ hcontinues.ticket, hitem ▸ hcontinues.request, hitem ▸ hg hnot⟩

/-- No turn says that a response is complete. -/
theorem Takes.unended (h : Takes s x u act) : (act u.metadata (u.turnOf x)).Unended := by
  cases h with
  | start => exact Turn.unended_initiate rfl
  | head fields => exact (Turn.steps_receiveHeaders _ fields).unended (Turn.unended_of_none rfl)
  | data bytes length => exact (Turn.steps_receiveData _ bytes length).unended (Turn.unended_of_none rfl)
  | window => exact (Turn.steps_receiveWindowUpdate _).unended (Turn.unended_of_none rfl)

theorem Takes.silent (h : Takes s x u act) (hi : s.Intact) (hbefore : s.history.Extends Entry.Unheard u.history)
    (hsame : (act u.metadata (u.turnOf x)).stream.response = x.response) :
    Silent s (u.turned (act u.metadata (u.turnOf x))) := by
  refine ⟨hbefore.trans (h.prompt.continues.history.imp fun _ => Entry.OfTurn.unheard), fun y hy hopen => Or.inr ?_⟩
  obtain ⟨z, hz, hnot, hfollows⟩ := h.follows hi (fun _ => .of_eq hsame) hy hopen
  rw [ite_self, ite_self] at hfollows
  exact ⟨z, hz, hnot, hfollows⟩

theorem Takes.hears (h : Takes s x u act) (hi : s.Intact) (hbefore : u.history = .dispatched event :: s.history)
    (hid : x.id = event.stream) (hbody : event.body ≠ .ended)
    (hg : x.state ≠ .closed → x.response.Grows (Header.ofMessage event.headers) event.bytes
      (act u.metadata (u.turnOf x)).stream.response) : Hears event s (u.turned (act u.metadata (u.turnOf x))) := by
  obtain ⟨added, hadded, hof⟩ := h.prompt.continues.history
  have hhistory : (u.turned (act u.metadata (u.turnOf x))).history = added ++ .dispatched event :: s.history :=
    hadded.trans (congrArg (added ++ ·) hbefore)
  refine ⟨⟨added, hhistory, fun e he => ?_⟩, fun y hy hopen => ⟨fun hended => absurd hended hbody, ?_⟩⟩
  · have hunheard := (hof e he).unheard
    exact ⟨hunheard.1, fun t o heq hended => absurd hended (hunheard.2 t o heq)⟩
  · obtain ⟨z, hz, hnot, hfollows⟩ := h.follows hi hg hy hopen
    rw [hid] at hfollows
    exact ⟨z, hz, hnot, hfollows⟩

/-- What a turn makes of responses. -/
theorem Takes.takesUp (h : Takes s x u act) (hi : s.Intact) :
    Silent s (u.turned (act u.metadata (u.turnOf x))) ∨
      ∃ event, Hears event s (u.turned (act u.metadata (u.turnOf x))) := by
  have hturn := h
  cases h with
  | start =>
    exact Or.inl (hturn.silent hi (.cons ⟨rfl, fun _ _ h => Entry.noConfusion h⟩ (.cons (.of_log _) .refl))
      Turn.response_initiate)
  | head fields =>
    refine Or.inr ⟨⟨x.id, .response fields⟩, hturn.hears hi rfl rfl EventBody.noConfusion fun hopen => ?_⟩
    exact Turn.grows_receiveHeaders (t := Session.turnOf x _) fields hopen
  | data bytes length =>
    refine Or.inr ⟨⟨x.id, .data bytes length⟩, hturn.hears hi rfl rfl EventBody.noConfusion fun hopen => ?_⟩
    exact Turn.grows_receiveData (t := Session.turnOf x _) bytes length hopen
  | window => exact Or.inl (hturn.silent hi .refl (Turn.steps_receiveWindowUpdate _).response)

omit [Codec κ] [Transport τ] in
theorem Overlooks.nothing (h : s.Overlooks event) (hi : s.Intact) {x : Registry.Entry Stream}
    (hx : x ∈ s.registry.entries) (hopen : x.item.state ≠ .closed) (hid : x.id = event.stream) :
    Header.ofMessage event.headers = [] ∧ event.bytes = [] ∧ event.body ≠ .ended := by
  have hfind : s.registry.find event.stream = some x.item := by
    rw [← hid, Registry.find, hi.ordered.coherent.findEntry_of_mem hx]
    rfl
  obtain ⟨stream, body⟩ := event
  unfold Overlooks at h
  cases body with
  | data => exact h.elim
  | response => exact absurd (hfind.symm.trans h) (Option.some_ne_none _)
  | ended => exact absurd (h x.item hfind) hopen
  | _ => exact ⟨rfl, rfl, EventBody.noConfusion⟩

omit [Codec κ] [Transport τ] in
theorem hears_conclude {e : Registry.Entry Stream} {body : EventBody} {reason : CloseReason} {causes : List Fault}
    {history : History} (he : e ∈ s.registry.entries) (hopen : e.item.state ≠ .closed) (hb : body.Ends reason causes)
    (hh : History.Extends Entry.IsPlainLine (.dispatched ⟨e.id, body⟩ :: s.history) history) :
    Hears ⟨e.id, body⟩ s (({ s with registry := (s.registry.remove e.id).2, history } : Session κ τ ω σ).given
      e.item.ticket (e.item.outcome s.metadata reason causes)) := by
  obtain ⟨added, rfl, hquiet⟩ := hh.unheard
  have hgone : ∀ y ∈ (s.registry.remove e.id).2.entries, y.id ≠ e.id := fun _ hy => Registry.ne_of_mem_remove hy
  refine ⟨⟨.settled e.item.ticket (e.item.outcome s.metadata reason causes) :: added, rfl, fun entry hentry => ?_⟩,
    fun y hy hnot => ⟨fun _ => hgone y hy, y, mem_entries_removed hy, hnot, ?_⟩⟩
  · rcases List.mem_cons.1 hentry with rfl | hentry
    · refine ⟨rfl, fun t o heq hended => ?_⟩
      cases heq
      cases hb with
      | ended => exact ⟨rfl, ⟨e, he, hopen, rfl, rfl, rfl⟩, hgone⟩
      | reset => exact CloseReason.noConfusion hended
    · exact ⟨(hquiet entry hentry).1, fun t o heq hended => absurd hended ((hquiet entry hentry).2 t o heq)⟩
  · unfold Reaches
    rw [if_neg (hgone y hy), if_neg (hgone y hy)]
    exact .refl y

theorem Transition.takesUp (h : Transition w s s') (hi : s.Intact) : Silent s s' ∨ ∃ event, Hears event s s' := by
  have hsame : ∀ {s'}, s'.registry = s.registry → s.history.Extends Entry.Unheard s'.history →
      Silent s s' ∨ ∃ event, Hears event s s' := fun hregistry hh => Or.inl (.of_subset (hregistry ▸ fun _ => id) hh)
  cases h with
  | close h _ _ he =>
    have hr := h.unended _ he
    exact (h.takesUp hi).imp (fun h => h.given hr) (Exists.imp fun _ h => h.given hr)
  | lose | gate => exact hsame rfl .refl
  | clear => exact Or.inl (.of_subset (List.nil_subset _) .refl)
  | atomic h =>
    cases h with
    | turn h => exact h.takesUp hi
    | pass event hs hover =>
      exact Or.inr ⟨event, .of_same rfl rfl .refl fun x hx hopen hid => hover.nothing hi hx hopen hid⟩
    | stray id bytes length hs hn hh =>
      refine Or.inr ⟨⟨id, .data bytes length⟩, .of_same rfl rfl (hh.unheard.trans (.cons (.of_call _) .refl)) ?_⟩
      -- Nobody is registered under the id, so nobody misses the data.
      intro x hx _ hid
      have hfind : s.registry.find id = some x.item := by
        rw [← show x.id = id from hid, Registry.find, hi.ordered.coherent.findEntry_of_mem hx]
        rfl
      exact absurd (hfind.symm.trans hn) (Option.some_ne_none _)
    | conclude hs he hopen hv hb hh => exact Or.inr ⟨_, hears_conclude he hopen hb hh⟩
    | queue request =>
      refine Or.inl ⟨.refl, fun y hy hopen => ?_⟩
      rcases List.mem_append.1 hy with hy | hy
      · exact Or.inr ⟨y, hy, hopen, .refl y⟩
      · rw [List.mem_singleton.1 hy]
        exact Or.inl rfl
    | refuse _ _ _ hh =>
      exact hsame rfl (hh.unheard.trans (.cons (Entry.unheard_settled CloseReason.noConfusion) .refl))
    | @dismiss x _ _ _ _ _ _ hh =>
      have hr : (x.lossOutcome s.metadata s.causes).reason ≠ .ended := by
        unfold Stream.lossOutcome
        split <;> exact CloseReason.noConfusion
      exact hsame rfl (hh.unheard.trans (.cons (Entry.unheard_settled hr) .refl))
    | lines hh => exact hsame rfl hh.unheard
    | leave id => exact Or.inl (.of_subset (fun _ he => mem_entries_removed he) .refl)
    | @report x registry hd hx =>
      have hsub := Registry.entries_remove s.registry x.id
      rw [hx] at hsub
      exact Or.inl (.of_subset hsub.subset .refl)
    | notify | observe | hold | drift | stop | drop | acknowledged | certified | drain | blame => exact hsame rfl .refl
    | inline => exact hsame rfl (.cons (.of_log _) .refl)
    | twice => exact hsame rfl (.cons (.of_log _) .refl)
    | receive | write | farewell | ask => exact hsame rfl (.cons (.of_call _) .refl)
    | announce => exact hsame rfl (.cons ⟨rfl, fun _ _ h => Entry.noConfusion h⟩ .refl)
    | establish => exact hsame rfl (.cons (.of_call _) (.cons (.of_log _) .refl))

/-! What the exchange of a request holds. -/

omit [Codec κ] [Transport τ] in
def Absent (id : UInt32) (s : Session κ τ ω σ) : Prop := ∀ e ∈ s.registry.entries, e.id ≠ id

theorem Transition.absent (h : Transition w s s') (hi : s.Intact) (hlt : id < s.nextId) (ha : s.Absent id) :
    s'.Absent id := by
  have hold : ∀ k ∈ s.registry.keys, k.id ≠ id := by
    intro k hk
    obtain ⟨e, he, rfl⟩ := Registry.mem_keys.1 hk
    exact ha e he
  intro e he
  have hkey : e.key ∈ s'.registry.keys := Registry.key_mem he
  rcases h.numbers hi with hcalm | ⟨_, _, hstarts⟩ | hqueues
  · exact hold _ (hcalm.keys.subset hkey)
  · obtain ⟨k, hk, heq⟩ := hstarts.old hkey
    have hid : e.id = k.id := (congrArg Registry.Key.id heq).trans (Registry.Key.id_marked _ k)
    exact hid ▸ hold k hk
  · rw [hqueues.keys, List.mem_append, List.mem_singleton] at hkey
    rcases hkey with hkey | hkey
    · exact hold _ hkey
    · have hid : e.id = s.nextId := congrArg Registry.Key.id hkey
      exact hid ▸ (UInt32.ne_of_lt hlt).symm

omit [Codec κ] [Transport τ] in
/-- The exchange of a request holds the response that was heard since it was queued. Once the response is complete, the
exchange is gone. -/
structure Assembles (id : UInt32) (ticket : Ticket) (request : Request) (new : History) (s : Session κ τ ω σ) :
    Prop where
  held : ∀ e ∈ s.registry.entries, e.id = id → e.item.state ≠ .closed → e.item.request = request ∧
    e.item.response.Assembled (new.heard id ticket) ∧ ∀ event ∈ new.heard id ticket, event.body ≠ .ended
  given : ∀ outcome, .settled ticket outcome ∈ new → outcome.reason = .ended →
    outcome.Answers request (new.heard id ticket) ∧ s.Absent id

omit [Codec κ] [Transport τ] in
theorem Named.ticket_eq {e : Registry.Entry Stream} (hn : s.Named id ticket) (he : e ∈ s.registry.entries) :
    e.id = id ↔ e.item.ticket = ticket := hn.same e.key (Registry.key_mem he)

theorem any_settles_eq_false : new.any (Entry.settles ticket) = false ↔ ∀ outcome, .settled ticket outcome ∉ new := by
  rw [List.any_eq_false]
  constructor
  · exact fun h outcome hm => h _ hm (beq_self_eq_true ticket)
  · intro h e he hs
    cases e with
    | settled t outcome => exact h outcome (beq_iff_eq.1 hs ▸ he)
    | _ => exact Bool.noConfusion hs

omit [Codec κ] [Transport τ] in
theorem Recorded.settled_iff (h : s.Recorded) {outcome : Outcome} :
    .settled ticket outcome ∈ s.history ↔ s.peek ticket = some outcome := by
  obtain ⟨owed, howes⟩ := h
  exact (howes.resolved ticket outcome).trans peek_eq_some_iff.symm

omit [Codec κ] [Transport τ] in
theorem Sound.unsettled {e : Registry.Entry Stream} (hs : s.Sound) (hn : s.Named id ticket)
    (he : e ∈ s.registry.entries) (hid : e.id = id) (hopen : e.item.state ≠ .closed) (hold : s.history = new ++ old) :
    new.any (Entry.settles ticket) = false := by
  refine any_settles_eq_false.2 fun outcome hm => ?_
  have hgiven := peek_eq_some_iff.1 (hs.recorded.settled_iff.1 (hold ▸ List.mem_append_left old hm))
  rw [← (hn.ticket_eq he).1 hid, hs.intact.unanswered (mem_inPlay_of_entry he) hopen] at hgiven
  exact Option.some_ne_none outcome (Option.some.inj hgiven).symm

omit [Codec κ] [Transport τ] in
theorem Silent.assembles (h : Silent s s') (hn : s.Named id ticket) (habsent : s.Absent id → s'.Absent id)
    (hold : s.history = new ++ old) (ha : s.Assembles id ticket request new) :
    ∃ new', s'.history = new' ++ old ∧ s'.Assembles id ticket request new' := by
  obtain ⟨added, hadded, hunheard⟩ := h.history
  have hheard : History.heard id ticket (added ++ new) = new.heard id ticket :=
    History.heard_append_of_eventless fun x hx => (hunheard x hx).1
  refine ⟨added ++ new, by rw [hadded, hold, List.append_assoc], ?_, ?_⟩
  · intro y hy hid hopen
    obtain ⟨x, hx, hnot, hxy⟩ := (h.kept y hy hopen).resolve_left fun hnext =>
      absurd (hid.symm.trans hnext) (UInt32.ne_of_lt hn.issued)
    obtain ⟨hrequest, hassembled, hunended⟩ := ha.held x hx (hxy.id.symm.trans hid) hnot
    rw [hheard]
    exact ⟨hxy.request.trans hrequest, hassembled.same hxy.response, hunended⟩
  · intro outcome hm hended
    rw [hheard]
    rcases List.mem_append.1 hm with hm | hm
    · exact absurd hended ((hunheard _ hm).2 ticket outcome rfl)
    · exact (ha.given outcome hm hended).imp_right habsent

omit [Codec κ] [Transport τ] in
/-- An open exchange hears the events that name it. -/
theorem Sound.heard_dispatched {e : Registry.Entry Stream} (hs : s.Sound) (hn : s.Named id ticket)
    (hold : s.history = new ++ old) (he : e ∈ s.registry.entries) (hid : e.id = id) (hopen : e.item.state ≠ .closed)
    (event : Event) : History.heard id ticket (.dispatched event :: new) =
      new.heard id ticket ++ if event.stream = id then [event] else [] :=
  History.heard_cons_dispatched (hs.unsettled hn he hid hopen hold) event

omit [Codec κ] [Transport τ] in
theorem Hears.held (h : Hears event s s') (hs : s.Sound) (hn : s.Named id ticket) (hold : s.history = new ++ old)
    (ha : s.Assembles id ticket request new) {y : Registry.Entry Stream} (hy : y ∈ s'.registry.entries)
    (hid : y.id = id) (hopen : y.item.state ≠ .closed) : y.item.request = request ∧
      y.item.response.Assembled (History.heard id ticket (.dispatched event :: new)) ∧
        ∀ other ∈ History.heard id ticket (.dispatched event :: new), other.body ≠ .ended := by
  obtain ⟨hstays, x, hx, hnot, hxy⟩ := h.kept y hy hopen
  have hxid : x.id = id := hxy.id.symm.trans hid
  obtain ⟨hrequest, hassembled, hunended⟩ := ha.held x hx hxid hnot
  have hgrows := hxy.response
  rw [hxid] at hgrows
  rw [hs.heard_dispatched hn hold hx hxid hnot]
  refine ⟨hxy.request.trans hrequest, ?_⟩
  by_cases hevent : event.stream = id
  · rw [if_pos hevent.symm, if_pos hevent.symm] at hgrows
    rw [if_pos hevent]
    refine ⟨hassembled.next hgrows, fun other hother => ?_⟩
    rcases List.mem_append.1 hother with hother | hother
    · exact hunended other hother
    · rw [List.mem_singleton.1 hother]
      exact fun hended => hstays hended (hid.trans hevent.symm)
  · rw [if_neg (Ne.symm hevent), if_neg (Ne.symm hevent)] at hgrows
    rw [if_neg hevent, List.append_nil]
    exact ⟨hassembled.same hgrows, hunended⟩

omit [Codec κ] [Transport τ] in
/-- When an event says that the response of an exchange is complete, the caller gets what the exchange held. -/
theorem Completes.answers {outcome : Outcome} (h : Completes event ticket outcome s s') (hs : s.Sound)
    (hn : s.Named id ticket) (hold : s.history = new ++ old) (ha : s.Assembles id ticket request new) :
    outcome.Answers request (History.heard id ticket (.dispatched event :: new)) ∧ s'.Absent id := by
  obtain ⟨x, hx, hnot, hstream, hticket, rfl⟩ := h.exchange
  have hid : x.id = id := (hn.ticket_eq hx).2 hticket
  obtain ⟨hrequest, hassembled, hunended⟩ := ha.held x hx hid hnot
  have hnothing : x.item.response.Grows (Header.ofMessage event.headers) event.bytes
      (x.item.finalResponse s.metadata) := by
    simp only [Event.headers, Event.bytes, h.body]
    exact ⟨(List.append_nil _).symm, (List.append_nil _).symm⟩
  rw [hs.heard_dispatched hn hold hx hid hnot, if_pos (hstream.symm.trans hid)]
  refine ⟨⟨hassembled.next hnothing, congrArg Request.url hrequest, rfl, _, _, rfl, h.body, hunended⟩, ?_⟩
  exact fun y hy hsame => h.gone y hy (hsame.trans (hid.symm.trans hstream))

omit [Codec κ] [Transport τ] in
theorem Hears.assembles (h : Hears event s s') (hs : s.Sound) (hn : s.Named id ticket)
    (habsent : s.Absent id → s'.Absent id) (hold : s.history = new ++ old) (ha : s.Assembles id ticket request new) :
    ∃ new', s'.history = new' ++ old ∧ s'.Assembles id ticket request new' := by
  obtain ⟨added, hadded, hgiven⟩ := h.history
  let taken : History := .dispatched event :: new
  have hheard : History.heard id ticket (added ++ taken) = History.heard id ticket taken :=
    History.heard_append_of_eventless fun x hx => (hgiven x hx).1
  have hhistory : s'.history = (added ++ taken) ++ old := by
    rw [hadded, List.append_assoc]
    exact congrArg (added ++ .dispatched event :: ·) hold
  refine ⟨added ++ taken, hhistory, fun y hy hid hopen => ?_, fun outcome hm hended => ?_⟩
  · rw [hheard]
    exact h.held hs hn hold ha hy hid hopen
  · rw [hheard]
    rcases List.mem_append.1 hm with hm | hm
    · exact ((hgiven _ hm).2 ticket outcome rfl hended).answers hs hn hold ha
    · have hbefore : .settled ticket outcome ∈ new := (List.mem_cons.1 hm).resolve_left Entry.noConfusion
      have hsettled : new.any (Entry.settles ticket) = true :=
        List.any_eq_true.2 ⟨_, hbefore, beq_self_eq_true ticket⟩
      rw [History.heard_cons_of_settled hsettled]
      exact (ha.given outcome hbefore hended).imp_right habsent

theorem Transitions.assembles (h : Transitions w s s') (hs : s.Sound) (hn : s.Named id ticket)
    (hold : s.history = new ++ old) (ha : s.Assembles id ticket request new) :
    ∃ new', s'.history = new' ++ old ∧ s'.Assembles id ticket request new' := by
  induction h with
  | refl => exact ⟨new, hold, ha⟩
  | tail hbefore hlast ih =>
    obtain ⟨new', hold', ha'⟩ := ih
    have hs' := Transitions.sound hbefore hs
    have hn' := Transitions.named hbefore hs.intact hn
    have habsent := hlast.absent hs'.intact hn'.issued
    rcases hlast.takesUp hs'.intact with hsilent | ⟨event, hhears⟩
    · exact hsilent.assembles hn' habsent hold' ha'
    · exact hhears.assembles hs' hn' habsent hold' ha'

omit [Codec κ] [Transport τ] in
theorem assembles_queued (hi : s.Intact) (request : Request) :
    (s.queued request).Assembles s.nextId s.completions.length request [] := by
  refine ⟨fun e he hid _ => ?_, fun outcome hm => absurd hm List.not_mem_nil⟩
  rcases List.mem_append.1 he with he | he
  · exact absurd hid (UInt32.ne_of_lt (hi.above he))
  · rw [List.mem_singleton.1 he]
    exact ⟨rfl, ⟨rfl, rfl⟩, fun event hm => absurd hm List.not_mem_nil⟩

/-! The moment at which a response becomes complete. -/

/-- A response that becomes complete in a transition names the peer that the connection has then. -/
theorem Transition.completes (h : Transition w s s') (hi : s.Intact) {outcome : Outcome}
    (hended : outcome.reason = .ended)
    (hnot : .settled ticket outcome ∉ s.history) (hm : .settled ticket outcome ∈ s'.history) :
    outcome.response.ip = s.metadata.peer.host ∧ ∃ e ∈ s.registry.entries, e.item.ticket = ticket := by
  rcases h.takesUp hi with hsilent | ⟨event, hhears⟩
  · obtain ⟨added, hadded, hunheard⟩ := hsilent.history
    rw [hadded] at hm
    exact absurd hended ((hunheard _ ((List.mem_append.1 hm).resolve_right hnot)).2 ticket outcome rfl)
  · obtain ⟨added, hadded, hgiven⟩ := hhears.history
    rw [hadded] at hm
    have hnew := (List.mem_append.1 hm).resolve_right fun hm => hnot ((List.mem_cons.1 hm).resolve_left Entry.noConfusion)
    obtain ⟨x, hx, -, -, hticket, rfl⟩ := ((hgiven _ hnew).2 ticket outcome rfl hended).exchange
    exact ⟨rfl, x, hx, hticket⟩

theorem Transitions.completes (h : Transitions w s s') (hi : s.Intact) {outcome : Outcome}
    (hended : outcome.reason = .ended) (hnot : .settled ticket outcome ∉ s.history)
    (hm : .settled ticket outcome ∈ s'.history) :
    ∃ u u', Transitions w s u ∧ Transition w u u' ∧ Transitions w u' s' ∧ .settled ticket outcome ∉ u.history ∧
      .settled ticket outcome ∈ u'.history ∧ outcome.response.ip = u.metadata.peer.host := by
  induction h with
  | refl => exact absurd hm hnot
  | @tail u u' hbefore hlast ih =>
    -- The record only grows: the outcome is new in the last transition, or it came before.
    by_cases hu : .settled ticket outcome ∈ u.history
    · obtain ⟨v, v', hv, hstep, hv', hrest⟩ := ih hu
      exact ⟨v, v', hv, hstep, hv'.tail hlast, hrest⟩
    · exact ⟨u, u', hbefore, hlast, .refl, hu, hm, (hlast.completes (Transitions.intact hbefore hi) hended hu hm).1⟩

theorem Transitions.incomplete (h : Transitions w s s') (hi : s.Intact) (hn : s.Named id ticket) (ha : s.Absent id)
    {outcome : Outcome} (hended : outcome.reason = .ended) (hnot : .settled ticket outcome ∉ s.history) :
    s'.Absent id ∧ .settled ticket outcome ∉ s'.history := by
  induction h with
  | refl => exact ⟨ha, hnot⟩
  | @tail u u' hbefore hlast ih =>
    have hi' := Transitions.intact hbefore hi
    have hn' := Transitions.named hbefore hi hn
    refine ⟨hlast.absent hi' hn'.issued ih.1, fun hm => ?_⟩
    obtain ⟨-, e, he, hticket⟩ := hlast.completes hi' hended ih.2 hm
    exact ih.1 e he ((hn'.ticket_eq he).2 hticket)

/-! A request from its submission to its response. -/

omit [Codec κ] [Transport τ] in
def heardSince (s s' : Session κ τ ω σ) : List Event :=
  (s.history.since s'.history).heard s.nextId s.completions.length

omit [Codec κ] [Transport τ] in
def addressedSince (s s' : Session κ τ ω σ) : List Event := (s.history.since s'.history).addressed s.nextId

/-- A connection takes a request in a run, and later on the response is complete. -/
structure Fetches (r : Reaction κ τ ω σ) (request : Request) (outcome : Outcome) (s s' : Session κ τ ω σ) : Prop where
  created : ∃ s₀, Created s₀ ∧ FreeRun s₀ s
  observers : ∀ o news u, FreeRun u (r.run o news u)
  taken : s.refusal = none
  run : FreeRun (s.submit r request).2 s'
  told : s'.peek (s.submit r request).1 = some outcome
  ended : outcome.reason = .ended

namespace Fetches

variable {r : Reaction κ τ ω σ} {outcome : Outcome}

theorem sound (h : Fetches r request outcome s s') : s.Sound := by
  obtain ⟨s₀, h₀, hrun⟩ := h.created
  exact Transitions.sound (hrun.transitions h₀.intact) h₀.sound

theorem transitions (h : Fetches r request outcome s s') : Transitions .any (s.queued request) s' := by
  have hqueued := h.sound.intact.queued request h.taken
  have hconforms : s.Conforms .any r := .of_activity h.sound.intact h.observers
  have hsubmitted := (execution_queued hconforms trivial h.taken).transitions hqueued
  exact hsubmitted.trans (h.run.transitions (Transitions.intact hsubmitted hqueued))

theorem queued (h : Fetches r request outcome s s') :
    (s.queued request).Sound ∧ (s.queued request).Named s.nextId s.completions.length := by
  refine ⟨?_, (queues_queued request h.taken).names h.sound.numbered⟩
  exact Transitions.sound (.single (.atomic (.queue (w := .any) request trivial h.taken))) h.sound

theorem settled (h : Fetches r request outcome s s') :
    .settled s.completions.length outcome ∈ s'.history ∧ .settled s.completions.length outcome ∉ s.history := by
  have hs' := Transitions.sound h.transitions h.queued.1
  refine ⟨hs'.recorded.settled_iff.2 (ticket_submit r request s ▸ h.told), fun hm => ?_⟩
  have hgiven := peek_eq_some_iff.1 (h.sound.recorded.settled_iff.1 hm)
  rw [List.getElem?_eq_none (Nat.le_of_eq (length_values s))] at hgiven
  exact nomatch hgiven

theorem answers (h : Fetches r request outcome s s') :
    s.history.since s'.history ++ s.history = s'.history ∧ outcome.Answers request (s.heardSince s') := by
  obtain ⟨hqueued, hnamed⟩ := h.queued
  obtain ⟨new, hnew, hassembles⟩ := Transitions.assembles h.transitions hqueued hnamed
    (show (s.queued request).history = [] ++ s.history from rfl) (assembles_queued h.sound.intact request)
  have hsince : s.history.since s'.history = new := by
    rw [hnew, History.since_append]
  rw [heardSince, hsince]
  refine ⟨hnew.symm, (hassembles.given outcome ?_ h.ended).1⟩
  have hsettled := h.settled.1
  rw [hnew] at hsettled
  exact (List.mem_append.1 hsettled).resolve_right h.settled.2

theorem registered_iff (h : Fetches r request outcome s s') (hu : Transitions .any (s.queued request) u)
    (hv : Transitions .any u s') :
    (∃ e ∈ u.registry.entries, e.id = s.nextId) ↔ u.peek (s.submit r request).1 = none := by
  obtain ⟨hqueued, hnamed⟩ := h.queued
  have hsu := Transitions.sound hu hqueued
  have hnu := Transitions.named hu hqueued.intact hnamed
  rw [ticket_submit]
  constructor
  · rintro ⟨e, he, hid⟩
    refine Option.eq_none_iff_forall_ne_some.2 fun other hother => ?_
    have hstays := peek_eq_some_iff.2 (hv.answered (peek_eq_some_iff.1 hother))
    obtain rfl : other = outcome := Option.some.inj (hstays.symm.trans (ticket_submit r request s ▸ h.told))
    obtain ⟨new, hnew, hassembles⟩ := Transitions.assembles hu hqueued hnamed
      (show (s.queued request).history = [] ++ s.history from rfl) (assembles_queued h.sound.intact request)
    have hsettled := hsu.recorded.settled_iff.2 hother
    rw [hnew] at hsettled
    exact (hassembles.given other ((List.mem_append.1 hsettled).resolve_right h.settled.2) h.ended).2 e he hid
  · intro hopen
    by_contra habsent
    have hnot : .settled s.completions.length outcome ∉ u.history := fun hm =>
      Option.some_ne_none outcome ((hsu.recorded.settled_iff.1 hm).symm.trans hopen)
    exact (hv.incomplete hsu.intact hnu (fun e he hid => habsent ⟨e, he, hid⟩) h.ended hnot).2 h.settled.1

theorem names_peer (h : Fetches r request outcome s s') :
    ∃ u u', Transitions .any (s.queued request) u ∧ Transition .any u u' ∧ Transitions .any u' s' ∧
      u.peek (s.submit r request).1 = none ∧ u'.peek (s.submit r request).1 = some outcome ∧
      outcome.response.ip = u.metadata.peer.host := by
  obtain ⟨u, u', hu, hstep, hu', hnot, hm, hip⟩ :=
    h.transitions.completes h.queued.1.intact h.ended h.settled.2 h.settled.1
  have hsu := Transitions.sound hu h.queued.1
  have hsu' := Transitions.sound (hu.tail hstep) h.queued.1
  rw [ticket_submit]
  refine ⟨u, u', hu, hstep, hu', Option.eq_none_iff_forall_ne_some.2 fun other hother => ?_,
    hsu'.recorded.settled_iff.1 hm, hip⟩
  have hrest : Transitions .any u s' := .head hstep hu'
  have hstays := peek_eq_some_iff.2 (hrest.answered (peek_eq_some_iff.1 hother))
  obtain rfl : other = outcome := Option.some.inj (hstays.symm.trans (ticket_submit r request s ▸ h.told))
  exact hnot (hsu.recorded.settled_iff.2 hother)

end Fetches

variable {r : Reaction κ τ ω σ} {outcome : Outcome}

/-- The response of a request is what the events brought that named its exchange while it was registered, and it names
the peer. Another run, of whatever connection, in which the same events name the exchange of a request gives the same
response to it, whatever else happens there. -/
theorem run_projection (h : Fetches r request outcome s s') :
    s.history.since s'.history ++ s.history = s'.history ∧ outcome.Answers request (s.heardSince s') ∧
    (∃ u u', Transitions .any (s.queued request) u ∧ Transition .any u u' ∧ Transitions .any u' s' ∧
      u.peek (s.submit r request).1 = none ∧ u'.peek (s.submit r request).1 = some outcome ∧
      outcome.response.ip = u.metadata.peer.host) ∧
    (∀ u, Transitions .any (s.queued request) u → Transitions .any u s' →
      ((∃ e ∈ u.registry.entries, e.id = s.nextId) ↔ u.peek (s.submit r request).1 = none)) ∧
    ∀ {κ' τ' ω' σ' : Type} [Codec κ'] [Transport τ'] {r' : Reaction κ' τ' ω' σ'} {request' : Request}
      {outcome' : Outcome} {u u' : Session κ' τ' ω' σ'}, Fetches r' request' outcome' u u' →
      u.heardSince u' = s.heardSince s' ∨ u.addressedSince u' = s.addressedSince s' →
      outcome'.response.body = outcome.response.body ∧ outcome'.response.headers = outcome.response.headers := by
  obtain ⟨hgrown, hanswers⟩ := h.answers
  refine ⟨hgrown, hanswers, h.names_peer, fun u hu hv => h.registered_iff hu hv, ?_⟩
  intro κ' τ' ω' σ' _ _ r' request' outcome' u u' h' hsame
  have hanswers' := h'.answers.2
  have hheard : u.heardSince u' = s.heardSince s' := by
    rcases hsame with hheard | haddressed
    · exact hheard
    · refine hanswers'.concluded.eq_of_prefix hanswers.concluded (History.heard_prefix _ _ _) ?_
      rw [show History.addressed u.nextId _ = s.addressedSince s' from haddressed]
      exact History.heard_prefix _ _ _
  rw [hanswers'.response.body, hanswers'.response.headers, hheard]
  exact ⟨hanswers.response.body.symm, hanswers.response.headers.symm⟩

/-- On a stopped loop two runs, the one with the events of a second exchange in between, give the same response. -/
theorem run_projection_scripted :
    ∃ (s u v : Session Scripted.Codec Scripted.Transport Unit Unit)
      (r : Reaction Scripted.Codec Scripted.Transport Unit Unit) (request : Request) (outcome outcome' : Outcome),
      s.loop.stopped = true ∧ Fetches r request outcome s u ∧ Fetches r request outcome' s v ∧
      outcome.Answers request (s.heardSince u) ∧
        outcome.response.body = ascii "hello" ∧ outcome.response.headers = [(ascii "a", ascii "b")] ∧
        u.history ≠ v.history ∧ outcome'.response.body = outcome.response.body := by
  let request : Request := { url := ascii "https://example.com/" }
  let r : Reaction Scripted.Codec Scripted.Transport Unit Unit := ⟨fun _ _ s => s⟩
  let s₀ : Session Scripted.Codec Scripted.Transport Unit Unit :=
    fresh { arrival := .events [{ body := .settingsAcknowledged }] }
  let s := { s₀ with loop := s₀.loop.stop }.performAll r [.established (some {}), .bytesReceived []]
  let arrive (events : List Event) : Drift Scripted.Codec Scripted.Transport Unit Unit :=
    { codec := { arrival := .events events }, transport := id, clock := 0, program := (), queue := [],
      lossObservers := id }
  let finish (events : List Event) : Session Scripted.Codec Scripted.Transport Unit Unit :=
    (((s.submit r request).2.submit r request).2.drift (arrive events)).perform r (.bytesReceived [])
  let head : EventBody := .response [(ascii ":status", ascii "200"), (ascii "a", ascii "b")]
  let alone : List Event := [⟨1, head⟩, ⟨1, .data (ascii "he") 2⟩, ⟨1, .data (ascii "llo") 3⟩, ⟨1, .ended⟩]
  let mixed : List Event := [⟨3, head⟩, ⟨1, head⟩, ⟨1, .data (ascii "he") 2⟩, ⟨3, .data (ascii "x") 1⟩,
    ⟨1, .data (ascii "llo") 3⟩, ⟨3, .ended⟩, ⟨1, .ended⟩, ⟨1, .data (ascii "y") 1⟩]
  have hr : ∀ o news u, FreeRun u (r.run o news u) := fun _ _ u => .refl u
  have hstart : FreeRun s₀ s := (Activity.refl s₀).stop.trans (Activity.performAll hr (fun _ _ => trivial) _)
  have hrun : ∀ events, FreeRun (s.submit r request).2 (finish events) := fun events =>
    (((Activity.refl _).meet r hr (.operation (.submit request)) trivial).drift (arrive events)).meet r hr
      (.operation (.bytesReceived [])) trivial
  have hfetches : ∀ events outcome, (finish events).peek (s.submit r request).1 = some outcome →
      outcome.reason = .ended → Fetches r request outcome s (finish events) := fun events outcome hpeek hended =>
    ⟨⟨s₀, created_fresh _, hstart⟩, hr, by decide, hrun events, hpeek, hended⟩
  let told (events : List Event) : Option (CloseReason × Bytes × Headers) :=
    ((finish events).peek (s.submit r request).1).map fun o => (o.reason, o.response.body, o.response.headers)
  have hmixed : told mixed = some (.ended, ascii "hello", [(ascii "a", ascii "b")]) := by decide
  have halone : told alone = some (.ended, ascii "hello", [(ascii "a", ascii "b")]) := by decide
  obtain ⟨outcome, hpeek, heq⟩ := Option.map_eq_some_iff.1 hmixed
  obtain ⟨outcome', hpeek', heq'⟩ := Option.map_eq_some_iff.1 halone
  rw [Prod.mk.injEq, Prod.mk.injEq] at heq heq'
  have h := hfetches mixed outcome hpeek heq.1
  have h' := hfetches alone outcome' hpeek' heq'.1
  obtain ⟨-, hanswers, -, -, hsame⟩ := run_projection h
  have hheard : s.heardSince (finish alone) = s.heardSince (finish mixed) := by decide
  exact ⟨s, finish mixed, finish alone, r, request, outcome, outcome', by decide, h, h', hanswers, heq.2.1, heq.2.2, by decide,
    (hsame h' (Or.inl hheard)).1⟩

end Session

end Multiplex
