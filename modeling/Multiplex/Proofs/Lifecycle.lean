import Multiplex.Proofs.Upload
import Multiplex.Scenario.Exchange

/-! The life of an exchange. Its state only moves forward, and it ends by the one closing that finds it open: that
closing settles the completion and says whether the listener hears of it. Whatever is asked of an exchange that has
ended leaves a line in the log and nothing else. -/
namespace Multiplex

open Bytes Wire

theorem StreamState.rank_le_closed (s : StreamState) : s.rank ≤ StreamState.closed.rank := by
  cases s <;> decide

namespace Turn

structure Closing where
  reason : CloseReason
  causes : List Fault
  announce : Bool

/-- The closings that what is asked can come to: the one that is asked for, or those by which an exchange gives up. -/
def Operation.closings : Operation → List Closing
  | .markPending => []
  | .initiate => [⟨.invalidHostname, [], true⟩,
      ⟨.reset, [.plain .protocolStreamError "Failed to send request headers"], true⟩, ⟨.reset, [], true⟩]
  | .receiveHeaders _ | .receiveData .. => [⟨.maxsizeExceeded, [], true⟩]
  | .receiveWindowUpdate => [⟨.reset, [], true⟩]
  | .close reason causes announce => [⟨reason, causes, announce⟩]

/-- A turn that leaves the exchange open, or whose last act is one of some closings. -/
inductive Concludes {κ : Type} (m : Metadata) (closings : List Closing) : Turn κ → Prop
  | unclosed {t : Turn κ} (hs : t.stream.state ≠ .closed) (he : t.ending = none) : Concludes m closings t
  | closed {t : Turn κ} {c : Closing} (hc : c ∈ closings) (hs : t.stream.state ≠ .closed) :
      Concludes m closings (t.close m c.reason c.causes c.announce)

variable {κ : Type} {m : Metadata} {t t' : Turn κ} {closings : List Closing}

theorem Concludes.mono {more : List Closing} (h : Concludes m closings t) (hsub : closings ⊆ more) :
    Concludes m more t := by
  cases h with
  | unclosed hs he => exact .unclosed hs he
  | closed hc hs => exact .closed (hsub hc) hs

variable [Codec κ]

/-! Every turn of an open exchange ends in one of the two ways. -/

theorem concludes_resetAndClose (code : ErrorCode) (reason : CloseReason) (hs : t.stream.state ≠ .closed) :
    Concludes m [⟨reason, [], true⟩] (t.resetAndClose m code reason) := by
  unfold resetAndClose
  dsimp only
  split
  · exact .closed (c := ⟨reason, [], true⟩) (List.mem_singleton_self _) hs
  · exact .closed (c := ⟨reason, [], true⟩) (List.mem_singleton_self _) hs

theorem concludes_sendBody (hs : t.stream.state ≠ .closed) (he : t.ending = none) :
    Concludes m [⟨.reset, [], true⟩] (t.sendBody m) := by
  fun_induction sendBody m t with
  | case1 t hu _ => exact .unclosed StreamState.noConfusion he
  | case2 t hu _ => exact .unclosed hs he
  | case3 t hu hw => exact .unclosed hs he
  | case4 t hu hw hr => exact .unclosed hs he
  | case5 t hu hw hr o ho ih =>
    obtain ⟨hstate, -, hending⟩ := same_offer t
    exact ih (hstate ▸ hs) (hending.trans he)
  | case6 t hu hw hr o ho => exact concludes_resetAndClose _ _ ((same_offer t).1 ▸ hs)

theorem concludes_start (url : Url) (hs : t.stream.state ≠ .closed) (he : t.ending = none) :
    Concludes m (Operation.closings .initiate) (t.start m url) := by
  by_cases hret : (t.headAnswer url).1 = 0
  · obtain ⟨message, hstart⟩ := start_of_taken (m := m) hret
    have hopen : ((t.headTaken url).note .debug message).stream.state ≠ .closed := by
      change (if t.stream.request.body.isEmpty then StreamState.halfClosed else .opened) ≠ .closed
      split <;> decide
    rw [hstart]
    split
    · exact .unclosed hopen he
    · exact (concludes_sendBody hopen he).mono (by simp [Operation.closings])
  · obtain ⟨message, hstart⟩ := start_of_refused (m := m) hret
    rw [hstart]
    exact .closed (c := ⟨.reset, [.plain .protocolStreamError "Failed to send request headers"], true⟩)
      (by simp [Operation.closings]) hs

theorem concludes_checkSize (size : Nat) (hs : t.stream.state ≠ .closed) (he : t.ending = none) :
    Concludes m [⟨.maxsizeExceeded, [], true⟩] (t.checkSize m size) := by
  unfold checkSize
  split
  · exact concludes_resetAndClose _ _ hs
  · split
    · exact .unclosed hs he
    · exact .unclosed hs he

omit [Codec κ] in
theorem same_foldl_absorb (t : Turn κ) (fields : Headers) : (fields.foldl absorb t).stream.state = t.stream.state ∧
    (fields.foldl absorb t).ending = t.ending := by
  induction fields generalizing t with
  | nil => exact ⟨rfl, rfl⟩
  | cons field fields ih =>
    obtain ⟨hstate, -, hending⟩ := same_absorb t field
    obtain ⟨hstate', hending'⟩ := ih (t.absorb field)
    exact ⟨hstate'.trans hstate, hending'.trans hending⟩

theorem concludes_perform (op : Operation) (hs : t.stream.state ≠ .closed) (he : t.ending = none) :
    Concludes m op.closings (t.perform m op) := by
  cases op with
  | markPending =>
    unfold perform markPending
    dsimp only
    split
    · exact .unclosed StreamState.noConfusion he
    · exact .unclosed hs he
  | initiate =>
    by_cases hpending : t.stream.state = .pending
    · rcases initiate_eq (m := m) hpending with ⟨message, h⟩ | ⟨url, h⟩
      · rw [perform, h]
        exact .closed (c := ⟨.invalidHostname, [], true⟩) (by simp [Operation.closings]) hs
      · rw [perform, h]
        exact concludes_start url hs he
    · rw [perform, initiate, if_pos hpending]
      exact .unclosed hs he
  | receiveHeaders fields =>
    obtain ⟨hstate, hending⟩ := same_foldl_absorb t fields
    rw [perform, receiveHeaders, if_neg hs]
    dsimp only
    split
    · exact concludes_checkSize _ (hstate ▸ hs) (hending.trans he)
    · exact .unclosed (hstate ▸ hs) (hending.trans he)
  | receiveData data flowLength =>
    rw [perform, receiveData, if_neg hs]
    dsimp only
    split
    · exact concludes_checkSize _ hs he
    · exact concludes_checkSize _ hs he
  | receiveWindowUpdate =>
    unfold perform receiveWindowUpdate
    dsimp only
    split
    · exact concludes_sendBody hs he
    · exact .unclosed hs he
  | close reason causes announce =>
    exact .closed (c := ⟨reason, causes, announce⟩) (by simp [Operation.closings]) hs

/-- Whatever is asked of an exchange that has ended leaves a line in the log at most. -/
theorem perform_of_closed (op : Operation) (hs : t.stream.state = .closed) :
    t.perform m op = t ∨ ∃ message, t.perform m op = t.note .warn message := by
  cases op with
  | markPending =>
    right
    rw [perform, markPending, if_neg (by simp [hs])]
    exact ⟨_, rfl⟩
  | initiate =>
    right
    rw [perform, initiate, if_pos (by simp [hs])]
    exact ⟨_, rfl⟩
  | receiveHeaders fields =>
    right
    rw [perform, receiveHeaders, if_pos hs]
    exact ⟨_, rfl⟩
  | receiveData data flowLength =>
    right
    rw [perform, receiveData, if_pos hs]
    exact ⟨_, rfl⟩
  | receiveWindowUpdate =>
    left
    rw [perform, receiveWindowUpdate, if_neg (by simp [hs])]
  | close reason causes announce =>
    right
    rw [perform, close, if_pos hs]
    exact ⟨_, rfl⟩

theorem continues_perform (m : Metadata) (op : Operation) (t : Turn κ) : Continues t (t.perform m op) := by
  by_cases hs : t.stream.state = .closed
  · rcases perform_of_closed (m := m) op hs with h | ⟨message, h⟩
    · rw [h]
      exact .refl t
    · rw [h]
      exact continues_note t _ _
  · cases op with
    | markPending =>
      unfold perform markPending
      dsimp only
      split
      · exact ⟨rfl, rfl, rfl, .refl⟩
      · exact continues_note t _ _
    | initiate => exact continues_attempt m t
    | receiveHeaders fields => exact (steps_receiveHeaders t fields).continues
    | receiveData data flowLength => exact (steps_receiveData t data flowLength).continues
    | receiveWindowUpdate => exact (steps_receiveWindowUpdate t).continues
    | close reason causes announce => exact continues_close reason causes announce hs

/-! The state only moves forward. -/

theorem Beat.rank_le (h : Beat t t') : t.stream.state.rank ≤ t'.stream.state.rank := by
  cases h with
  | spare h =>
    rcases h.state with hs | hs
    · exact Nat.le_of_eq (by rw [hs])
    · rw [hs]
      exact t.stream.state.rank_le_closed
  | pending hs => simp [hs, StreamState.rank]
  | refused => exact Nat.le_refl _
  | taken url hs hret =>
    have hstate : (t.headTaken url).stream.state = if t.stream.request.body.isEmpty then .halfClosed else .opened := rfl
    rw [hs, hstate]
    split <;> decide
  | piece => exact Nat.le_of_eq (by rw [(same_offer t).1])
  | complete hs hu => simp [hs, StreamState.rank]

theorem Beats.rank_le (h : Beats t t') : t.stream.state.rank ≤ t'.stream.state.rank := by
  induction h with
  | refl => exact Nat.le_refl _
  | tail _ hbeat ih => exact Nat.le_trans ih hbeat.rank_le

end Turn

namespace Scenario.Exchange

variable {κ : Type} {s s' s'' : State κ} {o : Outcome} {c : Turn.Closing} {m : Metadata}

def State.told (s : State κ) : List UInt32 :=
  s.happenings.filterMap fun
    | .closed id => some id
    | .done _ => none

def isFulfilment : Entry → Bool
  | .settled .. => true
  | .log l => l = Log.line .warn "Completion" refusal
  | _ => false

def IsIdleLine (e : Entry) : Prop := (∃ l, e = .log l) ∧ isFulfilment e = false

theorem IsIdleLine.settlement {e : Entry} (h : IsIdleLine e) : e.settlement = none := by
  obtain ⟨⟨l, rfl⟩, -⟩ := h
  rfl

theorem IsIdleLine.not_sends {e : Entry} (h : IsIdleLine e) (id : UInt32) : ¬e.Sends id := by
  obtain ⟨⟨l, rfl⟩, -⟩ := h
  exact fun hsends => hsends

theorem isFulfilment_of_ofTurn {id : UInt32} {e : Entry} (h : e.OfTurn id) : isFulfilment e = false := by
  unfold Entry.OfTurn at h
  split at h
  · rfl
  · rfl
  · rfl
  · rfl
  · rename_i l
    have hne : l ≠ Log.line .warn "Completion" refusal := by
      rintro rfl
      revert h
      decide
    simpa [isFulfilment] using hne
  · exact h.elim

/-! What happens beside the exchange. -/

/-- The exchange, its result and what the listener heard stay. The codec, the loop, those who wait for the result and
what the connection knows may change in any way. -/
structure Aside (s s' : State κ) : Prop where
  stream : s'.stream = s.stream
  value : s'.completion.value = s.completion.value
  listener : s'.listener = s.listener
  told : s'.told = s.told
  history : s.history.Extends IsIdleLine s'.history

theorem Aside.refl (s : State κ) : Aside s s := ⟨rfl, rfl, rfl, rfl, .refl⟩

theorem Aside.trans (h : Aside s s') (h' : Aside s' s'') : Aside s s'' where
  stream := h'.stream.trans h.stream
  value := h'.value.trans h.value
  listener := h'.listener.trans h.listener
  told := h'.told.trans h.told
  history := h.history.trans h'.history

theorem aside_tell (o : Outcome) (s : State κ) : Aside s (tell o s) := by
  unfold tell
  split
  · exact ⟨rfl, rfl, rfl, rfl, .refl⟩
  · exact ⟨rfl, rfl, rfl, rfl, .cons ⟨⟨_, rfl⟩, by decide⟩ .refl⟩

theorem aside_foldl_tell (os : List Unit) (o : Outcome) (s : State κ) : Aside s (os.foldl (fun s _ => tell o s) s) := by
  induction os generalizing s with
  | nil => exact .refl s
  | cons _ os ih => exact (aside_tell o s).trans (ih _)

theorem aside_note (message : Bytes) (s : State κ) : Aside s (note .warn "Stream" message s) := by
  have hline : Entry.OfTurn 0 (.log (Log.line .warn "Stream" message)) := rfl
  exact ⟨rfl, rfl, rfl, rfl, .cons ⟨⟨_, rfl⟩, isFulfilment_of_ofTurn hline⟩ .refl⟩

theorem aside_settle (h : s.completion.value = none) :
    Aside { s with completion := ⟨some o, []⟩, history := .settled s.stream.ticket o :: s.history } (settle o s) := by
  have hfulfil : s.completion.fulfil o = some (s.completion.observers, ⟨some o, []⟩) := by simp [Completion.fulfil, h]
  unfold settle
  rw [hfulfil]
  exact aside_foldl_tell _ _ _

theorem aside_done (o : Outcome) (s : State κ) : Aside s (happen (.done o) s) := ⟨rfl, rfl, rfl, rfl, .refl⟩

theorem aside_runLoop (s : State κ) : Aside s (runLoop s).2 := by
  have hrounds : ∀ (os : List Outcome) (s : State κ), Aside s (os.foldl (fun s o => happen (.done o) s) s) := by
    intro os
    induction os with
    | nil => exact .refl
    | cons o os ih => exact fun s => (aside_done o s).trans (ih _)
  have hempty : Aside s { s with loop := s.loop.emptied } := ⟨rfl, rfl, rfl, rfl, .refl⟩
  exact hempty.trans (hrounds _ _)

def Step.isIdle : Step → Bool
  | .request | .destroy | .run | .stopLoop | .codec _ | .observe | .peek => true
  | _ => false

theorem aside_perform (s : State Scripted.Codec) (step : Step) (hstep : step.isIdle = true) :
    Aside s (perform step s).2 := by
  unfold perform
  split
  · exact .refl s
  · cases step with
    | request | peek => exact .refl s
    | run => exact aside_runLoop s
    | stopLoop => exact ⟨rfl, rfl, rfl, rfl, .refl⟩
    | codec change => exact ⟨rfl, rfl, rfl, rfl, .refl⟩
    | destroy =>
      dsimp only
      split
      · exact ⟨rfl, rfl, rfl, rfl, .refl⟩
      · have hgone : Aside s { s with present := false } := ⟨rfl, rfl, rfl, rfl, .refl⟩
        exact hgone.trans (aside_note _ _)
    | observe =>
      have hvalue := Completion.value_observe s.completion ()
      dsimp only
      split
      · rename_i completion hobserve
        rw [hobserve] at hvalue
        exact ⟨rfl, hvalue, rfl, rfl, .refl⟩
      · exact aside_tell _ s
    | markPending | initiate | headers | data | windowUpdate | close => cases hstep

/-! Before and after the end. -/

structure Unended (s : State κ) : Prop where
  state : s.stream.state ≠ .closed
  value : s.completion.value = none
  none : s.history.countP isFulfilment = 0
  told : s.told = []

/-- An exchange that was ended by a closing: its result carries the reason and the causes of the closing and was put to
the completion once, and the listener, if there is one and the closing is announced, was told once. -/
structure Ended (c : Turn.Closing) (m : Metadata) (s : State κ) : Prop where
  state : s.stream.state = .closed
  reason : s.stream.closeReason = c.reason
  value : s.completion.value = some (s.stream.outcome m c.reason c.causes)
  settled : s.history.select Entry.settlement = [(s.stream.ticket, s.stream.outcome m c.reason c.causes)]
  once : s.history.countP isFulfilment = 1
  told : s.told = if c.announce && s.listener.answer.isSome then [s.stream.id] else []

theorem Unended.aside (h : Unended s) (ha : Aside s s') : Unended s' where
  state := ha.stream ▸ h.state
  value := ha.value.trans h.value
  none := (ha.history.countP_eq fun _ he => he.2).trans h.none
  told := ha.told.trans h.told

theorem Ended.aside (h : Ended c m s) (ha : Aside s s') : Ended c m s' where
  state := ha.stream ▸ h.state
  reason := ha.stream ▸ h.reason
  value := by rw [ha.value, ha.stream, h.value]
  settled := by rw [ha.history.select_eq fun _ => IsIdleLine.settlement, ha.stream, h.settled]
  once := (ha.history.countP_eq fun _ he => he.2).trans h.once
  told := by rw [ha.told, ha.listener, ha.stream, h.told]

theorem select_of_unended {h : History} (hnone : h.countP isFulfilment = 0) : h.select Entry.settlement = [] := by
  refine History.select_eq_nil fun e he => ?_
  have hf := List.countP_eq_zero.1 hnone e he
  cases e <;> simp_all [Entry.settlement, isFulfilment]

variable [Wire.Codec κ]

/-! What is asked of an exchange that has ended. -/

theorem ask_of_closed (op : Turn.Operation) (hs : s.stream.state = .closed) :
    ask op s = (false, s) ∨ ∃ message, ask op s = (false, note .warn "Stream" message s) := by
  rcases Turn.perform_of_closed (m := s.metadata) (t := s.turn) op hs with h | ⟨message, h⟩
  · left
    rw [ask, h]
    rfl
  · right
    rw [ask, h]
    exact ⟨message, rfl⟩

theorem act_of_closed (op : Turn.Operation) (hs : s.stream.state = .closed) :
    act op s = s ∨ ∃ message, act op s = note .warn "Stream" message s := by
  rcases ask_of_closed op hs with h | ⟨message, h⟩
  · left
    rw [act, h]
    rfl
  · right
    rw [act, h]
    exact ⟨message, rfl⟩

theorem aside_act (op : Turn.Operation) (hs : s.stream.state = .closed) : Aside s (act op s) := by
  rcases act_of_closed op hs with h | ⟨message, h⟩
  · rw [h]
    exact .refl s
  · rw [h]
    exact aside_note message s

theorem aside_answer (op : Turn.Operation) (hs : s.stream.state = .closed) : Aside s (answer op s) := by
  rcases ask_of_closed op hs with h | ⟨message, h⟩
  · rw [answer, h]
    exact .refl s
  · rw [answer, h]
    exact aside_note message s

theorem aside_answers (ops : List Turn.Operation) (hs : s.stream.state = .closed) :
    Aside s (ops.foldl (fun s op => answer op s) s) := by
  induction ops generalizing s with
  | nil => exact .refl s
  | cons op ops ih =>
    have hfirst := aside_answer op hs
    exact hfirst.trans (ih (hfirst.stream ▸ hs))

/-! What is asked of an exchange that has not ended. -/

def turned (op : Turn.Operation) (s : State κ) : State κ :=
  let t := s.turn.perform s.metadata op
  { s with stream := t.stream, codec := t.codec, history := t.history }

theorem countP_turned (op : Turn.Operation) (s : State κ) :
    (turned op s).history.countP isFulfilment = s.history.countP isFulfilment :=
  (Turn.continues_perform s.metadata op s.turn).history.countP_eq fun _ => isFulfilment_of_ofTurn

theorem ended_settle (op : Turn.Operation) (h : Unended s) {u : Turn κ} (hu : u.stream.state ≠ .closed)
    (hturn : s.turn.perform s.metadata op = u.close s.metadata c.reason c.causes c.announce) :
    Ended { c with announce := false } s.metadata
      (settle (u.stream.outcome s.metadata c.reason c.causes) (turned op s)) := by
  have hstream : (turned op s).stream = { u.stream with state := .closed, closeReason := c.reason } := by
    rw [turned, hturn]
    exact Turn.stream_close hu
  have hcount : (turned op s).history.countP isFulfilment = 0 := (countP_turned op s).trans h.none
  have hended : Ended { c with announce := false } s.metadata
      { turned op s with
        completion := ⟨some (u.stream.outcome s.metadata c.reason c.causes), []⟩
        history := .settled (turned op s).stream.ticket (u.stream.outcome s.metadata c.reason c.causes) ::
          (turned op s).history } := by
    constructor
    case state => rw [hstream]
    case reason => rw [hstream]
    case value =>
      rw [hstream]
      rfl
    case settled =>
      rw [History.select_cons, select_of_unended hcount, hstream]
      rfl
    case once =>
      rw [List.countP_cons_of_pos rfl, hcount]
    case told => exact h.told
  exact hended.aside (aside_settle h.value)

theorem Ended.announced (h : Ended { c with announce := false } m s) : Ended c m (
    if c.announce then
      match s.listener.answer with
      | none => s
      | some ops => ops.foldl (fun s op => answer op s) (happen (.closed s.stream.id) s)
    else s) := by
  obtain ⟨reason, causes, announce⟩ := c
  have hsilent : s.told = [] := h.told
  cases announce with
  | false => exact h
  | true =>
    cases hlistener : s.listener.answer with
    | none => exact ⟨h.state, h.reason, h.value, h.settled, h.once, by simp [hsilent, hlistener]⟩
    | some ops =>
      have htold : (happen (.closed s.stream.id) s).told = [s.stream.id] := by
        rw [← hsilent]
        rfl
      have hheard : Ended ⟨reason, causes, true⟩ m (happen (.closed s.stream.id) s) :=
        ⟨h.state, h.reason, h.value, h.settled, h.once, htold.trans (by simp [happen, hlistener])⟩
      exact hheard.aside (aside_answers ops hheard.state)

/-- What is asked finds the exchange open, and its last act is a closing that still does. -/
def Closes (op : Turn.Operation) (c : Turn.Closing) (s : State κ) : Prop :=
  ∃ u : Turn κ, u.stream.state ≠ .closed ∧
    s.turn.perform s.metadata op = u.close s.metadata c.reason c.causes c.announce

/-- An exchange that has not ended stays so, or ends by one of the closings that what is asked can come to. -/
theorem act_of_unended (op : Turn.Operation) (h : Unended s) :
    Unended (act op s) ∨ ∃ c ∈ op.closings, Closes op c s ∧ Ended c s.metadata (act op s) := by
  generalize ht : s.turn.perform s.metadata op = t
  have hconcludes : t.Concludes s.metadata op.closings := ht ▸ Turn.concludes_perform op h.state rfl
  cases hconcludes with
  | unclosed hs he =>
    left
    have hact : act op s = turned op s := by
      rw [act, ask, ht, turned, ht]
      simp [he]
    rw [hact]
    refine ⟨?_, h.value, (countP_turned op s).trans h.none, h.told⟩
    rw [turned, ht]
    exact hs
  | @closed u c hc hu =>
    right
    refine ⟨c, hc, ⟨u, hu, ht⟩, ?_⟩
    have hended := ended_settle op h hu ht
    have hask : ask op s =
        (c.announce, settle (u.stream.outcome s.metadata c.reason c.causes) (turned op s)) := by
      rw [ask, ht, turned, ht]
      simp [Turn.ending_close hu]
    rw [act, hask]
    exact hended.announced

/-! A whole life. -/

inductive Moves : State κ → State κ → Prop
  | asked (op : Turn.Operation) (s : State κ) : Moves s (act op s)
  | beside {s s' : State κ} (h : Aside s s') : Moves s s'

abbrev Run : State κ → State κ → Prop := Relation.ReflTransGen Moves

structure Fresh (s : State κ) : Prop where
  made : ∃ id ticket request m, s.stream = Stream.new id ticket request m
  value : s.completion.value = none
  history : s.history = []
  happenings : s.happenings = []

omit [Wire.Codec κ] in
theorem Fresh.unended (h : Fresh s) : Unended s := by
  obtain ⟨id, ticket, request, m, hmade⟩ := h.made
  exact ⟨by simp [hmade, Stream.new], h.value, by simp [h.history], by simp [State.told, h.happenings]⟩

/-! The turns of the exchange, seen alone. -/

theorem life_elsewhere {t : Turn κ} (hstream : s.stream = t.stream)
    (hh : t.history.Extends (fun e => ¬e.Sends t.stream.id) s.history) : t.Life s.turn := by
  obtain ⟨new, hnew, hsends⟩ := hh
  have hhappens := Turn.Happens.elsewhere t s.codec none hsends
  rw [← hnew, ← hstream] at hhappens
  exact .single hhappens

theorem life_aside (h : Aside s s') : s.turn.Life s'.turn :=
  life_elsewhere h.stream (h.history.imp fun _ he => he.not_sends _)

omit [Wire.Codec κ] in
theorem extends_settle (o : Outcome) (s : State κ) (id : UInt32) : (settle o s).stream = s.stream ∧
    s.history.Extends (fun e => ¬e.Sends id) (settle o s).history := by
  unfold settle
  split
  · exact ⟨rfl, .cons (fun hsends => hsends) .refl⟩
  · rename_i os completion _
    have htells := aside_foldl_tell os o { s with completion, history := .settled s.stream.ticket o :: s.history }
    have hsettled : s.history.Extends (fun e => ¬e.Sends id) (.settled s.stream.ticket o :: s.history) :=
      .cons (fun hsends => hsends) .refl
    exact ⟨htells.stream, hsettled.trans (htells.history.imp fun _ he => he.not_sends id)⟩

theorem life_ask (op : Turn.Operation) (s : State κ) : s.turn.Life (ask op s).2.turn := by
  have hturn : s.turn.Life (s.turn.perform s.metadata op) := .single (.perform _ _ op)
  refine hturn.trans ?_
  unfold ask
  dsimp only
  split
  · exact life_elsewhere rfl .refl
  · obtain ⟨hstream, hh⟩ := extends_settle _ (turned op s) (s.turn.perform s.metadata op).stream.id
    exact life_elsewhere hstream hh

theorem life_answers (ops : List Turn.Operation) (s : State κ) :
    s.turn.Life (ops.foldl (fun s op => answer op s) s).turn := by
  induction ops generalizing s with
  | nil => exact .refl
  | cons op ops ih =>
    have hfirst : s.turn.Life (answer op s).turn := by
      unfold answer
      dsimp only
      split <;> exact life_ask op s
    exact hfirst.trans (ih _)

theorem life_act (op : Turn.Operation) (s : State κ) : s.turn.Life (act op s).turn := by
  have hask := life_ask op s
  unfold act
  dsimp only
  split
  · split
    · exact hask
    · rename_i ops _
      have hanswers := life_answers ops (happen (.closed (ask op s).2.stream.id) (ask op s).2)
      exact hask.trans hanswers
  · exact hask

theorem Run.life (h : Run s s') : s.turn.Life s'.turn := by
  induction h with
  | refl => exact .refl
  | tail _ hmove ih =>
    cases hmove with
    | asked op => exact ih.trans (life_act op _)
    | beside h => exact ih.trans (life_aside h)

/-! The end, and that there is no other. -/

def EndedBy (s₀ s : State κ) : Prop := ∃ s₁ op, Run s₀ s₁ ∧ Unended s₁ ∧ ∃ c ∈ op.closings, Closes op c s₁ ∧
  Run (act op s₁) s ∧ Ended c s₁.metadata s

theorem EndedBy.exists {s₀ : State κ} (h : EndedBy s₀ s) : ∃ c m, Ended c m s := by
  obtain ⟨s₁, op, _, _, c, _, _, _, hended⟩ := h
  exact ⟨c, s₁.metadata, hended⟩

theorem Run.unended_or (h₀ : Unended s) (h : Run s s') : Unended s' ∨ EndedBy s s' := by
  induction h with
  | refl => exact .inl h₀
  | @tail s₁ s₂ hrun hmove ih =>
    rcases ih with hopen | ⟨s₃, op, hbefore, hopen, c, hc, hcloses, hafter, hended⟩
    · cases hmove with
      | asked op =>
        rcases act_of_unended op hopen with hnext | ⟨c, hc, hcloses, hended⟩
        · exact .inl hnext
        · exact .inr ⟨s₁, op, hrun, hopen, c, hc, hcloses, .refl, hended⟩
      | beside ha => exact .inl (hopen.aside ha)
    · refine .inr ⟨s₃, op, hbefore, hopen, c, hc, hcloses, hafter.tail hmove, ?_⟩
      cases hmove with
      | asked op => exact hended.aside (aside_act op hended.state)
      | beside ha => exact hended.aside ha

structure Lifecycle (s₀ s : State κ) : Prop where
  forward : ∀ s', Run s s' → s.stream.state.rank ≤ s'.stream.state.rank
  fulfilled : s.completion.isFulfilled = true ↔ s.stream.state = .closed
  requestSent : s.stream.requestSent = true ↔ s.history.HeadSent s.stream.id
  running : s.stream.state ≠ .closed → Unended s
  ended : s.stream.state = .closed → EndedBy s₀ s
  finished : s.stream.state = .closed → ∀ op, act op s = s ∨ ∃ message, act op s = note .warn "Stream" message s

/-- Whatever is asked of a fresh exchange, in whatever order and at whatever codec: it goes forward only, it ends once,
and then nothing more comes of what is asked. -/
theorem Run.lifecycle {s₀ : State κ} (h₀ : Fresh s₀) (h : Run s₀ s) : Lifecycle s₀ s := by
  have hunstarted : s₀.turn.Unstarted := ⟨h₀.made, by simp [State.turn, h₀.history]⟩
  have hsending : s.turn.Sending := h.life.beats.sending hunstarted.sending
  have hcases := h.unended_or h₀.unended
  have hended : s.stream.state = .closed → EndedBy s₀ s := fun hs => hcases.resolve_left fun hopen => hopen.state hs
  have hrunning : s.stream.state ≠ .closed → Unended s := by
    intro hs
    refine hcases.resolve_right fun h => ?_
    obtain ⟨c, m, hended⟩ := h.exists
    exact hs hended.state
  refine ⟨fun s' hs' => hs'.life.beats.rank_le, ?_, hsending.head.symm, hrunning, hended,
    fun hs op => act_of_closed op hs⟩
  constructor
  · intro hvalue
    by_contra hs
    simp [Completion.isFulfilled, (hrunning hs).value] at hvalue
  · intro hs
    obtain ⟨c, m, hended⟩ := (hended hs).exists
    simp [Completion.isFulfilled, hended.value]

/-! Scripts. -/

theorem Setup.fresh (setup : Setup) : Fresh setup.state := ⟨⟨_, _, _, _, rfl⟩, rfl, rfl, rfl⟩

theorem moves_perform (step : Step) (s : State Scripted.Codec) : Moves s (perform step s).2 := by
  cases hstep : step.isIdle with
  | true => exact .beside (aside_perform s step hstep)
  | false =>
    unfold perform
    split
    · exact .beside (.refl s)
    · cases step with
      | markPending | initiate | headers | data | windowUpdate | close => exact .asked _ s
      | request | destroy | run | stopLoop | codec | observe | peek => cases hstep

def after (steps : List Step) (s : State Scripted.Codec) : State Scripted.Codec :=
  steps.foldl (fun s step => (perform step s).2) s

theorem run_after (steps : List Step) (s : State Scripted.Codec) : Run s (after steps s) := by
  induction steps generalizing s with
  | nil => exact .refl
  | cons step steps ih => exact (ih _).head (moves_perform step s)

/-- A response that is too long: the exchange resets itself, and the listener is told and tries in vain to close it with
another reason. What comes after that is ignored. -/
theorem lifecycle_maxsize :
    let setup : Setup := {
      metadata := { baseUrl := ⟨ascii "https", ascii "example.com", 443, ascii "/"⟩, maxSize := 3 }
      request := { url := ascii "https://example.com/a" }
      listener := .reclosing }
    let s := after [.markPending, .initiate, .headers [(ascii ":status", ascii "200")], .data (ascii "hello") 5,
      .data (ascii "more") 4, .close .ended [] false, .initiate] setup.state
    s.stream.closeReason = .maxsizeExceeded ∧ s.told = [1] ∧ s.stream.response.body = ascii "hello" ∧
      Lifecycle setup.state s := by
  refine ⟨by decide +kernel, by decide +kernel, by decide +kernel, Run.lifecycle (Setup.fresh _) (run_after _ _)⟩

end Scenario.Exchange

end Multiplex
