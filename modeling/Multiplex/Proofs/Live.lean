import Multiplex.Proofs.Record
import Multiplex.Proofs.Registry
import Multiplex.Session.Operations

/-! The connection on a loop that takes tasks. Nobody is told in the middle of an operation then, so what settles a
request, ends an exchange or runs its turn has an outcome that does not depend on observers. -/
namespace Multiplex

open Bytes Wire

def Entry.settles (ticket : Ticket) : Entry → Bool
  | .settled t _ => t == ticket
  | _ => false

theorem Entry.OfTurn.not_settles {id : UInt32} {e : Entry} (h : e.OfTurn id) (ticket : Ticket) :
    e.settles ticket = false := by
  cases e with
  | settled => exact h.elim
  | _ => rfl

/-- The tickets still owed an outcome, beside the outcomes given so far and the record of giving them: each was
given once. -/
structure Owes (values : List (Option Outcome)) (history : History) (owed : List Ticket) : Prop where
  distinct : owed.Nodup
  unresolved : ∀ t, t ∈ owed ↔ values[t]? = some none
  resolved : ∀ t o, .settled t o ∈ history ↔ values[t]? = some (some o)
  once : ∀ t, history.countP (Entry.settles t) ≤ 1

namespace Owes

variable {values : List (Option Outcome)} {history history' : History} {owed owed' : List Ticket}

theorem nothing : Owes [] [] [] := ⟨List.nodup_nil, by simp, by simp, by simp⟩

theorem perm (h : Owes values history owed) (hp : owed.Perm owed') : Owes values history owed' where
  distinct := hp.nodup_iff.1 h.distinct
  unresolved := fun t => hp.mem_iff.symm.trans (h.unresolved t)
  resolved := h.resolved
  once := h.once

theorem extend (h : Owes values history owed)
    (hh : history.Extends (fun e => ∀ t, e.settles t = false) history') : Owes values history' owed := by
  obtain ⟨new, rfl, hnew⟩ := hh
  refine ⟨h.distinct, h.unresolved, ?_, ?_⟩
  · intro t o
    rw [List.mem_append, h.resolved]
    refine or_iff_right fun hm => ?_
    have hs := hnew _ hm t
    simp [Entry.settles] at hs
  · intro t
    have hzero : new.countP (Entry.settles t) = 0 := List.countP_eq_zero.2 fun e he => by simp [hnew e he t]
    rw [List.countP_append, hzero, Nat.zero_add]
    exact h.once t

private theorem getElem?_issue (values : List (Option Outcome)) (t : Nat) :
    (values ++ [none])[t]? = if t = values.length then some none else values[t]? := by
  rcases Nat.lt_trichotomy t values.length with hlt | rfl | hgt
  · rw [List.getElem?_append_left hlt, if_neg (Nat.ne_of_lt hlt)]
  · rw [List.getElem?_concat_length, if_pos rfl]
  · have hlong : (values ++ [none]).length ≤ t := by
      rw [List.length_append]
      exact Nat.succ_le_of_lt hgt
    rw [List.getElem?_eq_none hlong, if_neg (Nat.ne_of_gt hgt), List.getElem?_eq_none (Nat.le_of_lt hgt)]

theorem issue (h : Owes values history owed) : Owes (values ++ [none]) history (owed ++ [values.length]) := by
  have hfresh : values.length ∉ owed := fun hm => by
    obtain ⟨hlt, -⟩ := List.getElem?_eq_some_iff.1 ((h.unresolved _).1 hm)
    exact Nat.lt_irrefl _ hlt
  refine ⟨?_, ?_, ?_, h.once⟩
  · refine List.nodup_append.2 ⟨h.distinct, List.nodup_singleton _, ?_⟩
    rintro a ha b hb rfl
    exact hfresh (List.mem_singleton.1 hb ▸ ha)
  · intro t
    rw [List.mem_append, List.mem_singleton, getElem?_issue]
    split
    · rename_i ht
      exact iff_of_true (Or.inr ht) rfl
    · rename_i ht
      rw [← h.unresolved]
      exact or_iff_left ht
  · intro t o
    rw [h.resolved, getElem?_issue]
    split
    · rename_i ht
      rw [ht, List.getElem?_eq_none (Nat.le_refl _)]
      simp
    · exact Iff.rfl

theorem settle {ticket : Ticket} (h : Owes values history (ticket :: owed)) (outcome : Outcome) :
    Owes (values.set ticket (some outcome)) (.settled ticket outcome :: history) owed := by
  have hopen : values[ticket]? = some none := (h.unresolved ticket).1 List.mem_cons_self
  obtain ⟨hlt, -⟩ := List.getElem?_eq_some_iff.1 hopen
  obtain ⟨hnot, hnodup⟩ := List.nodup_cons.1 h.distinct
  have hunsettled : ∀ o, .settled ticket o ∉ history := fun o ho => by
    rw [h.resolved, hopen] at ho
    simp at ho
  refine ⟨hnodup, ?_, ?_, ?_⟩
  · intro t
    by_cases ht : t = ticket
    · subst ht
      rw [List.getElem?_set_self hlt]
      simp [hnot]
    · rw [List.getElem?_set_ne (Ne.symm ht), ← h.unresolved, List.mem_cons]
      exact (or_iff_right ht).symm
  · intro t o
    by_cases ht : t = ticket
    · subst ht
      rw [List.getElem?_set_self hlt]
      simp [hunsettled o, eq_comm]
    · rw [List.getElem?_set_ne (Ne.symm ht), ← h.resolved]
      simp [ht]
  · intro t
    rw [List.countP_cons]
    by_cases ht : ticket = t
    · subst ht
      have hzero : history.countP (Entry.settles ticket) = 0 := by
        refine List.countP_eq_zero.2 fun e he hs => ?_
        cases e with
        | settled u o =>
          rw [Entry.settles, beq_iff_eq] at hs
          subst hs
          exact hunsettled o he
        | _ => exact Bool.noConfusion hs
      rw [hzero]
      split <;> decide
    · have hne : Entry.settles t (.settled ticket outcome) = false := beq_false_of_ne ht
      rw [hne]
      exact h.once t

end Owes

def Completion.fulfilled {ω α : Type} (value : α) (c : Completion ω α) : Completion ω α :=
  if c.isFulfilled then c else ⟨some value, []⟩

def Stream.lossOutcome (m : Metadata) (causes : List Fault) (stream : Stream) : Outcome :=
  if stream.requestSent then stream.outcome m .connectionLost causes else stream.outcome m .inactive []

namespace Session

variable {κ τ ω σ : Type}

structure Standing (τ ω σ : Type) where
  transport : Option τ
  clock : UInt64
  program : σ
  options : Options
  metadata : Metadata
  nextId : UInt32
  acknowledged : Bool
  lost : Bool
  closing : Bool
  idle : IdleDeadline
  causes : List Fault
  lossNotice : Option (Completion ω (List Fault))
  stopped : Bool

def standing (s : Session κ τ ω σ) : Standing τ ω σ where
  transport := s.transport
  clock := s.clock
  program := s.program
  options := s.options
  metadata := s.metadata
  nextId := s.nextId
  acknowledged := s.acknowledged
  lost := s.lost
  closing := s.closing
  idle := s.idle
  causes := s.causes
  lossNotice := s.lossNotice
  stopped := s.loop.stopped

def values (s : Session κ τ ω σ) : List (Option Outcome) := s.completions.map (·.value)

def notify (notices : List (Notice ω)) (s : Session κ τ ω σ) : Session κ τ ω σ :=
  { s with loop := { s.loop with queue := s.loop.queue ++ notices } }

theorem notify_nil (s : Session κ τ ω σ) : s.notify [] = s := by
  simp [notify]

theorem notify_append (a b : List (Notice ω)) (s : Session κ τ ω σ) :
    s.notify (a ++ b) = (s.notify a).notify b := by
  simp [notify]

def resolve (ticket : Ticket) (outcome : Outcome) (notices : List (Notice ω)) (s : Session κ τ ω σ) :
    Session κ τ ω σ :=
  { s with completions := s.completions.set ticket ⟨some outcome, []⟩ }
    |>.enter (.settled ticket outcome)
    |>.notify notices

theorem values_resolve (ticket : Ticket) (outcome : Outcome) (notices : List (Notice ω))
    (s : Session κ τ ω σ) :
    (s.resolve ticket outcome notices).values = s.values.set ticket (some outcome) := by
  unfold values
  exact List.map_set

theorem tellAll_eq {r : Reaction κ τ ω σ} {s : Session κ τ ω σ} (hl : s.loop.stopped = false) (os : List ω)
    (news : News) : s.tellAll r os news = s.notify (os.map (⟨·, news⟩)) := by
  unfold tellAll
  induction os generalizing s with
  | nil => exact (notify_nil s).symm
  | cons o os ih =>
    have htell : s.tell r ⟨o, news⟩ = s.notify [⟨o, news⟩] := by
      simp [tell, Loop.post, hl, notify]
    have hl' : (s.notify [⟨o, news⟩]).loop.stopped = false := hl
    rw [List.foldl_cons, htell, ih hl', ← notify_append]
    rfl

theorem settle_eq {r : Reaction κ τ ω σ} {s : Session κ τ ω σ} {ticket : Ticket} (hl : s.loop.stopped = false)
    (hv : s.values[ticket]? = some none) (outcome : Outcome) :
    ∃ notices, s.settle r ticket outcome = s.resolve ticket outcome notices := by
  obtain ⟨c, hc, hopen⟩ : ∃ c, s.completions[ticket]? = some c ∧ c.value = none := by
    simpa [values] using hv
  refine ⟨c.observers.map (⟨·, .settled ticket outcome⟩), ?_⟩
  unfold settle
  simp only [hc, Completion.fulfil, hopen]
  refine tellAll_eq ?_ c.observers _
  exact hl

theorem finish_eq {r : Reaction κ τ ω σ} {s : Session κ τ ω σ} {stream : Stream} (hl : s.loop.stopped = false)
    (hs : stream.state ≠ .closed) (hv : s.values[stream.ticket]? = some none) (reason : CloseReason)
    (causes : List Fault) :
    ∃ history notices, s.history.Extends Entry.IsStreamLine history ∧
      s.finish r stream reason causes = ({ s with history } : Session κ τ ω σ).resolve stream.ticket
        (stream.outcome s.metadata reason causes) notices := by
  let t : Turn κ := { stream, codec := s.codec, history := s.history }
  have hopen : t.stream.state ≠ .closed := hs
  let closed := t.close s.metadata reason causes false
  obtain ⟨notices, hn⟩ := settle_eq (r := r) (s := { s with history := closed.history }) hl hv
    (stream.outcome s.metadata reason causes)
  refine ⟨closed.history, notices, Turn.extends_close t reason causes false, ?_⟩
  have he : closed.ending = some ⟨stream.outcome s.metadata reason causes, false⟩ :=
    Turn.ending_close hopen reason causes false
  rw [← hn]
  unfold finish
  simp only [t, closed] at he ⊢
  rw [he]

/-! The end of a connection: the loss is announced, and every exchange that is left is ended. -/

/-- What the announcement of a loss adds to the record. It is a line only where somebody else gave the notice. -/
def OfAnnouncement (s : Session κ τ ω σ) : Entry → Prop
  | .lossAnnounced _ => True
  | .log _ => ∃ c, s.lossNotice = some c ∧ c.isFulfilled = true
  | _ => False

theorem OfAnnouncement.not_settles {s : Session κ τ ω σ} {e : Entry} (h : s.OfAnnouncement e) (ticket : Ticket) :
    e.settles ticket = false := by
  cases e with
  | settled => exact h.elim
  | _ => rfl

theorem announceLoss_eq {r : Reaction κ τ ω σ} {s : Session κ τ ω σ} (hl : s.loop.stopped = false) :
    ∃ history notices, s.history.Extends s.OfAnnouncement history ∧
      s.announceLoss r = ({ s with
        lossNotice := s.lossNotice.map (·.fulfilled s.causes)
        history } : Session κ τ ω σ).notify notices := by
  unfold announceLoss
  cases hn : s.lossNotice with
  | none =>
    refine ⟨s.history, [], .refl, ?_⟩
    exact (congrArg (fun lossNotice => { s with lossNotice }) hn).trans (notify_nil _).symm
  | some c =>
    cases hc : c.isFulfilled with
    | true =>
      have hdone : ∀ line, s.OfAnnouncement (.log line) := fun _ => ⟨c, hn, hc⟩
      have htwice : c.fulfil s.causes = none := Completion.fulfil_eq_none_iff.2 hc
      have hstays : s.noteTwice = { s.noteTwice with lossNotice := some (c.fulfilled s.causes) } := by
        rw [Completion.fulfilled, if_pos hc, ← hn]
        rfl
      refine ⟨s.noteTwice.history, [], .cons (hdone _) .refl, ?_⟩
      dsimp only
      rw [htwice]
      exact hstays.trans (notify_nil _).symm
    | false =>
      have htold : c.fulfil s.causes = some (c.observers, c.fulfilled s.causes) := by
        rw [Completion.fulfil_eq_some_iff, Completion.fulfilled, hc]
        exact ⟨Option.isNone_iff_eq_none.1 (Option.isSome_eq_false_iff.1 hc), rfl, rfl⟩
      let announced : Session κ τ ω σ :=
        ({ s with lossNotice := some (c.fulfilled s.causes) } : Session κ τ ω σ).enter (.lossAnnounced s.causes)
      have hlive : announced.loop.stopped = false := hl
      refine ⟨announced.history, c.observers.map (⟨·, .lost s.causes⟩), .cons trivial .refl, ?_⟩
      dsimp only
      rw [htold]
      exact tellAll_eq hlive c.observers (.lost s.causes)

def dismiss (r : Reaction κ τ ω σ) (s : Session κ τ ω σ) (stream : Stream) : Session κ τ ω σ :=
  if stream.requestSent then s.finish r stream .connectionLost s.causes else s.finish r stream .inactive []

def OfEnding (e : Entry) : Prop := e.IsStreamLine ∨ ∃ ticket outcome, e = .settled ticket outcome

theorem OfEnding.unseen {α : Type} {view : Entry → Option α} (hlog : ∀ l, view (.log l) = none)
    (hsettled : ∀ ticket outcome, view (.settled ticket outcome) = none) {e : Entry} (h : OfEnding e) :
    view e = none := by
  rcases h with h | ⟨ticket, outcome, rfl⟩
  · exact h.unseen hlog
  · exact hsettled ticket outcome

theorem dismiss_eq {r : Reaction κ τ ω σ} {s : Session κ τ ω σ} {stream : Stream} (hl : s.loop.stopped = false)
    (hs : stream.state ≠ .closed) {owed : List Ticket} (ho : Owes s.values s.history (stream.ticket :: owed)) :
    ∃ completions history notices,
      Owes (completions.map (·.value)) history owed ∧ completions.length = s.completions.length ∧
      s.history.Extends OfEnding history ∧
      s.dismiss r stream = ({ s with completions, history } : Session κ τ ω σ).notify notices := by
  have hv : s.values[stream.ticket]? = some none := (ho.unresolved _).1 List.mem_cons_self
  obtain ⟨history, notices, hh, hfinish⟩ : ∃ history notices, s.history.Extends Entry.IsStreamLine history ∧
      s.dismiss r stream = ({ s with history } : Session κ τ ω σ).resolve stream.ticket
        (stream.lossOutcome s.metadata s.causes) notices := by
    unfold dismiss Stream.lossOutcome
    split
    · exact finish_eq hl hs hv .connectionLost s.causes
    · exact finish_eq hl hs hv .inactive []
  let outcome := stream.lossOutcome s.metadata s.causes
  refine ⟨s.completions.set stream.ticket ⟨some outcome, []⟩, .settled stream.ticket outcome :: history, notices, ?_,
    List.length_set, ?_, hfinish⟩
  · rw [List.map_set]
    refine (ho.extend (hh.imp ?_)).settle outcome
    rintro e ⟨l, rfl, -⟩ t
    rfl
  · exact .cons (Or.inr ⟨_, _, rfl⟩) (hh.imp fun _ => Or.inl)

theorem foldl_dismiss_eq {r : Reaction κ τ ω σ} {s : Session κ τ ω σ} {streams : List Stream}
    (hl : s.loop.stopped = false) (hs : ∀ x ∈ streams, x.state ≠ .closed)
    (ho : Owes s.values s.history (streams.map (·.ticket))) :
    ∃ completions history notices,
      Owes (completions.map (·.value)) history [] ∧ completions.length = s.completions.length ∧
      s.history.Extends OfEnding history ∧
      streams.foldl (dismiss r) s = ({ s with completions, history } : Session κ τ ω σ).notify notices := by
  induction streams generalizing s with
  | nil => exact ⟨s.completions, s.history, [], ho, rfl, .refl, (notify_nil s).symm⟩
  | cons x rest ih =>
    obtain ⟨hx, hrest⟩ := List.forall_mem_cons.1 hs
    obtain ⟨completions, history, notices, hone, hlength, hh, hd⟩ := dismiss_eq (r := r) hl hx ho
    let next := ({ s with completions, history } : Session κ τ ω σ).notify notices
    obtain ⟨completions', history', notices', hall, hlength', hh', hf⟩ := ih (s := next) hl hrest hone
    refine ⟨completions', history', notices ++ notices', hall, hlength'.trans hlength, hh.trans hh', ?_⟩
    rw [List.foldl_cons, hd, hf, notify_append]
    rfl

def closeCodec [Codec κ] (code : ErrorCode) (s : Session κ τ ω σ) : Session κ τ ω σ :=
  { s with codec := Codec.close s.codec code }.enter (.call (.close code))

def dismissAll [Codec κ] (r : Reaction κ τ ω σ) (s : Session κ τ ω σ) : Session κ τ ω σ :=
  s.registry.snapshot.foldl (dismiss r) { s with registry := s.registry.clear } |>.closeCodec .noError

end Session

end Multiplex
