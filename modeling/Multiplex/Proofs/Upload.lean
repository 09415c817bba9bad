import Mathlib.Data.List.TakeDrop
import Multiplex.Proofs.Record
import Multiplex.Stream.Operation

/-! The upload of a request's body. An exchange lives through turns in any order, and in between its codec changes in
any way; of all that, only a few beats matter for the request. What a beat keeps of the pieces sent so far holds for
a whole life: they make up the body from its start, and the last of them ends the request. -/
namespace Multiplex

open Bytes Wire

/-! What a record shows of one exchange's request. -/

namespace Entry

def Sends (id : UInt32) : Entry → Prop
  | .call (.headers i _ _ _) | .call (.data i _ _ _) => i = id
  | _ => False

def isPiece (id : UInt32) : Entry → Bool
  | .call (.data i _ _ _) => i == id
  | _ => false

def accepted (id : UInt32) : Entry → Option Bytes
  | .call (.data i bytes _ ret) => if i = id ∧ ret = 0 then some bytes else none
  | _ => none

def Finishes (id : UInt32) : Entry → Prop
  | .call (.headers i _ last ret) | .call (.data i _ last ret) => i = id ∧ last = true ∧ ret = 0
  | _ => False

variable {id : UInt32} {e : Entry}

theorem Finishes.sends (h : e.Finishes id) : e.Sends id := by
  unfold Finishes at h
  split at h
  · exact h.1
  · exact h.1
  · exact h.elim

theorem accepted_of_not_sends (h : ¬e.Sends id) : e.accepted id = none := by
  unfold accepted
  split
  · exact if_neg fun hid => h hid.1
  · rfl

theorem isPiece_of_not_sends (h : ¬e.Sends id) : e.isPiece id = false := by
  unfold isPiece
  split
  · exact beq_false_of_ne h
  · rfl

end Entry

namespace History

def sent (id : UInt32) (h : History) : Bytes := (h.select (Entry.accepted id)).flatten

def HeadSent (id : UInt32) (h : History) : Prop := ∃ fields last, .call (.headers id fields last 0) ∈ h

variable {id : UInt32} {h h' : History}

theorem Extends.sent (hh : h.Extends (fun e => ¬e.Sends id) h') : h'.sent id = h.sent id :=
  congrArg List.flatten (hh.select_eq fun _ => Entry.accepted_of_not_sends)

theorem Extends.mem_iff (hh : h.Extends (fun e => ¬e.Sends id) h') {e : Entry} (he : e.Sends id) :
    e ∈ h' ↔ e ∈ h := by
  obtain ⟨new, rfl, hnew⟩ := hh
  rw [List.mem_append]
  exact or_iff_right fun hm => hnew e hm he

theorem Extends.headSent (hh : h.Extends (fun e => ¬e.Sends id) h') : h'.HeadSent id ↔ h.HeadSent id :=
  exists_congr fun _ => exists_congr fun _ => hh.mem_iff rfl

theorem headSent_cons {e : Entry} (he : ∀ fields last, e ≠ .call (.headers id fields last 0)) :
    HeadSent id (e :: h) ↔ h.HeadSent id := by
  refine exists_congr fun fields => exists_congr fun last => ?_
  rw [List.mem_cons, or_iff_right fun heq => he fields last heq.symm]

theorem Extends.split {p : Entry → Prop} (hh : h.Extends p h') {later earlier : History} {e : Entry} (he : ¬p e)
    (hsplit : h' = later ++ e :: earlier) : ∃ later', h = later' ++ e :: earlier := by
  obtain ⟨new, rfl, hnew⟩ := hh
  rcases List.append_eq_append_iff.1 hsplit with ⟨later', -, hold⟩ | ⟨between, hnew', hrest⟩
  · exact ⟨later', hold⟩
  · cases between with
    | nil => exact ⟨[], hrest.symm⟩
    | cons e' between =>
      obtain ⟨rfl, -⟩ := List.cons.inj hrest
      exact absurd (hnew e (hnew' ▸ by simp)) he

theorem sent_cons_data (id : UInt32) (bytes : Bytes) (last : Bool) (ret : Int32) (h : History) :
    History.sent id (.call (.data id bytes last ret) :: h) = h.sent id ++ if ret = 0 then bytes else [] := by
  unfold History.sent
  rw [select_cons, List.flatten_append, Entry.accepted]
  by_cases hret : ret = 0
  · simp [hret]
  · simp [hret]

end History

namespace Turn

variable {κ : Type} {m : Metadata} {d : Direction} {t t' t'' t₀ : Turn κ}

structure Unstarted (t : Turn κ) : Prop where
  made : ∃ id ticket request m, t.stream = Stream.new id ticket request m
  silent : ∀ e ∈ t.history, ¬e.Sends t.stream.id

/-! What leaves a request alone. -/

structure Spares (t t' : Turn κ) : Prop where
  id : t'.stream.id = t.stream.id
  request : t'.stream.request = t.stream.request
  unsent : t'.stream.unsent = t.stream.unsent
  requestSent : t'.stream.requestSent = t.stream.requestSent
  state : t'.stream.state = t.stream.state ∨ t'.stream.state = .closed
  history : t.history.Extends (fun e => ¬e.Sends t.stream.id) t'.history

theorem Spares.refl (t : Turn κ) : Spares t t := ⟨rfl, rfl, rfl, rfl, Or.inl rfl, .refl⟩

theorem Spares.trans (h : Spares t t') (h' : Spares t' t'') : Spares t t'' where
  id := h'.id.trans h.id
  request := h'.request.trans h.request
  unsent := h'.unsent.trans h.unsent
  requestSent := h'.requestSent.trans h.requestSent
  state := by
    rcases h'.state with hs | hs
    · rw [hs]
      exact h.state
    · exact Or.inr hs
  history := h.history.trans (h.id ▸ h'.history)

theorem Spares.state_eq (h : Spares t t') {state : StreamState} (hopen : state ≠ .closed)
    (hs : t'.stream.state = state) : t.stream.state = state := by
  rcases h.state with hsame | hclosed
  · exact hsame.symm.trans hs
  · exact absurd (hs.symm.trans hclosed) hopen

theorem spares_note (t : Turn κ) (level : Log.Level) (message : Bytes) : Spares t (t.note level message) :=
  ⟨rfl, rfl, rfl, rfl, Or.inl rfl, .cons id .refl⟩

theorem spares_absorb (t : Turn κ) (field : Bytes × Bytes) : Spares t (t.absorb field) := by
  unfold absorb
  split
  · split
    · exact ⟨rfl, rfl, rfl, rfl, Or.inl rfl, .refl⟩
    · exact spares_note t _ _
  · split
    · exact .refl t
    · exact ⟨rfl, rfl, rfl, rfl, Or.inl rfl, .refl⟩

theorem spares_close (t : Turn κ) (reason : CloseReason) (causes : List Fault) (announce : Bool) :
    Spares t (t.close m reason causes announce) := by
  have hhistory : t.history.Extends (fun e => ¬e.Sends t.stream.id) (t.close m reason causes announce).history := by
    refine (extends_close t reason causes announce).imp ?_
    rintro e ⟨l, rfl, -⟩
    exact id
  by_cases hs : t.stream.state = .closed
  · have hstray : (t.close m reason causes announce).stream = t.stream := by
      unfold close
      rw [if_pos hs]
      rfl
    refine ⟨?_, ?_, ?_, ?_, Or.inl ?_, hhistory⟩
    all_goals rw [hstray]
  · refine ⟨?_, ?_, ?_, ?_, Or.inr ?_, hhistory⟩
    all_goals rw [stream_close hs]

/-! How far a request has come. -/

/-- The pieces that were taken and the bytes that are left make up the body, and the state of the exchange tells how
far its request has come. -/
structure Sending (t : Turn κ) : Prop where
  whole : t.history.sent t.stream.id ++ t.stream.unsent = t.stream.request.body
  head : t.history.HeadSent t.stream.id ↔ t.stream.requestSent = true
  waiting : t.stream.state = .created ∨ t.stream.state = .pending → t.stream.requestSent = false
  running : t.stream.state = .opened ∨ t.stream.state = .halfClosed → t.stream.requestSent = true
  done : t.stream.state = .halfClosed → t.stream.unsent = []
  finished : ∀ e ∈ t.history, e.Finishes t.stream.id → t.stream.unsent = []
  heads : ∀ fields last ret, .call (.headers t.stream.id fields last ret) ∈ t.history →
    last = t.stream.request.body.isEmpty

theorem Unstarted.sending (h : Unstarted t) : t.Sending := by
  obtain ⟨⟨id, ticket, request, m, hmade⟩, hsilent⟩ := h
  have hgrowth : History.Extends (fun e => ¬e.Sends t.stream.id) [] t.history :=
    ⟨t.history, (List.append_nil _).symm, hsilent⟩
  have hstate : t.stream.state = .created := congrArg Stream.state hmade
  have hunsent : t.stream.requestSent = false := congrArg Stream.requestSent hmade
  constructor
  case whole =>
    rw [hgrowth.sent, hmade]
    rfl
  case head =>
    rw [hgrowth.headSent, hunsent]
    simp [History.HeadSent]
  case waiting => exact fun _ => hunsent
  case running => simp [hstate]
  case done => simp [hstate]
  case finished => exact fun e he hf => absurd hf.sends (hsilent e he)
  case heads => exact fun fields last ret hm => absurd rfl (hsilent _ hm)

theorem Spares.sending (h : Spares t t') (ht : t.Sending) : t'.Sending := by
  have hh : t.history.Extends (fun e => ¬e.Sends t'.stream.id) t'.history := h.id ▸ h.history
  constructor
  case whole =>
    rw [hh.sent, h.id, h.unsent, h.request]
    exact ht.whole
  case head =>
    rw [hh.headSent, h.id, h.requestSent]
    exact ht.head
  case waiting =>
    rw [h.requestSent]
    exact fun hs => ht.waiting (hs.imp (h.state_eq StreamState.noConfusion) (h.state_eq StreamState.noConfusion))
  case running =>
    rw [h.requestSent]
    exact fun hs => ht.running (hs.imp (h.state_eq StreamState.noConfusion) (h.state_eq StreamState.noConfusion))
  case done =>
    rw [h.unsent]
    exact fun hs => ht.done (h.state_eq StreamState.noConfusion hs)
  case finished =>
    intro e he hf
    rw [h.unsent]
    exact ht.finished e ((hh.mem_iff hf.sends).1 he) (h.id ▸ hf)
  case heads =>
    intro fields last ret hm
    have hold : Entry.call (.headers t'.stream.id fields last ret) ∈ t.history :=
      (hh.mem_iff (show Entry.Sends _ (.call (.headers t'.stream.id fields last ret)) from rfl)).1 hm
    rw [h.id] at hold
    rw [h.request]
    exact ht.heads fields last ret hold

theorem sending_pending (hs : t.stream.state = .created) (ht : t.Sending) :
    ({ t with stream.state := .pending } : Turn κ).Sending where
  whole := ht.whole
  head := ht.head
  waiting := fun _ => ht.waiting (Or.inl hs)
  running := by simp
  done := by simp
  finished := ht.finished
  heads := ht.heads

theorem sending_complete (hs : t.stream.state = .opened) (hu : t.stream.unsent = []) (ht : t.Sending) :
    ({ t with stream.state := .halfClosed } : Turn κ).Sending where
  whole := ht.whole
  head := ht.head
  waiting := by simp
  running := fun _ => ht.running (Or.inl hs)
  done := fun _ => hu
  finished := ht.finished
  heads := ht.heads

/-- The bytes that were taken are those from the start of the body. -/
theorem Sending.sent (h : t.Sending) : t.history.sent t.stream.id =
    t.stream.request.body.take (t.stream.request.body.length - t.stream.unsent.length) := by
  rw [← h.whole, List.length_append, Nat.add_sub_cancel, List.take_left]

theorem Sending.state_of_head (h : t.Sending) (hhead : t.history.HeadSent t.stream.id)
    (hs : t.stream.state ≠ .closed) : t.stream.state = .opened ∨ t.stream.state = .halfClosed := by
  have hsent : t.stream.requestSent = true := h.head.1 hhead
  cases hstate : t.stream.state with
  | created => exact absurd ((h.waiting (Or.inl hstate)).symm.trans hsent) Bool.false_ne_true
  | pending => exact absurd ((h.waiting (Or.inr hstate)).symm.trans hsent) Bool.false_ne_true
  | opened => exact Or.inl rfl
  | halfClosed => exact Or.inr rfl
  | closed => exact absurd hstate hs

/-! Where a turn may stop. -/

def Rests (t : Turn κ) : Prop := t.stream.state = .opened → t.stream.unsent ≠ []

theorem rests_of_state {state : StreamState} (hs : t.stream.state = state) (hopen : state ≠ .opened) : t.Rests :=
  fun h => absurd (hs.symm.trans h) hopen

theorem Spares.rests (h : Spares t t') (ht : t.Rests) : t'.Rests := by
  unfold Rests
  rw [h.unsent]
  exact fun hs => ht (h.state_eq StreamState.noConfusion hs)

theorem state_close (t : Turn κ) (reason : CloseReason) (causes : List Fault) (announce : Bool) :
    (t.close m reason causes announce).stream.state = .closed := by
  by_cases hs : t.stream.state = .closed
  · unfold close
    rwa [if_pos hs]
  · rw [stream_close hs]

theorem Sending.halfClosed_iff (h : t.Sending) (hrests : t.Rests) (hs : t.stream.state ≠ .closed) :
    t.stream.state = .halfClosed ↔ t.history.HeadSent t.stream.id ∧ t.stream.unsent = [] := by
  constructor
  · exact fun hstate => ⟨h.head.2 (h.running (Or.inr hstate)), h.done hstate⟩
  · rintro ⟨hhead, hunsent⟩
    exact (h.state_of_head hhead hs).resolve_left fun hstate => hrests hstate hunsent

theorem Sending.opened_iff (h : t.Sending) (hrests : t.Rests) (hs : t.stream.state ≠ .closed) :
    t.stream.state = .opened ↔ t.history.HeadSent t.stream.id ∧ t.stream.unsent ≠ [] := by
  constructor
  · exact fun hstate => ⟨h.head.2 (h.running (Or.inl hstate)), hrests hstate⟩
  · rintro ⟨hhead, hunsent⟩
    exact (h.state_of_head hhead hs).resolve_right fun hstate => hunsent (h.done hstate)

variable [Codec κ]

/-! Turns, what happens in between, and the beats that they come to. -/

/-- A turn of an exchange, or what happens to its codec in between. Nobody else sends its request. -/
inductive Happens : Turn κ → Turn κ → Prop
  | perform (t : Turn κ) (m : Metadata) (op : Operation) : Happens t (t.perform m op)
  | elsewhere (t : Turn κ) (codec : κ) (ending : Option Ending) {new : History}
      (h : ∀ e ∈ new, ¬e.Sends t.stream.id) : Happens t { t with codec, ending, history := new ++ t.history }

abbrev Life : Turn κ → Turn κ → Prop := Relation.ReflTransGen Happens

inductive Beat : Turn κ → Turn κ → Prop
  | spare {t t' : Turn κ} (h : Spares t t') : Beat t t'
  | pending {t : Turn κ} (hs : t.stream.state = .created) : Beat t { t with stream.state := .pending }
  | refused {t : Turn κ} (url : Url) (hs : t.stream.state = .pending) (hret : (t.headAnswer url).1 ≠ 0) :
      Beat t (t.offerHead url)
  | taken {t : Turn κ} (url : Url) (hs : t.stream.state = .pending) (hret : (t.headAnswer url).1 = 0) :
      Beat t (t.headTaken url)
  | piece {t : Turn κ} (hs : t.stream.state = .opened) (hu : t.stream.unsent ≠ [])
      (hw : 0 < (Codec.window t.codec t.stream.id).toInt) (hr : t.room ≠ 0) : Beat t t.offer.2
  | complete {t : Turn κ} (hs : t.stream.state = .opened) (hu : t.stream.unsent = []) :
      Beat t { t with stream.state := .halfClosed }

abbrev Beats : Turn κ → Turn κ → Prop := Relation.ReflTransGen Beat

theorem spares_resetAndClose (t : Turn κ) (code : ErrorCode) (reason : CloseReason) :
    Spares t (t.resetAndClose m code reason) := by
  unfold resetAndClose
  have hreset : Spares t (t.record (Codec.reset t.codec t.stream.id code).2
      (.reset t.stream.id code (Codec.reset t.codec t.stream.id code).1)) :=
    ⟨rfl, rfl, rfl, rfl, Or.inl rfl, .cons id .refl⟩
  dsimp only
  split
  · exact hreset.trans (spares_close _ _ _ _)
  · exact (hreset.trans (spares_note _ _ _)).trans (spares_close _ _ _ _)

theorem Step.spares (h : Step m .receiving t t') : Spares t t' := by
  cases h with
  | note => exact spares_note _ _ _
  | absorb field => exact spares_absorb t field
  | headReceived | expect | warned | append => exact ⟨rfl, rfl, rfl, rfl, Or.inl rfl, .refl⟩
  | acknowledge | reset => exact ⟨rfl, rfl, rfl, rfl, Or.inl rfl, .cons id .refl⟩
  | close causes => exact spares_close t _ causes true

theorem Steps.spares (h : Steps m .receiving t t') : Spares t t' := by
  induction h with
  | refl => exact .refl t
  | tail _ hstep ih => exact ih.trans hstep.spares

theorem Step.beat (h : Step m .sending t t') : Beat t t' := by
  cases h with
  | note => exact .spare (spares_note _ _ _)
  | piece hs hu hw hr => exact .piece hs hu hw hr
  | complete hs hu => exact .complete hs hu
  | reset => exact .spare ⟨rfl, rfl, rfl, rfl, Or.inl rfl, .cons id .refl⟩
  | close causes => exact .spare (spares_close t _ causes true)

theorem Steps.beats (h : Steps m .sending t t') : Beats t t' := by
  induction h with
  | refl => exact .refl
  | tail _ hstep ih => exact ih.tail hstep.beat

theorem Spares.beats (h : Spares t t') : Beats t t' := .single (.spare h)

theorem beats_initiate (m : Metadata) (t : Turn κ) : Beats t (t.initiate m) := by
  by_cases hs : t.stream.state = .pending
  · rcases initiate_cases (m := m) hs with ⟨message, h⟩ | ⟨url, message, hret, h⟩ | ⟨url, hret, h⟩
    · rw [h]
      exact ((spares_note t _ _).trans (spares_close _ _ _ _)).beats
    · rw [h]
      exact (((spares_note _ _ _).trans (spares_close _ _ _ _)).beats).head (.refused url hs hret)
    · exact h.beats.head (.taken url hs hret)
  · have hstray : t.initiate m = t.warnStray " cannot initiate request in state " := if_pos hs
    rw [hstray]
    exact (spares_note t _ _).beats

theorem beats_perform (m : Metadata) (op : Operation) (t : Turn κ) : Beats t (t.perform m op) := by
  cases op with
  | markPending =>
    unfold perform markPending
    dsimp only
    split
    · rename_i hs
      exact .single (.pending hs)
    · exact (spares_note t _ _).beats
  | initiate => exact beats_initiate m t
  | receiveHeaders fields => exact (steps_receiveHeaders t fields).spares.beats
  | receiveData data flowLength => exact (steps_receiveData t data flowLength).spares.beats
  | receiveWindowUpdate => exact (steps_receiveWindowUpdate t).beats
  | close reason causes announce => exact (spares_close t reason causes announce).beats

theorem Happens.beats (h : Happens t t') : Beats t t' := by
  cases h with
  | perform m op => exact beats_perform m op t
  | elsewhere codec ending h => exact Spares.beats ⟨rfl, rfl, rfl, rfl, Or.inl rfl, _, rfl, h⟩

theorem Life.beats (h : Life t t') : Beats t t' := by
  induction h with
  | refl => exact .refl
  | tail _ hhappens ih => exact ih.trans hhappens.beats

/-! What every beat keeps. -/

theorem sent_offerHead (t : Turn κ) (url : Url) :
    (t.offerHead url).history.sent t.stream.id = t.history.sent t.stream.id := by
  unfold History.sent offerHead
  rw [show (t.record _ _).history = _ :: t.history from rfl, History.select_cons]
  exact congrArg List.flatten (List.append_nil _)

theorem sending_offerHead {url : Url} (ht : t.Sending) (fields : Headers) (last : Bool) (ret : Int32)
    (hm : .call (.headers t.stream.id fields last ret) ∈ (t.offerHead url).history) :
    last = t.stream.request.body.isEmpty := by
  rcases List.mem_cons.1 hm with heq | hm
  · cases heq
    rfl
  · exact ht.heads fields last ret hm

theorem sending_refused {url : Url} (hret : (t.headAnswer url).1 ≠ 0)
    (ht : t.Sending) : (t.offerHead url).Sending where
  whole := by
    rw [show (t.offerHead url).stream = t.stream from rfl, sent_offerHead]
    exact ht.whole
  head := by
    refine (History.headSent_cons fun fields last heq => hret ?_).trans ht.head
    injection heq with heq
    injection heq
  waiting := ht.waiting
  running := ht.running
  done := ht.done
  finished := by
    intro e he hf
    rcases List.mem_cons.1 he with rfl | he
    · exact absurd hf.2.2 hret
    · exact ht.finished e he hf
  heads := sending_offerHead ht

theorem sending_taken {url : Url} (hret : (t.headAnswer url).1 = 0)
    (ht : t.Sending) : (t.headTaken url).Sending := by
  have hunsent : t.stream.request.body.isEmpty = true → t.stream.unsent = [] := by
    intro hbody
    have hwhole := ht.whole
    rw [List.isEmpty_iff.1 hbody] at hwhole
    exact (List.append_eq_nil_iff.1 hwhole).2
  have hstate : (t.headTaken url).stream.state = if t.stream.request.body.isEmpty then .halfClosed else .opened := rfl
  constructor
  case whole => exact (congrArg (· ++ t.stream.unsent) (sent_offerHead t url)).trans ht.whole
  case head =>
    have hoffered : Entry.call (.headers t.stream.id (t.stream.requestFields url) t.stream.request.body.isEmpty
        (t.headAnswer url).1) ∈ (t.headTaken url).history := List.mem_cons_self
    rw [hret] at hoffered
    exact iff_of_true ⟨_, _, hoffered⟩ rfl
  case waiting =>
    rw [hstate]
    split <;> simp
  case running => exact fun _ => rfl
  case done =>
    rw [hstate]
    split
    · rename_i hbody
      exact fun _ => hunsent hbody
    · simp
  case finished =>
    intro e he hf
    rcases List.mem_cons.1 he with rfl | he
    · exact hunsent hf.2.1
    · exact ht.finished e he hf
  case heads => exact sending_offerHead ht

/-! A piece that is offered. -/

def nextPiece (t : Turn κ) : Bytes × Bool := (t.stream.unsent.take t.room, (t.stream.unsent.drop t.room).isEmpty)

theorem history_offer (t : Turn κ) :
    t.offer.2.history = .call (.data t.stream.id t.nextPiece.1 t.nextPiece.2 t.offer.1) :: t.history := by
  unfold offer
  dsimp only
  split <;> rfl

theorem unsent_refused (h : t.offer.1 ≠ 0) : t.offer.2.stream.unsent = t.stream.unsent := by
  have h' : (Codec.sendData t.codec t.stream.id (t.stream.unsent.take t.room)
      (t.stream.unsent.drop t.room).isEmpty).1 ≠ 0 := h
  simp [offer, record, h']

theorem whole_offer (ht : t.Sending) :
    t.offer.2.history.sent t.stream.id ++ t.offer.2.stream.unsent = t.stream.request.body := by
  rw [history_offer, History.sent_cons_data]
  by_cases hret : t.offer.1 = 0
  · rw [if_pos hret, unsent_offer hret, List.append_assoc]
    exact (congrArg (_ ++ ·) (List.take_append_drop _ _)).trans ht.whole
  · rw [if_neg hret, unsent_refused hret, List.append_nil]
    exact ht.whole

theorem sending_piece (hs : t.stream.state = .opened) (hu : t.stream.unsent ≠ []) (ht : t.Sending) :
    t.offer.2.Sending := by
  have hsame := same_offer t
  have hcontinues := continues_offer t
  constructor
  case whole =>
    rw [hcontinues.id, hcontinues.request]
    exact whole_offer ht
  case head =>
    rw [hcontinues.id, hsame.2.1, history_offer]
    exact (History.headSent_cons fun _ _ heq => by cases heq).trans ht.head
  case waiting =>
    rw [hsame.1, hsame.2.1]
    exact ht.waiting
  case running =>
    rw [hsame.1, hsame.2.1]
    exact ht.running
  case done =>
    rw [hsame.1, hs]
    exact fun h => StreamState.noConfusion h
  case finished =>
    rw [hcontinues.id, history_offer]
    intro e he hf
    rcases List.mem_cons.1 he with rfl | he
    · rw [unsent_offer hf.2.2]
      exact List.isEmpty_iff.1 hf.2.1
    · exact absurd (ht.finished e he hf) hu
  case heads =>
    rw [hcontinues.id, hcontinues.request, history_offer]
    intro fields last ret hm
    rcases List.mem_cons.1 hm with heq | hm
    · exact nomatch heq
    · exact ht.heads fields last ret hm

theorem Beat.sending (h : Beat t t') (ht : t.Sending) : t'.Sending := by
  cases h with
  | spare h => exact h.sending ht
  | pending hs => exact sending_pending hs ht
  | refused url hs hret => exact sending_refused hret ht
  | taken url hs hret => exact sending_taken hret ht
  | piece hs hu hw hr => exact sending_piece hs hu ht
  | complete hs hu => exact sending_complete hs hu ht

theorem Beats.sending (h : Beats t t') (ht : t.Sending) : t'.Sending := by
  induction h with
  | refl => exact ht
  | tail _ hbeat ih => exact hbeat.sending ih

theorem Beat.same (h : Beat t t') : t'.stream.id = t.stream.id ∧ t'.stream.request = t.stream.request := by
  cases h with
  | spare h => exact ⟨h.id, h.request⟩
  | pending | refused | taken | complete => exact ⟨rfl, rfl⟩
  | piece => exact ⟨(continues_offer t).id, (continues_offer t).request⟩

theorem Beats.same (h : Beats t t') : t'.stream.id = t.stream.id ∧ t'.stream.request = t.stream.request := by
  induction h with
  | refl => exact ⟨rfl, rfl⟩
  | tail _ hbeat ih => exact ⟨hbeat.same.1.trans ih.1, hbeat.same.2.trans ih.2⟩

/-! Every piece on record was offered somewhere on the way. -/

structure Offers (t : Turn κ) (bytes : Bytes) (last : Bool) (ret : Int32) : Prop where
  running : t.stream.state = .opened
  nonempty : bytes ≠ []
  window : (bytes.length : Int) ≤ (Codec.window t.codec t.stream.id).toInt
  frame : bytes.length ≤ (Codec.maxFrame t.codec).toNat
  ends : last = true ↔ t.history.sent t.stream.id ++ bytes = t.stream.request.body
  answer : ret = (Codec.sendData t.codec t.stream.id bytes last).1
  unfinished : ∀ e ∈ t.history, ¬e.Finishes t.stream.id

theorem offers_nextPiece (hs : t.stream.state = .opened) (hu : t.stream.unsent ≠ [])
    (hw : 0 < (Codec.window t.codec t.stream.id).toInt) (hr : t.room ≠ 0) (ht : t.Sending) :
    t.Offers t.nextPiece.1 t.nextPiece.2 t.offer.1 where
  running := hs
  nonempty := by
    rw [nextPiece, Ne, List.take_eq_nil_iff]
    exact not_or.2 ⟨hr, hu⟩
  window := by
    have hlength : t.nextPiece.1.length ≤ t.room := List.length_take_le _ _
    have hroom : t.room ≤ (Codec.window t.codec t.stream.id).toInt.toNat := Nat.min_le_left _ _
    omega
  frame := Nat.le_trans (List.length_take_le _ _) (Nat.min_le_right _ _)
  ends := by
    rw [nextPiece, List.isEmpty_iff, List.drop_eq_nil_iff, ← ht.whole, List.append_cancel_left_eq]
    exact (List.take_eq_self_iff _).symm
  answer := rfl
  unfinished := fun e he hf => hu (ht.finished e he hf)

/-- What an exchange did on its way: a piece on its record was offered at a turn that it went through. -/
def Offered (t₀ t : Turn κ) : Prop :=
  ∀ later earlier bytes last ret, t.history = later ++ .call (.data t₀.stream.id bytes last ret) :: earlier →
    ∃ u, Beats t₀ u ∧ u.Offers bytes last ret ∧ u.history = earlier ∧ Beats u.offer.2 t

theorem offered_unstarted (h : Unstarted t) : Offered t t := by
  intro later earlier bytes last ret hsplit
  refine absurd ?_ (h.silent (.call (.data t.stream.id bytes last ret)) (by simp [hsplit]))
  rfl

theorem Offered.beat (h : Offered t₀ t) (hbeat : Beat t t')
    (hh : t.history.Extends (fun e => e.isPiece t₀.stream.id = false) t'.history) : Offered t₀ t' := by
  intro later earlier bytes last ret hsplit
  have hpiece : ¬(Entry.call (.data t₀.stream.id bytes last ret)).isPiece t₀.stream.id = false :=
    by simp [Entry.isPiece]
  obtain ⟨later', hold⟩ := hh.split hpiece hsplit
  obtain ⟨u, hbefore, hoffers, hhistory, hafter⟩ := h later' earlier bytes last ret hold
  exact ⟨u, hbefore, hoffers, hhistory, hafter.tail hbeat⟩

theorem Offered.piece (h : Offered t₀ t) (hbefore : Beats t₀ t) (hs : t.stream.state = .opened)
    (hu : t.stream.unsent ≠ []) (hw : 0 < (Codec.window t.codec t.stream.id).toInt) (hr : t.room ≠ 0)
    (ht : t.Sending) : Offered t₀ t.offer.2 := by
  intro later earlier bytes last ret hsplit
  rw [history_offer] at hsplit
  cases later with
  | nil =>
    obtain ⟨heq, rfl⟩ := List.cons.inj hsplit
    injection heq with heq
    injection heq with _ hbytes hlast hret
    refine ⟨t, hbefore, ?_, rfl, .refl⟩
    rw [← hbytes, ← hlast, ← hret]
    exact offers_nextPiece hs hu hw hr ht
  | cons e later =>
    obtain ⟨u, hfirst, hoffers, hhistory, hafter⟩ := h later earlier bytes last ret (List.cons.inj hsplit).2
    exact ⟨u, hfirst, hoffers, hhistory, hafter.tail (.piece hs hu hw hr)⟩

theorem Beats.offered (h₀ : Unstarted t₀) (h : Beats t₀ t) : Offered t₀ t := by
  induction h with
  | refl => exact offered_unstarted h₀
  | @tail t t' hbefore hbeat ih =>
    cases hbeat with
    | spare hspares =>
      refine ih.beat (.spare hspares) (hspares.history.imp fun e he => ?_)
      rw [← (Beats.same hbefore).1]
      exact Entry.isPiece_of_not_sends he
    | pending hs => exact ih.beat (.pending hs) .refl
    | complete hs hu => exact ih.beat (.complete hs hu) .refl
    | refused url hs hret => exact ih.beat (.refused url hs hret) (.cons rfl .refl)
    | taken url hs hret => exact ih.beat (.taken url hs hret) (.cons rfl .refl)
    | piece hs hu hw hr => exact ih.piece hbefore hs hu hw hr (Beats.sending hbefore h₀.sending)

/-! Every turn stops where it may. -/

theorem state_resetAndClose (t : Turn κ) (code : ErrorCode) (reason : CloseReason) :
    (t.resetAndClose m code reason).stream.state = .closed :=
  state_close _ _ _ _

theorem rests_sendBody (m : Metadata) (t : Turn κ) : (t.sendBody m).Rests := by
  fun_induction sendBody m t with
  | case1 t hu hs => exact rests_of_state rfl StreamState.noConfusion
  | case2 t hu hs => exact fun h => absurd h hs
  | case3 t hu hw => exact fun _ => hu
  | case4 t hu hw hr => exact fun _ => hu
  | case5 t hu hw hr o ho ih => exact ih
  | case6 t hu hw hr o ho => exact rests_of_state (state_resetAndClose _ _ _) StreamState.noConfusion

theorem rests_start (m : Metadata) (url : Url) (t : Turn κ) : (t.start m url).Rests := by
  by_cases hret : (t.headAnswer url).1 = 0
  · obtain ⟨message, hstart⟩ := start_of_taken (m := m) hret
    rw [hstart]
    split
    · rename_i hbody
      exact rests_of_state (if_pos hbody) StreamState.noConfusion
    · exact rests_sendBody m _
  · obtain ⟨message, hstart⟩ := start_of_refused (m := m) hret
    rw [hstart]
    exact rests_of_state (state_close _ _ _ _) StreamState.noConfusion

theorem rests_perform (m : Metadata) (op : Operation) (ht : t.Rests) : (t.perform m op).Rests := by
  cases op with
  | markPending =>
    unfold perform markPending
    dsimp only
    split
    · exact rests_of_state rfl StreamState.noConfusion
    · exact (spares_note t _ _).rests ht
  | initiate =>
    by_cases hs : t.stream.state = .pending
    · rcases initiate_eq (m := m) hs with ⟨message, h⟩ | ⟨url, h⟩
      · rw [perform, h]
        exact rests_of_state (state_close _ _ _ _) StreamState.noConfusion
      · rw [perform, h]
        exact rests_start m url t
    · rw [perform, initiate, if_pos hs]
      exact (spares_note t _ _).rests ht
  | receiveHeaders fields => exact (steps_receiveHeaders t fields).spares.rests ht
  | receiveData data flowLength => exact (steps_receiveData t data flowLength).spares.rests ht
  | receiveWindowUpdate =>
    unfold perform receiveWindowUpdate
    dsimp only
    split
    · exact rests_sendBody m t
    · exact ht
  | close reason causes announce => exact (spares_close t reason causes announce).rests ht

theorem Life.rests (h₀ : Unstarted t₀) (h : Life t₀ t) : t.Rests := by
  induction h with
  | refl =>
    obtain ⟨id, ticket, request, m, hmade⟩ := h₀.made
    exact rests_of_state (congrArg Stream.state hmade) StreamState.noConfusion
  | tail _ hhappens ih =>
    cases hhappens with
    | perform m op => exact rests_perform m op ih
    | elsewhere => exact ih

/-! How often a piece is offered. -/

def rounds (t : Turn κ) : Nat := t.history.countP (Entry.isPiece t.stream.id)

omit [Codec κ] in
theorem Spares.rounds (h : Spares t t') : t'.rounds = t.rounds := by
  obtain ⟨new, hnew, hsends⟩ := h.history
  unfold Turn.rounds
  rw [h.id, hnew, List.countP_append, List.countP_eq_zero.2, Nat.zero_add]
  intro e he
  rw [Entry.isPiece_of_not_sends (hsends e he)]
  exact Bool.false_ne_true

theorem rounds_offer (t : Turn κ) : t.offer.2.rounds = t.rounds + 1 := by
  unfold rounds
  rw [(continues_offer t).id, history_offer, List.countP_cons_of_pos]
  simp [Entry.isPiece]

/-- Each round of the loop but the last takes at least a byte off the body. -/
theorem rounds_sendBody (m : Metadata) (t : Turn κ) : (t.sendBody m).rounds ≤ t.rounds + t.stream.unsent.length := by
  fun_induction sendBody m t with
  | case1 t hu hs => exact Nat.le_add_right _ _
  | case2 t hu hs => exact Nat.le_add_right _ _
  | case3 t hu hw =>
    rw [(spares_note t _ _).rounds]
    exact Nat.le_add_right _ _
  | case4 t hu hw hr => exact Nat.le_add_right _ _
  | case5 t hu hw hr o ho ih =>
    have hlength : 0 < t.stream.unsent.length := List.length_pos_iff.2 hu
    -- There is room, so the piece that is dropped is not empty.
    have hdrop : o.2.stream.unsent.length = t.stream.unsent.length - t.room := by
      rw [unsent_offer ho, List.length_drop]
    have hoffer : o.2.rounds = t.rounds + 1 := rounds_offer t
    omega
  | case6 t hu hw hr o ho =>
    have hlength : 0 < t.stream.unsent.length := List.length_pos_iff.2 hu
    have hoffer : o.2.rounds = t.rounds + 1 := rounds_offer t
    have hreset : ∀ message, ((o.2.note .error message).resetAndClose m .internalError .reset).rounds = o.2.rounds :=
      fun message => ((spares_note _ _ _).trans (spares_resetAndClose _ _ _)).rounds
    rw [hreset]
    omega

/-! The request of an exchange, whatever has happened to it. -/

structure Delivers (t₀ t : Turn κ) : Prop where
  same : t.stream.id = t₀.stream.id ∧ t.stream.request = t₀.stream.request
  sent : t.history.sent t.stream.id =
    t.stream.request.body.take (t.stream.request.body.length - t.stream.unsent.length)
  pieces : Offered t₀ t
  heads : ∀ fields last ret, .call (.headers t.stream.id fields last ret) ∈ t.history →
    (last = true ↔ t.stream.request.body = [])
  sentOff : t.stream.state ≠ .closed →
    (t.stream.state = .halfClosed ↔ t.history.HeadSent t.stream.id ∧ t.stream.unsent = [])
  running : t.stream.state ≠ .closed →
    (t.stream.state = .opened ↔ t.history.HeadSent t.stream.id ∧ t.stream.unsent ≠ [])

/-- Whatever the windows, the largest frame and the codec's answers, and whatever is asked of an exchange in which
order: it delivers its request. -/
theorem Life.delivers (h₀ : Unstarted t₀) (h : Life t₀ t) : Delivers t₀ t := by
  have hsending : t.Sending := h.beats.sending h₀.sending
  have hrests : t.Rests := h.rests h₀
  exact {
    same := h.beats.same
    sent := hsending.sent
    pieces := h.beats.offered h₀
    heads := fun fields last ret hm => by
      rw [hsending.heads fields last ret hm]
      exact List.isEmpty_iff
    sentOff := hsending.halfClosed_iff hrests
    running := hsending.opened_iff hrests }

end Turn

end Multiplex
