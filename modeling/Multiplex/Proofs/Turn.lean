import Mathlib.Logic.Relation
import Multiplex.Stream.Receive
import Multiplex.Stream.Send

/-! A turn of an exchange as a sequence of small steps. Every turn is a path of them, so what each step keeps is
kept by every turn: the identity of the exchange, the agreement of its state with the register, and whatever the
calls on the codec keep. -/
namespace Multiplex

open Bytes Wire

/-- An exchange that stands where the register says: one that waits has sent nothing, one that was admitted has
sent its head. -/
def Stream.Fits (admitted : Bool) (s : Stream) : Prop :=
  s.requestSent = admitted ∧
    match admitted with
    | false => s.state = .pending
    | true => s.state = .opened ∨ s.state = .halfClosed

theorem Stream.Fits.not_closed {admitted : Bool} {s : Stream} (h : s.Fits admitted) : s.state ≠ .closed := by
  intro hc
  cases admitted with
  | false => exact StreamState.noConfusion (hc.symm.trans h.2)
  | true => rcases h.2 with ho | ho <;> exact StreamState.noConfusion (hc.symm.trans ho)

theorem Stream.Fits.admitted_iff {admitted : Bool} {s : Stream} (h : s.Fits admitted) :
    admitted = true ↔ s.state = .opened ∨ s.state = .halfClosed := by
  cases admitted with
  | false =>
    rw [show s.state = .pending from h.2]
    decide
  | true => exact iff_of_true rfl h.2

theorem Stream.Fits.waiting_iff {admitted : Bool} {s : Stream} (h : s.Fits admitted) :
    admitted = false ↔ s.state = .pending := by
  cases admitted with
  | false => exact iff_of_true rfl h.2
  | true =>
    rcases h.2 with ho | ho
    · rw [ho]
      decide
    · rw [ho]
      decide

def Entry.OfTurn (id : UInt32) : Entry → Prop
  | .call (.headers i _ _ _) | .call (.data i _ _ _) | .call (.reset i _ _) | .call (.acknowledge i _) => i = id
  | .log l => l.source = ascii "Stream"
  | _ => False

def Entry.IsStreamLine (e : Entry) : Prop := ∃ l, e = .log l ∧ l.source = ascii "Stream"

theorem Entry.IsStreamLine.ofTurn {id : UInt32} {e : Entry} (h : e.IsStreamLine) : e.OfTurn id := by
  obtain ⟨l, rfl, hl⟩ := h
  exact hl

def History.Extends (p : Entry → Prop) (h h' : History) : Prop := ∃ new, h' = new ++ h ∧ ∀ e ∈ new, p e

namespace History.Extends

variable {p q : Entry → Prop} {h h' h'' : History}

theorem refl : Extends p h h := ⟨[], rfl, by simp⟩

theorem trans (h₁ : Extends p h h') (h₂ : Extends p h' h'') : Extends p h h'' := by
  obtain ⟨new₁, rfl, hp₁⟩ := h₁
  obtain ⟨new₂, rfl, hp₂⟩ := h₂
  refine ⟨new₂ ++ new₁, (List.append_assoc _ _ _).symm, ?_⟩
  intro e he
  rcases List.mem_append.1 he with he | he
  · exact hp₂ e he
  · exact hp₁ e he

theorem cons {e : Entry} (he : p e) (hh : Extends p h h') : Extends p h (e :: h') := by
  obtain ⟨new, rfl, hp⟩ := hh
  exact ⟨e :: new, rfl, List.forall_mem_cons.2 ⟨he, hp⟩⟩

theorem imp (hpq : ∀ e, p e → q e) (hh : Extends p h h') : Extends q h h' := by
  obtain ⟨new, rfl, hp⟩ := hh
  exact ⟨new, rfl, fun e he => hpq e (hp e he)⟩

end History.Extends

/-- A property of the codec that none of a connection's calls on it changes, receiving apart. -/
structure Codec.Keeps {κ : Type} [Wire.Codec κ] (p : κ → Prop) : Prop where
  takeOutput : ∀ c, p c → p (Wire.Codec.takeOutput c).2
  initiate : ∀ c settings, p c → p (Wire.Codec.initiate c settings)
  close : ∀ c code, p c → p (Wire.Codec.close c code)
  sendHeaders : ∀ c id fields endStream, p c → p (Wire.Codec.sendHeaders c id fields endStream).2
  sendData : ∀ c id bytes endStream, p c → p (Wire.Codec.sendData c id bytes endStream).2
  reset : ∀ c id code, p c → p (Wire.Codec.reset c id code).2
  acknowledge : ∀ c length id, p c → p (Wire.Codec.acknowledge c length id)

theorem Codec.keeps_true {κ : Type} [Wire.Codec κ] : Codec.Keeps fun _ : κ => True where
  takeOutput := fun _ h => h
  initiate := fun _ _ h => h
  close := fun _ _ h => h
  sendHeaders := fun _ _ _ _ h => h
  sendData := fun _ _ _ _ h => h
  reset := fun _ _ _ h => h
  acknowledge := fun _ _ _ h => h

namespace Turn

variable {κ : Type} [Codec κ] {m : Metadata}

inductive Direction where
  | sending
  | receiving

variable {d : Direction}

/-- One small step of a turn. Apart from the lines of a log, each needs an exchange that has not ended. That the
response is complete is not for a turn to say. -/
inductive Step (m : Metadata) : Direction → Turn κ → Turn κ → Prop
  | note {d : Direction} (t : Turn κ) (level : Log.Level) (message : Bytes) : Step m d t (t.note level message)
  | piece {t : Turn κ} (hs : t.stream.state = .opened) (hu : t.stream.unsent ≠ [])
      (hw : 0 < (Codec.window t.codec t.stream.id).toInt) (hr : t.room ≠ 0) : Step m .sending t t.offer.2
  | complete {t : Turn κ} (hs : t.stream.state = .opened) (hu : t.stream.unsent = []) :
      Step m .sending t { t with stream.state := .halfClosed }
  | absorb {t : Turn κ} (field : Bytes × Bytes) (hs : t.stream.state ≠ .closed) :
      Step m .receiving t (t.absorb field)
  | headReceived {t : Turn κ} (hs : t.stream.state ≠ .closed) :
      Step m .receiving t { t with stream.headersReceived := true }
  | expect {t : Turn κ} (size : Nat) (hs : t.stream.state ≠ .closed) :
      Step m .receiving t { t with stream.expectedSize := some size }
  | warned {t : Turn κ} (hs : t.stream.state ≠ .closed) : Step m .receiving t { t with stream.warned := true }
  | append {t : Turn κ} (data : Bytes) (hs : t.stream.state ≠ .closed) :
      Step m .receiving t { t with stream.response := t.stream.response.appendBody data }
  | acknowledge {t : Turn κ} (length : Nat) (hs : t.stream.state ≠ .closed) :
      Step m .receiving t (t.record (Codec.acknowledge t.codec length t.stream.id) (.acknowledge t.stream.id length))
  | reset {d : Direction} {t : Turn κ} (code : ErrorCode) (hs : t.stream.state ≠ .closed) :
      Step m d t (t.record (Codec.reset t.codec t.stream.id code).2
        (.reset t.stream.id code (Codec.reset t.codec t.stream.id code).1))
  | close {d : Direction} {t : Turn κ} {reason : CloseReason} (causes : List Fault) (hr : reason ≠ .ended)
      (hs : t.stream.state ≠ .closed) : Step m d t (t.close m reason causes true)

abbrev Steps (m : Metadata) (d : Direction) : Turn κ → Turn κ → Prop := Relation.ReflTransGen (Step m d)

theorem Steps.note (t : Turn κ) (level : Log.Level) (message : Bytes) : Steps m d t (t.note level message) :=
  .single (.note t level message)

/-! What the functions of a turn do, step by step. -/

theorem steps_resetAndClose {t : Turn κ} (code : ErrorCode) {reason : CloseReason} (hr : reason ≠ .ended)
    (hs : t.stream.state ≠ .closed) : Steps m d t (t.resetAndClose m code reason) := by
  unfold resetAndClose
  have hreset : Steps m d t _ := .single (.reset code hs)
  dsimp only
  split
  · exact hreset.tail (.close [] hr hs)
  · exact (hreset.tail (.note _ .warn _)).tail (.close [] hr hs)

/-! Steps after which the exchange stands where it stood. -/

theorem same_offer (t : Turn κ) : t.offer.2.stream.state = t.stream.state ∧
    t.offer.2.stream.requestSent = t.stream.requestSent ∧ t.offer.2.ending = t.ending := by
  unfold offer
  dsimp only
  split <;> exact ⟨rfl, rfl, rfl⟩

omit [Codec κ] in
theorem same_absorb (t : Turn κ) (field : Bytes × Bytes) : (t.absorb field).stream.state = t.stream.state ∧
    (t.absorb field).stream.requestSent = t.stream.requestSent ∧ (t.absorb field).ending = t.ending := by
  unfold absorb
  split
  · split <;> exact ⟨rfl, rfl, rfl⟩
  · split <;> exact ⟨rfl, rfl, rfl⟩

omit [Codec κ] in
theorem codec_absorb (t : Turn κ) (field : Bytes × Bytes) : (t.absorb field).codec = t.codec := by
  unfold absorb
  split
  · split <;> rfl
  · split <;> rfl

omit [Codec κ] in
theorem extends_absorb (t : Turn κ) (field : Bytes × Bytes) :
    t.history.Extends Entry.IsStreamLine (t.absorb field).history := by
  unfold absorb
  split
  · split
    · exact .refl
    · exact .cons ⟨_, rfl, rfl⟩ .refl
  · split <;> exact .refl

omit [Codec κ] in
theorem extends_foldl_absorb (fields : Headers) (t : Turn κ) :
    t.history.Extends Entry.IsStreamLine (fields.foldl absorb t).history := by
  induction fields generalizing t with
  | nil => exact .refl
  | cons field rest ih => exact (extends_absorb t field).trans (ih (t.absorb field))

theorem steps_sendBody {t : Turn κ} (hs : t.stream.state = .opened) : Steps m .sending t (t.sendBody m) := by
  fun_induction sendBody m t with
  | case1 t hu _ => exact .single (.complete hs hu)
  | case2 t hu hne => exact absurd hs hne
  | case3 t hu hw => exact Steps.note t _ _
  | case4 t hu hw hr => exact .refl
  | case5 t hu hw hr o ho ih =>
    have hpiece : Steps m .sending t o.2 := .single (.piece hs hu (Int.not_le.1 hw) hr)
    exact hpiece.trans (ih ((same_offer t).1.trans hs))
  | case6 t hu hw hr o ho =>
    have hpiece : Steps m .sending t o.2 := .single (.piece hs hu (Int.not_le.1 hw) hr)
    have hopen : o.2.stream.state ≠ .closed := by
      rw [show o.2.stream.state = .opened from (same_offer t).1.trans hs]
      exact StreamState.noConfusion
    exact (hpiece.tail (.note _ .error _)).trans (steps_resetAndClose _ CloseReason.noConfusion hopen)

theorem steps_receiveWindowUpdate (t : Turn κ) : Steps m .sending t (t.receiveWindowUpdate m) := by
  unfold receiveWindowUpdate
  split
  · rename_i h
    exact steps_sendBody h.1
  · exact .refl

theorem steps_checkSize {t : Turn κ} (size : Nat) (hs : t.stream.state ≠ .closed) :
    Steps m .receiving t (t.checkSize m size) := by
  unfold checkSize
  split
  · exact (Steps.note t _ _).trans (steps_resetAndClose _ CloseReason.noConfusion hs)
  · split
    · exact (Relation.ReflTransGen.single (.warned hs)).tail (.note _ _ _)
    · exact .refl

theorem steps_absorb {t : Turn κ} (fields : Headers) (hs : t.stream.state ≠ .closed) :
    Steps m .receiving t (fields.foldl absorb t) ∧ (fields.foldl absorb t).stream.state ≠ .closed := by
  induction fields generalizing t with
  | nil => exact ⟨.refl, hs⟩
  | cons field rest ih =>
    have hnext : (t.absorb field).stream.state ≠ .closed := by rwa [(same_absorb t field).1]
    obtain ⟨hsteps, hstate⟩ := ih hnext
    exact ⟨hsteps.head (.absorb field hs), hstate⟩

theorem steps_receiveHeaders (t : Turn κ) (fields : Headers) :
    Steps m .receiving t (t.receiveHeaders m fields) := by
  unfold receiveHeaders
  split
  · exact Steps.note t _ _
  · rename_i hs
    obtain ⟨hsteps, hstate⟩ := steps_absorb (m := m) fields hs
    have hhead := hsteps.tail (.headReceived hstate)
    dsimp only
    split
    · exact (hhead.tail (.expect _ hstate)).trans (steps_checkSize _ hstate)
    · exact hhead

private theorem steps_takeData {t : Turn κ} (data : Bytes) (length size : Nat) (hs : t.stream.state ≠ .closed) :
    Steps m .receiving t (({ t with stream.response := t.stream.response.appendBody data } : Turn κ).record
      (Codec.acknowledge t.codec length t.stream.id) (.acknowledge t.stream.id length) |>.checkSize m size) := by
  have happend : Steps m .receiving t { t with stream.response := t.stream.response.appendBody data } :=
    .single (.append data hs)
  exact (happend.tail (.acknowledge length hs)).trans (steps_checkSize size hs)

theorem steps_receiveData (t : Turn κ) (data : Bytes) (length : Nat) :
    Steps m .receiving t (t.receiveData m data length) := by
  unfold receiveData
  split
  · exact Steps.note t _ _
  · rename_i hs
    dsimp only
    split
    · exact (Steps.note t .warn _).trans (steps_takeData data length _ hs)
    · exact steps_takeData data length _ hs

def headAnswer (url : Url) (t : Turn κ) : Int32 × κ :=
  Codec.sendHeaders t.codec t.stream.id (t.stream.requestFields url) t.stream.request.body.isEmpty

def offerHead (url : Url) (t : Turn κ) : Turn κ :=
  t.record (t.headAnswer url).2
    (.headers t.stream.id (t.stream.requestFields url) t.stream.request.body.isEmpty (t.headAnswer url).1)

def headTaken (url : Url) (t : Turn κ) : Turn κ :=
  { t.offerHead url with
    stream.requestSent := true
    stream.state := if t.stream.request.body.isEmpty then .halfClosed else .opened }

theorem start_of_refused {t : Turn κ} {url : Url} (h : (t.headAnswer url).1 ≠ 0) :
    ∃ message, t.start m url = ((t.offerHead url).note .error message).close m .reset
      [.plain .protocolStreamError "Failed to send request headers"] true :=
  ⟨_, if_neg h⟩

theorem start_of_taken {t : Turn κ} {url : Url} (h : (t.headAnswer url).1 = 0) :
    ∃ message, t.start m url = if t.stream.request.body.isEmpty then (t.headTaken url).note .debug message
      else ((t.headTaken url).note .debug message).sendBody m :=
  ⟨_, if_pos h⟩

theorem steps_start {t : Turn κ} {url : Url} (h : (t.headAnswer url).1 = 0) :
    Steps m .sending (t.headTaken url) (t.start m url) := by
  obtain ⟨message, hstart⟩ := start_of_taken (m := m) h
  have hsent : Steps m .sending (t.headTaken url) ((t.headTaken url).note .debug message) := Steps.note _ _ _
  rw [hstart]
  split
  · exact hsent
  · rename_i hbody
    have hopen : ((t.headTaken url).note .debug message).stream.state = .opened := if_neg hbody
    exact hsent.trans (steps_sendBody hopen)

theorem initiate_eq {t : Turn κ} (hs : t.stream.state = .pending) :
    (∃ message, t.initiate m = (t.note .warn message).close m .invalidHostname [] true) ∨
      ∃ url, t.initiate m = t.start m url := by
  unfold initiate
  rw [if_neg fun h => h hs]
  split
  · exact Or.inr ⟨_, rfl⟩
  · exact Or.inl ⟨_, rfl⟩

theorem initiate_cases {t : Turn κ} (hs : t.stream.state = .pending) :
    (∃ message, t.initiate m = (t.note .warn message).close m .invalidHostname [] true) ∨
    (∃ url message, (t.headAnswer url).1 ≠ 0 ∧
      t.initiate m = ((t.offerHead url).note .error message).close m .reset
        [.plain .protocolStreamError "Failed to send request headers"] true) ∨
    ∃ url, (t.headAnswer url).1 = 0 ∧ Steps m .sending (t.headTaken url) (t.initiate m) := by
  rcases initiate_eq (m := m) hs with hstray | ⟨url, hstart⟩
  · exact Or.inl hstray
  · rw [hstart]
    by_cases h : (t.headAnswer url).1 = 0
    · exact Or.inr (Or.inr ⟨url, h, steps_start h⟩)
    · obtain ⟨message, hrefused⟩ := start_of_refused (m := m) h
      exact Or.inr (Or.inl ⟨url, message, h, hrefused⟩)

/-! What closing does. -/

section Close

variable {t : Turn κ} {reason : CloseReason} {causes : List Fault} {announce : Bool}

omit [Codec κ]

theorem stream_close (hs : t.stream.state ≠ .closed) :
    (t.close m reason causes announce).stream = { t.stream with state := .closed, closeReason := reason } := by
  unfold close
  rw [if_neg hs]
  dsimp only
  split <;> rfl

theorem codec_close (t : Turn κ) (reason : CloseReason) (causes : List Fault) (announce : Bool) :
    (t.close m reason causes announce).codec = t.codec := by
  unfold close
  split
  · rfl
  · dsimp only
    split <;> rfl

theorem ending_close (hs : t.stream.state ≠ .closed) (reason : CloseReason) (causes : List Fault)
    (announce : Bool) :
    (t.close m reason causes announce).ending = some ⟨t.stream.outcome m reason causes, announce⟩ := by
  unfold close
  rw [if_neg hs]
  dsimp only
  split <;> rfl

theorem extends_close (t : Turn κ) (reason : CloseReason) (causes : List Fault) (announce : Bool) :
    t.history.Extends Entry.IsStreamLine (t.close m reason causes announce).history := by
  unfold close
  split
  · exact .cons ⟨_, rfl, rfl⟩ .refl
  · dsimp only
    split
    · exact .cons ⟨_, rfl, rfl⟩ (.cons ⟨_, rfl, rfl⟩ .refl)
    · exact .cons ⟨_, rfl, rfl⟩ .refl

end Close

/-! What every step keeps. -/

structure Continues (t t' : Turn κ) : Prop where
  id : t'.stream.id = t.stream.id
  ticket : t'.stream.ticket = t.stream.ticket
  request : t'.stream.request = t.stream.request
  history : t.history.Extends (Entry.OfTurn t.stream.id) t'.history

omit [Codec κ] in
theorem Continues.refl (t : Turn κ) : Continues t t := ⟨rfl, rfl, rfl, .refl⟩

omit [Codec κ] in
theorem Continues.trans {t t' t'' : Turn κ} (h : Continues t t') (h' : Continues t' t'') : Continues t t'' where
  id := h'.id.trans h.id
  ticket := h'.ticket.trans h.ticket
  request := h'.request.trans h.request
  history := h.history.trans (h.id ▸ h'.history)

omit [Codec κ] in
theorem continues_note (t : Turn κ) (level : Log.Level) (message : Bytes) : Continues t (t.note level message) :=
  ⟨rfl, rfl, rfl, .cons rfl .refl⟩

theorem continues_offerHead (t : Turn κ) (url : Url) : Continues t (t.offerHead url) :=
  ⟨rfl, rfl, rfl, .cons rfl .refl⟩

theorem continues_headTaken (t : Turn κ) (url : Url) : Continues t (t.headTaken url) :=
  ⟨rfl, rfl, rfl, .cons rfl .refl⟩

theorem continues_offer (t : Turn κ) : Continues t t.offer.2 := by
  unfold offer
  dsimp only
  split
  · exact ⟨rfl, rfl, rfl, .cons rfl .refl⟩
  · exact ⟨rfl, rfl, rfl, .cons rfl .refl⟩

omit [Codec κ] in
theorem continues_absorb (t : Turn κ) (field : Bytes × Bytes) : Continues t (t.absorb field) := by
  unfold absorb
  split
  · split
    · exact ⟨rfl, rfl, rfl, .refl⟩
    · exact ⟨rfl, rfl, rfl, .cons rfl .refl⟩
  · split
    · exact .refl t
    · exact ⟨rfl, rfl, rfl, .refl⟩

omit [Codec κ] in
theorem continues_close {t : Turn κ} (reason : CloseReason) (causes : List Fault) (announce : Bool)
    (hs : t.stream.state ≠ .closed) : Continues t (t.close m reason causes announce) := by
  refine ⟨?_, ?_, ?_, (extends_close t reason causes announce).imp fun _ => Entry.IsStreamLine.ofTurn⟩
  all_goals rw [stream_close hs]

theorem Step.continues {t t' : Turn κ} (h : Step m d t t') : Continues t t' := by
  cases h with
  | note t level message => exact continues_note t level message
  | piece => exact continues_offer t
  | complete => exact ⟨rfl, rfl, rfl, .refl⟩
  | absorb field => exact continues_absorb t field
  | headReceived => exact ⟨rfl, rfl, rfl, .refl⟩
  | expect => exact ⟨rfl, rfl, rfl, .refl⟩
  | warned => exact ⟨rfl, rfl, rfl, .refl⟩
  | append => exact ⟨rfl, rfl, rfl, .refl⟩
  | acknowledge => exact ⟨rfl, rfl, rfl, .cons rfl .refl⟩
  | reset => exact ⟨rfl, rfl, rfl, .cons rfl .refl⟩
  | close causes hr hs => exact continues_close _ causes true hs

theorem Steps.continues {t t' : Turn κ} (h : Steps m d t t') : Continues t t' := by
  induction h with
  | refl => exact .refl t
  | tail _ hstep ih => exact ih.trans hstep.continues

/-- A turn leaves an exchange that fits the register, or one that has ended and says so. -/
def Sound (admitted : Bool) (t : Turn κ) : Prop :=
  match t.ending with
  | none => t.stream.Fits admitted
  | some e => t.stream.state = .closed ∧ e.announce = true

omit [Codec κ] in
theorem Sound.fits {admitted : Bool} {t : Turn κ} (h : t.Sound admitted) (hs : t.stream.state ≠ .closed) :
    t.ending = none ∧ t.stream.Fits admitted := by
  unfold Sound at h
  split at h
  · rename_i hnone
    exact ⟨hnone, h⟩
  · exact absurd h.1 hs

omit [Codec κ] in
theorem sound_of_fits {admitted : Bool} {t : Turn κ} (he : t.ending = none) (hf : t.stream.Fits admitted) :
    t.Sound admitted := by
  unfold Sound
  rwa [he]

omit [Codec κ] in
theorem sound_close {t : Turn κ} (admitted : Bool) (reason : CloseReason) (causes : List Fault)
    (hs : t.stream.state ≠ .closed) : (t.close m reason causes true).Sound admitted := by
  unfold Sound
  rw [ending_close hs, stream_close hs]
  exact ⟨rfl, rfl⟩

omit [Codec κ] in
theorem Sound.of_same {admitted : Bool} {t t' : Turn κ} (h : t.Sound admitted)
    (hsame : t'.stream.state = t.stream.state ∧ t'.stream.requestSent = t.stream.requestSent ∧
      t'.ending = t.ending) : t'.Sound admitted := by
  obtain ⟨hstate, hsent, hending⟩ := hsame
  unfold Sound Stream.Fits at h ⊢
  rwa [hending, hstate, hsent]

theorem Step.sound {admitted : Bool} {t t' : Turn κ} (h : Step m d t t') (ht : t.Sound admitted) :
    t'.Sound admitted := by
  cases h with
  | note => exact ht.of_same ⟨rfl, rfl, rfl⟩
  | piece => exact ht.of_same (same_offer t)
  | complete hs hu =>
    obtain ⟨he, hf⟩ := ht.fits (by rw [hs]; exact StreamState.noConfusion)
    refine sound_of_fits he ⟨hf.1, ?_⟩
    cases admitted with
    | false => exact StreamState.noConfusion (hs.symm.trans hf.2)
    | true => exact Or.inr rfl
  | absorb field => exact ht.of_same (same_absorb t field)
  | headReceived => exact ht.of_same ⟨rfl, rfl, rfl⟩
  | expect => exact ht.of_same ⟨rfl, rfl, rfl⟩
  | warned => exact ht.of_same ⟨rfl, rfl, rfl⟩
  | append => exact ht.of_same ⟨rfl, rfl, rfl⟩
  | acknowledge => exact ht.of_same ⟨rfl, rfl, rfl⟩
  | reset => exact ht.of_same ⟨rfl, rfl, rfl⟩
  | close causes hr hs => exact sound_close admitted _ causes hs

theorem Steps.sound {admitted : Bool} {t t' : Turn κ} (h : Steps m d t t') (ht : t.Sound admitted) :
    t'.Sound admitted := by
  induction h with
  | refl => exact ht
  | tail _ hstep ih => exact hstep.sound ih

theorem Step.keeps {p : κ → Prop} (hp : Codec.Keeps p) {t t' : Turn κ} (h : Step m d t t') (ht : p t.codec) :
    p t'.codec := by
  cases h with
  | note => exact ht
  | piece =>
    unfold offer
    dsimp only
    split <;> exact hp.sendData _ _ _ _ ht
  | complete => exact ht
  | absorb field =>
    rw [codec_absorb]
    exact ht
  | headReceived => exact ht
  | expect => exact ht
  | warned => exact ht
  | append => exact ht
  | acknowledge => exact hp.acknowledge _ _ _ ht
  | reset => exact hp.reset _ _ _ ht
  | close =>
    rw [codec_close]
    exact ht

theorem Steps.keeps {p : κ → Prop} (hp : Codec.Keeps p) {t t' : Turn κ} (h : Steps m d t t') (ht : p t.codec) :
    p t'.codec := by
  induction h with
  | refl => exact ht
  | tail _ hstep ih => exact hstep.keeps hp ih

/-! The same for the start of an exchange, which is the one turn that changes what the exchange fits. -/

theorem continues_initiate {t : Turn κ} (hs : t.stream.state = .pending) : Continues t (t.initiate m) := by
  have hopen : t.stream.state ≠ .closed := by
    rw [hs]
    exact StreamState.noConfusion
  rcases initiate_cases (m := m) hs with ⟨message, h⟩ | ⟨url, message, -, h⟩ | ⟨url, -, h⟩
  · rw [h]
    exact (continues_note t _ _).trans (continues_close _ _ _ hopen)
  · rw [h]
    exact ((continues_offerHead t url).trans (continues_note _ _ _)).trans (continues_close _ _ _ hopen)
  · exact (continues_headTaken t url).trans h.continues

theorem continues_attempt (m : Metadata) (t : Turn κ) : Continues t (t.initiate m) := by
  by_cases hs : t.stream.state = .pending
  · exact continues_initiate hs
  · rw [show t.initiate m = t.warnStray _ from if_pos hs]
    exact continues_note _ _ _

theorem sound_initiate {t : Turn κ} (he : t.ending = none) (hf : t.stream.Fits false) :
    (t.initiate m).Sound true := by
  have hopen : t.stream.state ≠ .closed := hf.not_closed
  rcases initiate_cases (m := m) hf.2 with ⟨message, h⟩ | ⟨url, message, -, h⟩ | ⟨url, -, h⟩
  · rw [h]
    exact sound_close true _ _ hopen
  · rw [h]
    exact sound_close true _ _ hopen
  · refine h.sound (sound_of_fits he ⟨rfl, ?_⟩)
    by_cases hbody : t.stream.request.body.isEmpty
    · exact Or.inr (if_pos hbody)
    · exact Or.inl (if_neg hbody)

theorem keeps_initiate {p : κ → Prop} (hp : Codec.Keeps p) {t : Turn κ} (hs : t.stream.state = .pending)
    (ht : p t.codec) : p (t.initiate m).codec := by
  have hhead : ∀ url, p (t.offerHead url).codec := fun url => hp.sendHeaders _ _ _ _ ht
  rcases initiate_cases (m := m) hs with ⟨message, h⟩ | ⟨url, message, -, h⟩ | ⟨url, -, h⟩
  · rw [h, codec_close]
    exact ht
  · rw [h, codec_close]
    exact hhead url
  · exact h.keeps hp (hhead url)

end Turn

end Multiplex
