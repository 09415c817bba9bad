import Multiplex.Proofs.Change
import Multiplex.Proofs.Lifecycle

/-! How an exchange is aborted. The peer resets it, or the codec refuses the head of its request or a piece of the body.
What happened is on record, with nothing but lines of the log behind it, when the caller is told. -/
namespace Multiplex

open Bytes Wire

def Entry.IsLine (e : Entry) : Prop := ∃ l, e = .log l

theorem Entry.IsStreamLine.isLine {e : Entry} (h : e.IsStreamLine) : e.IsLine := by
  obtain ⟨l, rfl, -⟩ := h
  exact ⟨l, rfl⟩

theorem Entry.IsLine.clerical {e : Entry} (h : e.IsLine) : e.Clerical := by
  obtain ⟨l, rfl⟩ := h
  trivial

/-- What is on record of an exchange that was aborted, and the causes that its caller is told. For a piece of the body
that was refused there are none. -/
inductive History.Aborts (id : UInt32) : List Fault → History → Prop
  | peer (code : ErrorCode) {earlier h : History}
      (hl : Extends Entry.IsLine (.dispatched ⟨id, .reset code⟩ :: earlier) h) :
      Aborts id [⟨.streamReset, ascii "Stream reset with " ++ code.text⟩] h
  | head (fields : Headers) (last : Bool) (ret : Int32) {earlier h : History} (hret : ret ≠ 0)
      (hl : Extends Entry.IsLine (.call (.headers id fields last ret) :: earlier) h) :
      Aborts id [.plain .protocolStreamError "Failed to send request headers"] h
  | piece (bytes : Bytes) (last : Bool) (ret answer : Int32) {earlier between h : History} (hret : ret ≠ 0)
      (hb : Extends Entry.IsLine (.call (.data id bytes last ret) :: earlier) between)
      (hl : Extends Entry.IsLine (.call (.reset id .internalError answer) :: between) h) : Aborts id [] h

theorem History.Aborts.extend {id : UInt32} {causes : List Fault} {h h' : History} (ha : h.Aborts id causes)
    (hh : h.Extends Entry.IsLine h') : h'.Aborts id causes := by
  cases ha with
  | peer code hl => exact .peer code (hl.trans hh)
  | head fields last ret hret hl => exact .head fields last ret hret (hl.trans hh)
  | piece bytes last ret answer hret hb hl => exact .piece bytes last ret answer hret hb (hl.trans hh)

def History.Explains (id : UInt32) (ticket : Ticket) (outcome : Outcome) (h : History) : Prop :=
  ∃ later earlier : History, h = later ++ .settled ticket outcome :: earlier ∧ earlier.Aborts id outcome.causes

theorem History.Explains.refused {id : UInt32} {ticket : Ticket} {outcome : Outcome} {h : History}
    (he : h.Explains id ticket outcome) (hnone : outcome.causes = []) :
    ∃ bytes last ret, ret ≠ 0 ∧ .call (.data id bytes last ret) ∈ h := by
  obtain ⟨later, earlier, rfl, haborts⟩ := he
  rw [hnone] at haborts
  cases haborts with
  | piece bytes last ret answer hret hb hl =>
    obtain ⟨lines, rfl, -⟩ := hl
    obtain ⟨before, rfl, -⟩ := hb
    exact ⟨bytes, last, ret, hret, by simp⟩

namespace Turn

variable {κ : Type} {m : Metadata} {t : Turn κ}

/-- If a turn ends the exchange, the connection is to hear of it, and if it aborts the exchange, the reason is on
record. -/
def Accounts (t : Turn κ) : Prop :=
  ∀ e, t.ending = some e → t.stream.state = .closed ∧ e.announce = true ∧ e.outcome.reason ≠ .ended ∧
    (e.outcome.reason = .reset → t.history.Aborts t.stream.id e.outcome.causes)

theorem accounts_of_none (he : t.ending = none) : t.Accounts := fun _ h => nomatch he.symm.trans h

theorem accounts_close {reason : CloseReason} {causes : List Fault} (hs : t.stream.state ≠ .closed)
    (hr : reason ≠ .ended)
    (ha : reason = .reset → t.history.Aborts t.stream.id causes) : (t.close m reason causes true).Accounts := by
  intro e he
  rw [ending_close hs] at he
  cases he
  refine ⟨congrArg Stream.state (stream_close hs), rfl, hr, fun hreset => ?_⟩
  rw [stream_close hs]
  exact (ha hreset).extend ((extends_close t reason causes true).imp fun _ => Entry.IsStreamLine.isLine)

variable [Codec κ]

theorem accounts_refused {bytes : Bytes} {last : Bool} {ret : Int32} {earlier : History} (hs : t.stream.state ≠ .closed)
    (hret : ret ≠ 0)
    (hb : History.Extends Entry.IsLine (.call (.data t.stream.id bytes last ret) :: earlier) t.history) :
    (t.resetAndClose m .internalError .reset).Accounts := by
  have hreset : History.Extends Entry.IsLine
      (.call (.reset t.stream.id .internalError (Codec.reset t.codec t.stream.id .internalError).1) :: t.history)
      (.call (.reset t.stream.id .internalError (Codec.reset t.codec t.stream.id .internalError).1) :: t.history) := .refl
  unfold resetAndClose
  dsimp only
  split
  · exact accounts_close hs CloseReason.noConfusion fun _ => .piece bytes last ret _ hret hb hreset
  · exact accounts_close hs CloseReason.noConfusion fun _ => .piece bytes last ret _ hret hb (hreset.cons ⟨_, rfl⟩)

theorem accounts_sendBody (hs : t.stream.state = .opened) (he : t.ending = none) : (t.sendBody m).Accounts := by
  fun_induction sendBody m t with
  | case1 t hu hopen => exact accounts_of_none he
  | case2 t hu hne => exact accounts_of_none he
  | case3 t hu hw => exact accounts_of_none he
  | case4 t hu hw hr => exact accounts_of_none he
  | case5 t hu hw hr o ho ih =>
    obtain ⟨hstate, -, hending⟩ := same_offer t
    exact ih (hstate.trans hs) (hending.trans he)
  | case6 t hu hw hr o ho =>
    have hopen : o.2.stream.state ≠ .closed := by
      rw [show o.2.stream.state = .opened from (same_offer t).1.trans hs]
      exact StreamState.noConfusion
    have hpiece : History.Extends Entry.IsLine
        (.call (.data o.2.stream.id t.nextPiece.1 t.nextPiece.2 o.1) :: t.history) o.2.history := by
      rw [history_offer, (continues_offer t).id]
      exact .refl
    exact accounts_refused hopen ho (hpiece.cons ⟨_, rfl⟩)

theorem ending_resetAndClose (code : ErrorCode) (reason : CloseReason) (hs : t.stream.state ≠ .closed) :
    (t.resetAndClose m code reason).ending = some ⟨t.stream.outcome m reason [], true⟩ := by
  unfold resetAndClose
  dsimp only
  split
  · exact ending_close (t := t.record _ _) hs reason [] true
  · exact ending_close (t := (t.record _ _).note _ _) hs reason [] true

theorem ending_of_refused (m : Metadata) (hs : t.stream.state = .opened) (hu : t.stream.unsent ≠ []) (hr : t.room ≠ 0)
    (href : t.offer.1 ≠ 0) : (t.sendBody m).ending = some ⟨t.stream.outcome m .reset [], true⟩ := by
  have hw : ¬(Codec.window t.codec t.stream.id).toInt ≤ 0 := by
    have hmin : min (Codec.window t.codec t.stream.id).toInt.toNat (Codec.maxFrame t.codec).toNat ≠ 0 := hr
    omega
  have hopen : t.offer.2.stream.state ≠ .closed := by
    rw [(same_offer t).1, hs]
    exact StreamState.noConfusion
  have houtcome : t.offer.2.stream.outcome m .reset [] = t.stream.outcome m .reset [] := by
    simp [Stream.outcome, Stream.closeMessage, Stream.label, (continues_offer t).id]
  rw [sendBody, if_neg hu, if_neg hw, if_neg hr]
  dsimp only
  rw [if_neg href, ← houtcome]
  exact ending_resetAndClose (t := t.offer.2.note _ _) .internalError .reset hopen

theorem accounts_start {url : Url} (hs : t.stream.state = .pending) (he : t.ending = none) :
    (t.start m url).Accounts := by
  have hopen : t.stream.state ≠ .closed := by
    rw [hs]
    exact StreamState.noConfusion
  by_cases hret : (t.headAnswer url).1 = 0
  · obtain ⟨message, hstart⟩ := start_of_taken (m := m) hret
    rw [hstart]
    split
    · exact accounts_of_none he
    · rename_i hbody
      exact accounts_sendBody (if_neg hbody) he
  · obtain ⟨message, hstart⟩ := start_of_refused (m := m) hret
    have hoffered : History.Extends Entry.IsLine (t.offerHead url).history (t.offerHead url).history := .refl
    rw [hstart]
    exact accounts_close hopen CloseReason.noConfusion fun _ => .head _ _ _ hret (hoffered.cons ⟨_, rfl⟩)

theorem accounts_initiate (he : t.ending = none) : (t.initiate m).Accounts := by
  by_cases hs : t.stream.state = .pending
  · rcases initiate_eq (m := m) hs with ⟨message, h⟩ | ⟨url, h⟩
    · have hopen : (t.note .warn message).stream.state ≠ .closed := by
        rw [show (t.note .warn message).stream.state = .pending from hs]
        exact StreamState.noConfusion
      rw [h]
      exact accounts_close hopen CloseReason.noConfusion CloseReason.noConfusion
    · rw [h]
      exact accounts_start hs he
  · rw [show t.initiate m = t.warnStray _ from if_pos hs]
    exact accounts_of_none he

theorem accounts_receiveWindowUpdate (he : t.ending = none) : (t.receiveWindowUpdate m).Accounts := by
  unfold receiveWindowUpdate
  split
  · rename_i h
    exact accounts_sendBody h.1 he
  · exact accounts_of_none he

omit [Codec κ] in
theorem Concludes.accounts (h : Concludes m [⟨.maxsizeExceeded, [], true⟩] t) : t.Accounts := by
  cases h with
  | unclosed hs he => exact accounts_of_none he
  | closed hc hs =>
    obtain rfl := List.mem_singleton.1 hc
    exact accounts_close hs CloseReason.noConfusion CloseReason.noConfusion

theorem accounts_receiveHeaders (fields : Headers) (he : t.ending = none) : (t.receiveHeaders m fields).Accounts := by
  by_cases hs : t.stream.state = .closed
  · rw [show t.receiveHeaders m fields = t.note .warn _ from if_pos hs]
    exact accounts_of_none he
  · exact (concludes_perform (.receiveHeaders fields) hs he).accounts

theorem accounts_receiveData (bytes : Bytes) (length : Nat) (he : t.ending = none) :
    (t.receiveData m bytes length).Accounts := by
  by_cases hs : t.stream.state = .closed
  · rw [show t.receiveData m bytes length = t.note .warn _ from if_pos hs]
    exact accounts_of_none he
  · exact (concludes_perform (.receiveData bytes length) hs he).accounts

end Turn

theorem Session.Prompt.accounts {κ τ ω σ : Type} [Codec κ] {s : Session κ τ ω σ} {x : Stream}
    {act : Metadata → Turn κ → Turn κ} (ha : s.Prompt x act) : (act s.metadata (s.turnOf x)).Accounts := by
  cases ha with
  | start => exact Turn.accounts_initiate rfl
  | window => exact Turn.accounts_receiveWindowUpdate rfl
  | head fields => exact Turn.accounts_receiveHeaders fields rfl
  | data bytes length => exact Turn.accounts_receiveData bytes length rfl

end Multiplex
