import Multiplex.Proofs.Change
import Multiplex.Proofs.Upload

/-! What a connection sends to its peer on one exchange, and when. Every entry of the record is held against what was on
record before it: one head, right after the admission; pieces of a body only after a head that was taken and left the
request open; one reset; and nothing any more once the request is settled. -/
namespace Multiplex

open Bytes Wire

namespace Entry

def Speaks (id : UInt32) : Entry → Prop
  | .call (.headers i _ _ _) | .call (.data i _ _ _) | .call (.reset i _ _) => i = id
  | _ => False

def isHead (id : UInt32) : Entry → Bool
  | .call (.headers i _ _ _) => i == id
  | _ => false

def isReset (id : UInt32) : Entry → Bool
  | .call (.reset i _ _) => i == id
  | _ => false

def Silent : Entry → Prop
  | .call (.headers ..) | .call (.data ..) | .call (.reset ..) | .settled .. => False
  | _ => True

variable {id : UInt32} {e : Entry}

theorem speaks_of_isHead (h : e.isHead id = true) : e.Speaks id := by
  unfold isHead at h
  split at h
  · exact beq_iff_eq.1 h
  · cases h

theorem speaks_of_isReset (h : e.isReset id = true) : e.Speaks id := by
  unfold isReset at h
  split at h
  · exact beq_iff_eq.1 h
  · cases h

theorem Silent.not_speaks (h : e.Silent) : ¬e.Speaks id := by
  intro hs
  unfold Speaks at hs
  split at hs
  · exact h
  · exact h
  · exact h
  · exact hs

theorem Clerical.silent (h : e.Clerical) : e.Silent := by
  unfold Silent
  split
  · exact h
  · exact h
  · exact h
  · exact h
  · trivial

theorem IsStreamLine.silent (h : e.IsStreamLine) : e.Silent := h.clerical.silent

theorem OfTurn.id_of_speaks {other : UInt32} (h : e.OfTurn id) (hs : e.Speaks other) : other = id := by
  unfold Speaks at hs
  split at hs
  · exact hs.symm.trans h
  · exact hs.symm.trans h
  · exact hs.symm.trans h
  · exact hs.elim

end Entry

namespace History

variable {id : UInt32} {ticket : Ticket} {h h' : History}

def Unspoken (id : UInt32) (h : History) : Prop := ∀ e ∈ h, ¬e.Speaks id

def Unreset (id : UInt32) (h : History) : Prop := ∀ e ∈ h, e.isReset id = false

def Unsettled (ticket : Ticket) (h : History) : Prop := ∀ outcome, .settled ticket outcome ∉ h

inductive Answered (id : UInt32) (h : History) : Prop
  | head (fields : Headers) (hm : .dispatched ⟨id, .response fields⟩ ∈ h)
  | data (bytes : Bytes) (length : Nat) (hm : .dispatched ⟨id, .data bytes length⟩ ∈ h)

theorem Answered.later {r : Entry → Prop} (ha : h.Answered id) (hh : h.Extends r h') : h'.Answered id := by
  obtain ⟨new, rfl, -⟩ := hh
  rcases ha with ⟨fields, hm⟩ | ⟨bytes, length, hm⟩
  · exact .head fields (List.mem_append_right _ hm)
  · exact .data bytes length (List.mem_append_right _ hm)

theorem Unspoken.extend (hu : h.Unspoken id) (hh : h.Extends (fun e => ¬e.Speaks id) h') : h'.Unspoken id := by
  obtain ⟨new, rfl, hnew⟩ := hh
  intro e he
  rcases List.mem_append.1 he with he | he
  · exact hnew e he
  · exact hu e he

theorem Unreset.extend (hu : h.Unreset id) (hh : h.Extends (fun e => ¬e.Speaks id) h') : h'.Unreset id := by
  obtain ⟨new, rfl, hnew⟩ := hh
  intro e he
  rcases List.mem_append.1 he with he | he
  · exact Bool.eq_false_iff.2 fun hr => hnew e he (Entry.speaks_of_isReset hr)
  · exact hu e he

theorem Unspoken.unreset (hu : h.Unspoken id) : h.Unreset id := fun e he =>
  Bool.eq_false_iff.2 fun hr => hu e he (Entry.speaks_of_isReset hr)

theorem Unsettled.extend {r : Entry → Prop} (hu : h.Unsettled ticket) (hh : h.Extends r h')
    (hr : ∀ outcome, ¬r (.settled ticket outcome)) : h'.Unsettled ticket := by
  obtain ⟨new, rfl, hnew⟩ := hh
  intro outcome hm
  rcases List.mem_append.1 hm with hm | hm
  · exact hr outcome (hnew _ hm)
  · exact hu outcome hm

end History

abbrev Ledger := List (UInt32 × Ticket)

def History.Due (ledger : Ledger) (id : UInt32) (h : History) : Prop :=
  ∃ ticket, (id, ticket) ∈ ledger ∧ h.Unsettled ticket

/-- What has to be on record before an entry. -/
def Entry.Allowed (ledger : Ledger) (e : Entry) (earlier : History) : Prop :=
  match e with
  | .call (.headers id _ _ _) => earlier.Due ledger id ∧ earlier.Unspoken id ∧ ∃ ticket ready active limit rest,
      (id, ticket) ∈ ledger ∧ earlier = .admitted ticket ready active limit :: rest
  | .call (.data id _ _ _) => earlier.Due ledger id ∧ ∃ fields, .call (.headers id fields false 0) ∈ earlier
  | .call (.reset id _ _) => earlier.Due ledger id ∧ earlier.Unreset id ∧
      (earlier.HeadSent id ∨ earlier.Unspoken id ∧ earlier.Answered id)
  | .settled ticket outcome => outcome.reason = .ended → ∃ id lines, ∃ rest : History, (id, ticket) ∈ ledger ∧
      earlier = lines ++ .dispatched ⟨id, .ended⟩ :: rest ∧ (∀ e ∈ lines, e.IsStreamLine) ∧
        (rest.HeadSent id ∨ rest.Unspoken id)
  | _ => True

theorem Entry.Silent.allowed {e : Entry} (h : e.Silent) (ledger : Ledger) (earlier : History) :
    e.Allowed ledger earlier := by
  unfold Entry.Allowed
  split
  · exact h.elim
  · exact h.elim
  · exact h.elim
  · exact h.elim
  · trivial

namespace Entry.Allowed

variable {ledger ledger' : Ledger} {e : Entry} {earlier : History}

theorem due (h : e.Allowed ledger earlier) {id : UInt32} (hs : e.Speaks id) : earlier.Due ledger id := by
  unfold Speaks at hs
  split at hs
  · exact hs ▸ h.1
  · exact hs ▸ h.1
  · exact hs ▸ h.1
  · exact hs.elim

theorem mono (hsub : ledger ⊆ ledger') (h : e.Allowed ledger earlier) : e.Allowed ledger' earlier := by
  have hdue : ∀ {id : UInt32}, earlier.Due ledger id → earlier.Due ledger' id := fun ⟨ticket, hm, hu⟩ =>
    ⟨ticket, hsub hm, hu⟩
  unfold Allowed at h ⊢
  split
  · obtain ⟨hopen, hunspoken, ticket, ready, active, limit, rest, hm, heq⟩ := h
    exact ⟨hdue hopen, hunspoken, ticket, ready, active, limit, rest, hsub hm, heq⟩
  · exact ⟨hdue h.1, h.2⟩
  · exact ⟨hdue h.1, h.2⟩
  · intro hr
    obtain ⟨id, lines, rest, hm, hrest⟩ := h hr
    exact ⟨id, lines, rest, hsub hm, hrest⟩
  · trivial

end Entry.Allowed

theorem History.Grounded.silence {ledger : Ledger} {h h' : History} (hg : h.Grounded (Entry.Allowed ledger))
    (hh : h.Extends Entry.Silent h') : h'.Grounded (Entry.Allowed ledger) :=
  hg.extend hh fun _ earlier he => he.allowed ledger earlier

/-- What is on record of an exchange fits how far it has come. -/
structure Stream.FitsRecord (h : History) (x : Stream) : Prop where
  unreset : x.state ≠ .closed → h.Unreset x.id
  unsettled : x.state ≠ .closed → h.Unsettled x.ticket
  waiting : x.state = .created ∨ x.state = .pending → h.Unspoken x.id
  opened : x.state = .opened → ∃ fields, .call (.headers x.id fields false 0) ∈ h
  sent : x.state = .opened ∨ x.state = .halfClosed → h.HeadSent x.id

namespace Stream.FitsRecord

variable {h h' : History} {x y : Stream}

theorem of_same (hx : x.FitsRecord h) (hid : y.id = x.id) (hticket : y.ticket = x.ticket) (hstate : y.state = x.state) :
    y.FitsRecord h := by
  obtain ⟨hunreset, hunsettled, hwaiting, hopened, hsent⟩ := hx
  rw [← hstate] at *
  rw [← hid] at hunreset hwaiting hopened hsent
  rw [← hticket] at hunsettled
  exact ⟨hunreset, hunsettled, hwaiting, hopened, hsent⟩

theorem extend (hx : x.FitsRecord h) (hh : h.Extends (fun e => ¬e.Speaks x.id) h')
    (hu : x.state ≠ .closed → h'.Unsettled x.ticket) : x.FitsRecord h' where
  unreset := fun hs => (hx.unreset hs).extend hh
  unsettled := hu
  waiting := fun hs => (hx.waiting hs).extend hh
  opened := by
    intro hs
    obtain ⟨fields, hm⟩ := hx.opened hs
    exact ⟨fields, hh.suffix.subset hm⟩
  sent := by
    intro hs
    obtain ⟨fields, last, hm⟩ := hx.sent hs
    exact ⟨fields, last, hh.suffix.subset hm⟩

theorem silence (hx : x.FitsRecord h) (hh : h.Extends Entry.Silent h') : x.FitsRecord h' :=
  hx.extend (hh.imp fun _ => Entry.Silent.not_speaks) fun hs => (hx.unsettled hs).extend hh fun _ hm => hm

theorem of_closed (hs : x.state = .closed) : x.FitsRecord h := by
  refine ⟨fun h => absurd hs h, fun h => absurd hs h, ?_, ?_, ?_⟩
  · rw [hs]
    exact nofun
  · rw [hs]
    exact nofun
  · rw [hs]
    exact nofun

theorem sent_or (hx : x.FitsRecord h) (hs : x.state ≠ .closed) : h.HeadSent x.id ∨ h.Unspoken x.id := by
  cases hstate : x.state with
  | created => exact Or.inr (hx.waiting (Or.inl hstate))
  | pending => exact Or.inr (hx.waiting (Or.inr hstate))
  | opened => exact Or.inl (hx.sent (Or.inl hstate))
  | halfClosed => exact Or.inl (hx.sent (Or.inr hstate))
  | closed => exact absurd hstate hs

end Stream.FitsRecord

namespace Turn

variable {κ : Type} {m : Metadata} {ledger : Ledger} {t t' : Turn κ}

structure FitsRecord (ledger : Ledger) (t : Turn κ) : Prop where
  known : (t.stream.id, t.stream.ticket) ∈ ledger
  grounded : t.history.Grounded (Entry.Allowed ledger)
  stream : t.stream.FitsRecord t.history

theorem FitsRecord.due (h : t.FitsRecord ledger) (hs : t.stream.state ≠ .closed) : t.history.Due ledger t.stream.id :=
  ⟨t.stream.ticket, h.known, h.stream.unsettled hs⟩

theorem FitsRecord.quiet (h : t.FitsRecord ledger) (hid : t'.stream.id = t.stream.id)
    (hticket : t'.stream.ticket = t.stream.ticket) (hstate : t'.stream.state = t.stream.state)
    (hh : t.history.Extends Entry.Silent t'.history) : t'.FitsRecord ledger where
  known := by
    rw [hid, hticket]
    exact h.known
  grounded := h.grounded.silence hh
  stream := (h.stream.silence hh).of_same hid hticket hstate

theorem FitsRecord.note (h : t.FitsRecord ledger) (level : Log.Level) (message : Bytes) :
    (t.note level message).FitsRecord ledger := h.quiet rfl rfl rfl (.cons trivial .refl)

theorem fitsRecord_close (hknown : (t.stream.id, t.stream.ticket) ∈ ledger)
    (hg : t.history.Grounded (Entry.Allowed ledger)) (reason : CloseReason) (causes : List Fault) (announce : Bool) :
    (t.close m reason causes announce).FitsRecord ledger where
  known := by
    by_cases hs : t.stream.state = .closed
    · unfold close
      rw [if_pos hs]
      exact hknown
    · rw [stream_close hs]
      exact hknown
  grounded := hg.silence ((extends_close t reason causes announce).imp fun _ => Entry.IsStreamLine.silent)
  stream := .of_closed (state_close t reason causes announce)

variable [Codec κ]

theorem FitsRecord.resetAndClose (h : t.FitsRecord ledger) (hs : t.stream.state ≠ .closed) (code : ErrorCode)
    (reason : CloseReason) (hcause : t.history.HeadSent t.stream.id ∨ t.history.Answered t.stream.id) :
    (t.resetAndClose m code reason).FitsRecord ledger := by
  have hallowed : ∀ ret, Entry.Allowed ledger (.call (.reset t.stream.id code ret)) t.history := fun ret => by
    refine ⟨h.due hs, h.stream.unreset hs, ?_⟩
    rcases h.stream.sent_or hs with hsent | hunspoken
    · exact Or.inl hsent
    · exact hcause.imp_right fun ha => ⟨hunspoken, ha⟩
  unfold Turn.resetAndClose
  dsimp only
  split
  · refine fitsRecord_close ?_ ?_ _ _ _
    · exact h.known
    · exact ⟨hallowed _, h.grounded⟩
  · refine fitsRecord_close ?_ ?_ _ _ _
    · exact h.known
    · exact ⟨trivial, hallowed _, h.grounded⟩

omit [Codec κ] in
theorem not_closed_of_opened (hs : t.stream.state = .opened) : t.stream.state ≠ .closed := by
  rw [hs]
  exact StreamState.noConfusion

theorem FitsRecord.offer (h : t.FitsRecord ledger) (hs : t.stream.state = .opened) : t.offer.2.FitsRecord ledger := by
  obtain ⟨fields, hhead⟩ := h.stream.opened hs
  have hopen := not_closed_of_opened hs
  have hallowed : Entry.Allowed ledger (.call (.data t.stream.id t.nextPiece.1 t.nextPiece.2 t.offer.1)) t.history :=
    ⟨h.due hopen, fields, hhead⟩
  have hcontinues := continues_offer t
  have hoffered : t.stream.FitsRecord t.offer.2.history := by
    rw [history_offer]
    constructor
    · exact fun _ => List.forall_mem_cons.2 ⟨rfl, h.stream.unreset hopen⟩
    · exact fun _ outcome hm => h.stream.unsettled hopen outcome ((List.mem_cons.1 hm).resolve_left nofun)
    · rw [hs]
      exact nofun
    · exact fun _ => ⟨fields, List.mem_cons_of_mem _ hhead⟩
    · exact fun _ => ⟨fields, false, List.mem_cons_of_mem _ hhead⟩
  constructor
  · rw [hcontinues.id, hcontinues.ticket]
    exact h.known
  · rw [history_offer]
    exact ⟨hallowed, h.grounded⟩
  · exact hoffered.of_same hcontinues.id hcontinues.ticket (same_offer t).1

theorem FitsRecord.sendBody (h : t.FitsRecord ledger) (hs : t.stream.state = .opened) :
    (t.sendBody m).FitsRecord ledger := by
  fun_induction Turn.sendBody m t with
  | case1 t hu _ =>
    have hopen := not_closed_of_opened hs
    refine ⟨h.known, h.grounded, ?_⟩
    exact ⟨fun _ => h.stream.unreset hopen, fun _ => h.stream.unsettled hopen,
      fun hwaits => hwaits.elim StreamState.noConfusion StreamState.noConfusion, StreamState.noConfusion,
      fun _ => h.stream.sent (Or.inl hs)⟩
  | case2 t hu hne => exact absurd hs hne
  | case3 t hu hw => exact h.note _ _
  | case4 t hu hw hr => exact h
  | case5 t hu hw hr o ho ih => exact ih (h.offer hs) ((same_offer t).1.trans hs)
  | case6 t hu hw hr o ho =>
    have hoffered : o.2.FitsRecord ledger := h.offer hs
    have hopened : o.2.stream.state = .opened := (same_offer t).1.trans hs
    refine (hoffered.note _ _).resetAndClose ?_ _ _ (Or.inl ((hoffered.note _ _).stream.sent (Or.inl hopened)))
    exact not_closed_of_opened hopened

theorem FitsRecord.receiveWindowUpdate (h : t.FitsRecord ledger) : (t.receiveWindowUpdate m).FitsRecord ledger := by
  unfold Turn.receiveWindowUpdate
  split
  · rename_i hrunning
    exact h.sendBody hrunning.1
  · exact h

theorem FitsRecord.checkSize (h : t.FitsRecord ledger) (hs : t.stream.state ≠ .closed)
    (ha : t.history.Answered t.stream.id) (hid : t'.stream.id = t.stream.id)
    (hticket : t'.stream.ticket = t.stream.ticket) (hstate : t'.stream.state = t.stream.state)
    (hh : t.history.Extends Entry.Silent t'.history) (size : Nat) : (t'.checkSize m size).FitsRecord ledger := by
  have hquiet := h.quiet hid hticket hstate hh
  unfold Turn.checkSize
  split
  · refine (hquiet.note _ _).resetAndClose (hstate.symm ▸ hs) _ _ (Or.inr ?_)
    have ha' : t'.history.Answered t'.stream.id := hid.symm ▸ ha.later hh
    exact ha'.later (History.Extends.cons trivial (.refl (p := fun _ => True)))
  · split
    · exact hquiet.quiet rfl rfl rfl (.cons trivial .refl)
    · exact hquiet

omit [Codec κ] in
theorem silent_absorbAll (fields : Headers) (t : Turn κ) :
    (fields.foldl absorb t).stream.id = t.stream.id ∧ (fields.foldl absorb t).stream.ticket = t.stream.ticket ∧
      (fields.foldl absorb t).stream.state = t.stream.state ∧
        t.history.Extends Entry.Silent (fields.foldl absorb t).history := by
  induction fields generalizing t with
  | nil => exact ⟨rfl, rfl, rfl, .refl⟩
  | cons field rest ih =>
    obtain ⟨hid, hticket, hstate, hh⟩ := ih (t.absorb field)
    have hfirst := continues_absorb t field
    exact ⟨hid.trans hfirst.id, hticket.trans hfirst.ticket, hstate.trans (same_absorb t field).1,
      ((extends_absorb t field).imp fun _ => Entry.IsStreamLine.silent).trans hh⟩

theorem FitsRecord.receiveHeaders (h : t.FitsRecord ledger) (ha : t.history.Answered t.stream.id) (fields : Headers) :
    (t.receiveHeaders m fields).FitsRecord ledger := by
  unfold Turn.receiveHeaders
  split
  · exact h.note _ _
  · rename_i hs
    obtain ⟨hid, hticket, hstate, hh⟩ := silent_absorbAll fields t
    dsimp only
    split
    · refine h.checkSize hs ha ?_ ?_ ?_ ?_ _
      · exact hid
      · exact hticket
      · exact hstate
      · exact hh
    · exact (h.quiet hid hticket hstate hh).quiet rfl rfl rfl .refl

theorem FitsRecord.receiveData (h : t.FitsRecord ledger) (ha : t.history.Answered t.stream.id) (data : Bytes)
    (length : Nat) : (t.receiveData m data length).FitsRecord ledger := by
  unfold Turn.receiveData
  split
  · exact h.note _ _
  · rename_i hs
    dsimp only
    split
    · refine h.checkSize hs ha ?_ ?_ ?_ ?_ _
      · rfl
      · rfl
      · rfl
      · exact .cons trivial (.cons trivial .refl)
    · refine h.checkSize hs ha ?_ ?_ ?_ ?_ _
      · rfl
      · rfl
      · rfl
      · exact .cons trivial .refl

section Start

variable {ready : Bool} {active limit : Nat} {earlier : History}

theorem FitsRecord.offerHead (h : t.FitsRecord ledger) (hs : t.stream.state = .pending)
    (hadmitted : t.history = .admitted t.stream.ticket ready active limit :: earlier) (url : Url) :
    (t.offerHead url).history.Grounded (Entry.Allowed ledger) := by
  have hopen : t.stream.state ≠ .closed := by
    rw [hs]
    exact StreamState.noConfusion
  exact ⟨⟨h.due hopen, h.stream.waiting (Or.inr hs), t.stream.ticket, ready, active, limit, earlier, h.known, hadmitted⟩,
    h.grounded⟩

theorem FitsRecord.headTaken (h : t.FitsRecord ledger) (hs : t.stream.state = .pending)
    (hadmitted : t.history = .admitted t.stream.ticket ready active limit :: earlier) {url : Url}
    (hret : (t.headAnswer url).1 = 0) : (t.headTaken url).FitsRecord ledger := by
  have hopen : t.stream.state ≠ .closed := by
    rw [hs]
    exact StreamState.noConfusion
  have hstate : (t.headTaken url).stream.state = if t.stream.request.body.isEmpty then .halfClosed else .opened := rfl
  have hhead : Entry.call (.headers t.stream.id (t.stream.requestFields url) t.stream.request.body.isEmpty 0) ∈
      (t.headTaken url).history := hret ▸ List.mem_cons_self
  refine ⟨h.known, h.offerHead hs hadmitted url, ?_⟩
  constructor
  · exact fun _ => List.forall_mem_cons.2 ⟨rfl, h.stream.unreset hopen⟩
  · exact fun _ outcome hm => h.stream.unsettled hopen outcome ((List.mem_cons.1 hm).resolve_left nofun)
  · rw [hstate]
    split
    · exact nofun
    · exact nofun
  · rw [hstate]
    split
    · exact nofun
    · rename_i hbody
      rw [Bool.not_eq_true] at hbody
      exact fun _ => ⟨t.stream.requestFields url, hbody ▸ hhead⟩
  · exact fun _ => ⟨_, _, hhead⟩

theorem FitsRecord.initiate (h : t.FitsRecord ledger)
    (hadmitted : t.history = .admitted t.stream.ticket ready active limit :: earlier) :
    (t.initiate m).FitsRecord ledger := by
  by_cases hs : t.stream.state = .pending
  · rcases initiate_eq (m := m) hs with ⟨message, hstray⟩ | ⟨url, hstart⟩
    · rw [hstray]
      exact fitsRecord_close (h.note _ _).known (h.note _ _).grounded _ _ _
    · rw [hstart]
      by_cases hret : (t.headAnswer url).1 = 0
      · obtain ⟨message, htaken⟩ := start_of_taken (m := m) hret
        have hsent := (h.headTaken hs hadmitted hret).note .debug message
        rw [htaken]
        split
        · exact hsent
        · rename_i hbody
          exact hsent.sendBody (if_neg hbody)
      · obtain ⟨message, hrefused⟩ := start_of_refused (m := m) hret
        rw [hrefused]
        refine fitsRecord_close ?_ ?_ _ _ _
        · exact h.known
        · exact ⟨trivial, h.offerHead hs hadmitted url⟩
  · rw [show t.initiate m = t.warnStray _ from if_pos hs]
    exact h.note _ _

end Start

end Turn

end Multiplex
