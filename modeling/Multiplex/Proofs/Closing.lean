import Multiplex.Proofs.Freeze

/-! A connection that is closing when an operation begins asks nothing of its transport any more, whatever is asked of
it, by whoever, on a loop that may have stopped. Nor does it blame the transport for anything. -/
namespace Multiplex

open Bytes Wire

namespace Entry

def transportCall : Entry → Option Call
  | .call (.write bytes ret) => some (.write bytes ret)
  | .call .lose => some .lose
  | _ => none

def OffTransport (e : Entry) : Prop := e.transportCall = none

theorem IsStreamLine.offTransport {e : Entry} (h : e.IsStreamLine) : e.OffTransport := h.unseen fun _ => rfl

end Entry

namespace Session

/-- Nothing more is asked of the transport, nor does it get the blame. -/
structure AsksNothing {κ τ ω σ : Type} (s s' : Session κ τ ω σ) : Prop where
  closing : s.closing = true → s'.closing = true
  history : s.history.Extends Entry.OffTransport s'.history
  causes : ∃ reported, s'.causes = s.causes ++ reported ∧ ∀ fault ∈ reported, fault.code ≠ .networkWriteError

end Session

def Reaction.AsksNothing {κ τ ω σ : Type} (r : Reaction κ τ ω σ) : Prop :=
  ∀ o news (s : Session κ τ ω σ), s.closing = true → s.AsksNothing (r.run o news s)

namespace Session

variable {κ τ ω σ : Type} {s s' u : Session κ τ ω σ} {r : Reaction κ τ ω σ} {x : Stream}

namespace AsksNothing

theorem of_same (hclosing : s.closing = true → s'.closing = true) (hcauses : s'.causes = s.causes)
    (hh : s.history.Extends Entry.OffTransport s'.history) : s.AsksNothing s' :=
  ⟨hclosing, hh, [], hcauses.trans (List.append_nil _).symm, fun _ hm => absurd hm List.not_mem_nil⟩

theorem refl (s : Session κ τ ω σ) : s.AsksNothing s := .of_same id rfl .refl

theorem trans (h : s.AsksNothing u) (h' : u.AsksNothing s') : s.AsksNothing s' := by
  obtain ⟨reported, hcauses, hother⟩ := h.causes
  obtain ⟨reported', hcauses', hother'⟩ := h'.causes
  refine ⟨fun hs => h'.closing (h.closing hs), h.history.trans h'.history, reported ++ reported', ?_, ?_⟩
  · rw [hcauses', hcauses, List.append_assoc]
  · exact fun fault hm => (List.mem_append.1 hm).elim (hother fault) (hother' fault)

theorem note (s : Session κ τ ω σ) (level : Log.Level) (message : Bytes) (source : String) :
    s.AsksNothing (s.note level message source) := .of_same id rfl (.cons rfl .refl)

end AsksNothing

/-! The connection is closing, and hears what there is to hear. -/

section Closing

theorem asksNothing_tell (hr : r.AsksNothing) (n : Notice ω) (hs : s.closing = true) : s.AsksNothing (s.tell r n) := by
  unfold tell
  split
  · exact .of_same id rfl .refl
  · have hnote := AsksNothing.note s .warn (ascii "Event loop unavailable, notifying observer inline") "Completion"
    exact hnote.trans (hr n.observer n.news _ hs)

theorem asksNothing_foldl {α : Type} {f : Session κ τ ω σ → α → Session κ τ ω σ}
    (hf : ∀ (u : Session κ τ ω σ) a, u.closing = true → u.AsksNothing (f u a)) (as : List α) (hs : s.closing = true) :
    s.AsksNothing (as.foldl f s) := by
  induction as generalizing s with
  | nil => exact .refl s
  | cons a as ih =>
    have hfirst := hf s a hs
    exact hfirst.trans (ih (hfirst.closing hs))

theorem asksNothing_tellAll (hr : r.AsksNothing) (os : List ω) (news : News) (hs : s.closing = true) :
    s.AsksNothing (s.tellAll r os news) := asksNothing_foldl (fun _ o hu => asksNothing_tell hr ⟨o, news⟩ hu) os hs

theorem asksNothing_settle (hr : r.AsksNothing) (ticket : Ticket) (outcome : Outcome) (hs : s.closing = true) :
    s.AsksNothing (s.settle r ticket outcome) := by
  rcases settle_cases r ticket outcome s with ⟨-, h | h⟩ | ⟨os, -, h⟩
  · rw [h]
    exact .refl s
  · rw [h]
    exact .note s _ _ _
  · have hgiven : s.AsksNothing (s.given ticket outcome) := .of_same id rfl (.cons rfl .refl)
    rw [h]
    exact hgiven.trans (asksNothing_tellAll hr os _ hs)

theorem asksNothing_announceLoss (hr : r.AsksNothing) (hs : s.closing = true) : s.AsksNothing (s.announceLoss r) := by
  unfold announceLoss
  split
  · exact .refl s
  · split
    · exact .note s _ _ _
    · rename_i os c _
      let announced : Session κ τ ω σ := { s with lossNotice := some c }.enter (.lossAnnounced s.causes)
      have hannounced : s.AsksNothing announced := .of_same id rfl (.cons rfl .refl)
      exact hannounced.trans (asksNothing_tellAll hr os _ hs)

theorem asksNothing_observe (hr : r.AsksNothing) (ticket : Ticket) (o : ω) (hs : s.closing = true) :
    s.AsksNothing (s.observe r ticket o) := by
  unfold observe
  split
  · exact .refl s
  · split
    · exact .of_same id rfl .refl
    · exact asksNothing_tell hr _ hs

theorem asksNothing_giveUp (x : Stream) (s : Session κ τ ω σ) : s.AsksNothing (s.giveUp x) := by
  unfold giveUp
  split
  · exact .refl s
  · exact .note s _ _ _

theorem asksNothing_release (id : UInt32) (s : Session κ τ ω σ) : s.AsksNothing (s.release id).2 := by
  unfold release
  split
  · exact .note s _ _ _
  · rename_i x registry _
    dsimp only
    split
    · exact .of_same (fun h => h) rfl .refl
    · have hremoved : s.AsksNothing { s with registry } := .of_same (fun h => h) rfl .refl
      exact hremoved.trans (asksNothing_giveUp x _)

theorem asksNothing_finish (hr : r.AsksNothing) (x : Stream) (reason : CloseReason) (causes : List Fault)
    (hs : s.closing = true) : s.AsksNothing (s.finish r x reason causes) := by
  obtain ⟨history, hh, h⟩ := finish_cases r x reason causes s
  have hlines : s.AsksNothing { s with history } := .of_same id rfl (hh.imp fun _ => Entry.IsStreamLine.offTransport)
  rcases h with ⟨-, h⟩ | ⟨-, h⟩
  · rw [h]
    exact hlines
  · rw [h]
    exact hlines.trans (asksNothing_settle hr _ _ hs)

variable [Codec κ]

theorem asksNothing_dismissAll (hr : r.AsksNothing) (hs : s.closing = true) : s.AsksNothing (s.dismissAll r) := by
  have hdismissed := asksNothing_foldl (s := { s with registry := s.registry.clear }) (f := dismiss r) (fun u x hu => by
    unfold dismiss
    split
    · exact asksNothing_finish hr x _ _ hu
    · exact asksNothing_finish hr x _ _ hu) s.registry.snapshot hs
  have hcleared : s.AsksNothing { s with registry := s.registry.clear } := .of_same id rfl .refl
  exact (hcleared.trans hdismissed).trans (.of_same id rfl (.cons rfl .refl))

theorem asksNothing_transportLost (hr : r.AsksNothing) {cause : Option Fault}
    (hcause : ∀ fault ∈ cause, fault.code ≠ .networkWriteError) (s : Session κ τ ω σ) :
    s.AsksNothing (s.transportLost r cause) := by
  rcases transportLost_cases r cause s with ⟨-, message, h⟩ | ⟨-, message, h⟩
  · rw [h]
    exact .note s _ _ _
  · have hlosing : s.AsksNothing (s.losing cause) :=
      ⟨fun _ => rfl, .refl, cause.toList, rfl, fun fault hm => hcause fault (Option.mem_toList.1 hm)⟩
    have hnoted := hlosing.trans (.note _ .info message "Session")
    have hannounced := asksNothing_announceLoss (s := (s.losing cause).note .info message) hr rfl
    rw [h]
    exact (hnoted.trans hannounced).trans (asksNothing_dismissAll hr (hannounced.closing rfl))

variable [Transport τ]

theorem canAdmit_of_closing (hs : s.closing = true) : s.canAdmit = false := by
  unfold canAdmit isReady
  rw [hs]
  simp

theorem admitUpTo_of_closing (r : Reaction κ τ ω σ) (n : Nat) (hs : s.closing = true) : s.admitUpTo r n = s := by
  cases n with
  | zero => rfl
  | succ n =>
    unfold admitUpTo
    rw [canAdmit_of_closing hs]
    rfl

theorem asksNothing_admitQueued (r : Reaction κ τ ω σ) (hs : s.closing = true) : s.AsksNothing (s.admitQueued r) := by
  unfold admitQueued
  split
  · exact .refl s
  · have hstill : ∀ n, ({ s with admitting := true } : Session κ τ ω σ).admitUpTo r n = { s with admitting := true } :=
      fun n => admitUpTo_of_closing r n hs
    dsimp only
    rw [hstill]
    exact .of_same (fun _ => hs) rfl .refl

theorem asksNothing_streamClosed (r : Reaction κ τ ω σ) (id : UInt32) (hs : s.closing = true) :
    s.AsksNothing (s.streamClosed r id) := by
  have hreleased := asksNothing_release id s
  unfold streamClosed
  split
  · rename_i u h
    rw [h] at hreleased
    exact hreleased.trans (asksNothing_admitQueued r (hreleased.closing hs))
  · rename_i u h
    rw [h] at hreleased
    exact hreleased

theorem asksNothing_submit (hr : r.AsksNothing) (request : Request) (hs : s.closing = true) :
    s.AsksNothing (s.submit r request).2 := by
  obtain ⟨message, hsubmit⟩ := submit_of_refused r request (refusal_of_closing hs)
  have hissued : s.AsksNothing (s.note .warn message).issueTicket.2 := .of_same id rfl (.cons rfl .refl)
  rw [hsubmit]
  exact hissued.trans (asksNothing_finish hr _ _ _ hs)

def Demand.SparesTransport : Demand τ ω → Prop
  | .operation (.established (some _)) => False
  | .operation (.transportLost (some fault)) => fault.code ≠ .networkWriteError
  | _ => True

theorem asksNothing_meet (hr : r.AsksNothing) {d : Demand τ ω} (hd : d.SparesTransport) (hs : s.closing = true) :
    s.AsksNothing (s.meet r d) := by
  cases d with
  | streamClosed id => exact asksNothing_streamClosed r id hs
  | operation op =>
    cases op with
    | submit request => exact asksNothing_submit hr request hs
    | observe ticket observer => exact asksNothing_observe hr ticket observer hs
    | established transport =>
      cases transport with
      | none => exact .note s _ _ _
      | some t => exact hd.elim
    | handshakeCompleted =>
      rw [meet, perform, handshakeCompleted_of_closing hs]
      exact .refl s
    | bytesReceived data =>
      obtain ⟨message, h⟩ := bytesReceived_of_closing hs r data
      rw [meet, perform, h]
      exact .note s _ _ _
    | idleTimeout =>
      rw [meet, perform, idleTimeout_of_closing hs]
      exact .refl s
    | checkIdle =>
      rw [meet, perform, checkIdle_of_closing hs]
      exact .refl s
    | transportLost cause =>
      cases cause with
      | none => exact asksNothing_transportLost hr (fun _ hm => absurd hm (Option.not_mem_none _)) s
      | some fault => exact asksNothing_transportLost hr (fun _ hm => Option.some.inj hm ▸ hd) s
    | discard =>
      rw [meet, perform, discard]
      split
      · exact .refl s
      · have hdropped : s.AsksNothing { s with transport := none } := .of_same id rfl .refl
        exact hdropped.trans (asksNothing_transportLost hr (fun _ hm => absurd hm (Option.not_mem_none _)) _)

theorem Activity.asksNothing (h : Activity Demand.SparesTransport s s') (hs : s.closing = true) : s.AsksNothing s' := by
  induction h with
  | refl s => exact .refl s
  | meet _ r _ d hd ih ihr =>
    have hbefore := ih hs
    exact hbefore.trans (asksNothing_meet (fun o news u hu => ihr o news u hu) hd (hbefore.closing hs))
  | drift _ d ih => exact (ih hs).trans (.of_same id rfl .refl)
  | stop _ ih => exact (ih hs).trans (.of_same id rfl .refl)

end Closing

end Session

end Multiplex
