import Mathlib.Algebra.GroupWithZero.Nat
import Multiplex.Proofs.Run

/-! The window that a connection gives its peer. Bytes of a response take room in it, and every event that brings some
gives their room back: once, in the order of the events, and whether the exchange runs, waits, is cancelled by that very
event, has left or was never there. Nothing else gives back anything, so the window neither shrinks nor grows for good.
-/
namespace Multiplex

open Bytes Wire

def Entry.acknowledgement : Entry → Option (UInt32 × Nat)
  | .call (.acknowledge id length) => some (id, length)
  | _ => none

def Wire.Event.receipt (event : Event) : Option (UInt32 × Nat) :=
  match event.body with
  | .data _ length => some (event.stream, length)
  | _ => none

def Entry.receipt (e : Entry) : Option (UInt32 × Nat) := e.event.bind Event.receipt

theorem Entry.receipt_of_eventless {e : Entry} (h : e.event = none) : e.receipt = none := by
  rw [Entry.receipt, h]
  rfl

theorem Entry.Own.acknowledgement {e : Entry} (h : e.Own) : e.acknowledgement = none := by
  cases e with
  | call c =>
    cases c with
    | acknowledge => exact h.elim
    | _ => rfl
  | _ => rfl

def room (id : UInt32) (receipts : List (UInt32 × Nat)) : Nat := ((receipts.filter (·.1 == id)).map (·.2)).sum

namespace History

variable {h h' : History}

def acknowledgements (h : History) : List (UInt32 × Nat) := h.select Entry.acknowledgement

def receipts (h : History) : List (UInt32 × Nat) := h.select Entry.receipt

theorem acknowledgements_cons {e : Entry} (he : e.acknowledgement = none) (h : History) :
    acknowledgements (e :: h) = h.acknowledgements := by
  rw [acknowledgements, select_cons, he]
  exact List.append_nil _

theorem acknowledgements_note (h : History) (level : Log.Level) (source : String) (message : Bytes) :
    (h.note level source message).acknowledgements = h.acknowledgements := acknowledgements_cons rfl h

theorem acknowledgements_call (id : UInt32) (length : Nat) (h : History) :
    acknowledgements (.call (.acknowledge id length) :: h) = h.acknowledgements ++ [(id, length)] := select_cons _ _ _

theorem receipts_dispatched (event : Event) (h : History) :
    receipts (.dispatched event :: h) = h.receipts ++ event.receipt.toList := select_cons _ _ _

end History

namespace Turn

variable {κ : Type} [Codec κ] {m : Metadata} {t t' : Turn κ}

omit [Codec κ] in
theorem acknowledgements_close (t : Turn κ) (reason : CloseReason) (causes : List Fault) (announce : Bool) :
    (t.close m reason causes announce).history.acknowledgements = t.history.acknowledgements :=
  (extends_close t reason causes announce).select_eq fun _ => Entry.IsStreamLine.unseen fun _ => rfl

theorem acknowledgements_resetAndClose (t : Turn κ) (code : ErrorCode) (reason : CloseReason) :
    (t.resetAndClose m code reason).history.acknowledgements = t.history.acknowledgements := by
  unfold resetAndClose
  dsimp only
  split
  · rw [acknowledgements_close]
    exact History.acknowledgements_cons rfl _
  · rw [acknowledgements_close]
    exact (History.acknowledgements_note _ _ _ _).trans (History.acknowledgements_cons rfl _)

theorem Step.acknowledgements (h : Step m .sending t t') :
    t'.history.acknowledgements = t.history.acknowledgements := by
  cases h with
  | note => exact History.acknowledgements_note _ _ _ _
  | piece =>
    unfold offer
    dsimp only
    split <;> exact History.acknowledgements_cons rfl _
  | complete => rfl
  | reset => exact History.acknowledgements_cons rfl _
  | close causes => exact acknowledgements_close t _ causes true

theorem Steps.acknowledgements (h : Steps m .sending t t') :
    t'.history.acknowledgements = t.history.acknowledgements := by
  induction h with
  | refl => rfl
  | tail _ hstep ih => exact hstep.acknowledgements.trans ih

theorem acknowledgements_initiate (hs : t.stream.state = .pending) :
    (t.initiate m).history.acknowledgements = t.history.acknowledgements := by
  have hhead : ∀ url, (t.offerHead url).history.acknowledgements = t.history.acknowledgements :=
    fun _ => History.acknowledgements_cons rfl _
  rcases initiate_cases (m := m) hs with ⟨message, h⟩ | ⟨url, message, -, h⟩ | ⟨url, -, h⟩
  · rw [h, acknowledgements_close]
    exact History.acknowledgements_note _ _ _ _
  · rw [h, acknowledgements_close]
    exact (History.acknowledgements_note _ _ _ _).trans (hhead url)
  · exact h.acknowledgements.trans (hhead url)

theorem acknowledgements_checkSize (t : Turn κ) (size : Nat) :
    (t.checkSize m size).history.acknowledgements = t.history.acknowledgements := by
  unfold checkSize
  split
  · exact (acknowledgements_resetAndClose _ _ _).trans (History.acknowledgements_note _ _ _ _)
  · split
    · exact History.acknowledgements_note _ _ _ _
    · rfl

omit [Codec κ] in
theorem acknowledgements_foldl_absorb (fields : Headers) (t : Turn κ) :
    (fields.foldl absorb t).history.acknowledgements = t.history.acknowledgements :=
  (extends_foldl_absorb fields t).select_eq fun _ => Entry.IsStreamLine.unseen fun _ => rfl

theorem acknowledgements_receiveHeaders (t : Turn κ) (fields : Headers) :
    (t.receiveHeaders m fields).history.acknowledgements = t.history.acknowledgements := by
  unfold receiveHeaders
  split
  · exact History.acknowledgements_note _ _ _ _
  · dsimp only
    split
    · exact (acknowledgements_checkSize _ _).trans (acknowledgements_foldl_absorb fields t)
    · exact acknowledgements_foldl_absorb fields t

theorem acknowledgements_receiveData (data : Bytes) (length : Nat) (hs : t.stream.state ≠ .closed) :
    (t.receiveData m data length).history.acknowledgements =
      t.history.acknowledgements ++ [(t.stream.id, length)] := by
  unfold receiveData
  rw [if_neg hs]
  dsimp only
  rw [acknowledgements_checkSize]
  refine (History.acknowledgements_call _ _ _).trans ?_
  split
  · exact congrArg (· ++ _) (History.acknowledgements_note _ _ _ _)
  · rfl

end Turn

namespace Session

variable {κ τ ω σ : Type} {s₀ s s' u : Session κ τ ω σ} {e : Registry.Entry Stream} {event : Event}

def acknowledgements (s : Session κ τ ω σ) : List (UInt32 × Nat) := s.history.acknowledgements

def receipts (s : Session κ τ ω σ) : List (UInt32 × Nat) := s.history.receipts

theorem receipts_of_eventless (h : s.history.Extends (·.event = none) s'.history) : s'.receipts = s.receipts :=
  h.select_eq fun _ => Entry.receipt_of_eventless

theorem Coupled.acknowledgements_turn (h : s.Coupled (some e.id)) (he : e ∈ s.registry.entries) (r : Reaction κ τ ω σ)
    {act : Metadata → Turn κ → Turn κ}
    (hc : Turn.Continues (s.turnOf e.item) (act s.metadata (s.turnOf e.item)))
    (hs : (act s.metadata (s.turnOf e.item)).Sound e.admitted) :
    (s.turn r e.item.ticket act).2.acknowledgements =
      (act s.metadata (s.turnOf e.item)).history.acknowledgements := by
  refine (h.history_turn he r hc hs).select_eq ?_
  rintro x ⟨outcome, rfl⟩
  rfl

theorem Coupled.acknowledgements_conclude (h : s.Coupled none) (he : e ∈ s.registry.entries) (r : Reaction κ τ ω σ)
    (reason : CloseReason) (causes : List Fault) :
    (({ s with registry := (s.registry.remove e.id).2 } : Session κ τ ω σ).finish r e.item reason
      causes).acknowledgements = s.acknowledgements := by
  obtain ⟨history, notices, hh, hfinish⟩ := h.conclude_eq he r reason causes
  rw [hfinish]
  refine (History.acknowledgements_cons rfl _).trans (hh.select_eq fun _ => ?_)
  exact Entry.IsStreamLine.unseen fun _ => rfl

variable [Codec κ]

theorem Coupled.acknowledgements_receive (h : s.Coupled none) (he : e ∈ s.registry.entries) (r : Reaction κ τ ω σ)
    {act : Metadata → Turn κ → Turn κ} (ha : Receipt act) :
    (s.turn r e.item.ticket act).2.acknowledgements =
      (act s.metadata (s.turnOf e.item)).history.acknowledgements := by
  obtain ⟨_, hsteps⟩ := ha.steps s.metadata (s.turnOf e.item)
  exact (h.excuse e.id).acknowledgements_turn he r hsteps.continues (hsteps.sound (Turn.sound_of_fits rfl (h.fits he)))

theorem EventTraffic.acknowledgements (h : EventTraffic event s s') (hc : s.Coupled none) :
    s'.acknowledgements = s.acknowledgements ++ event.receipt.toList := by
  have hnone : (∀ bytes length, event.body ≠ .data bytes length) → event.receipt = none := by
    intro hdata
    unfold Event.receipt
    split
    · rename_i bytes length hbody
      exact absurd hbody (hdata bytes length)
    · rfl
  have hsome : ∀ {bytes length}, event.body = .data bytes length → event.receipt = some (event.stream, length) := by
    intro bytes length hbody
    unfold Event.receipt
    rw [hbody]
  cases h with
  | @head r e fields hbody hs he hid =>
    rw [hnone (hbody ▸ fun _ _ => EventBody.noConfusion), hc.acknowledgements_receive he r (.head fields)]
    exact (Turn.acknowledgements_receiveHeaders _ fields).trans (List.append_nil _).symm
  | @data r e bytes length hbody hs he hid =>
    have hopen : (s.turnOf e.item).stream.state ≠ .closed := (hc.fits he).not_closed
    rw [hsome hbody, hc.acknowledgements_receive he r (.data bytes length), ← hid, ← hc.ordered.ids e he]
    exact Turn.acknowledgements_receiveData bytes length hopen
  | @ended r e hbody hs he hid =>
    rw [hnone (hbody ▸ fun _ _ => EventBody.noConfusion), hc.acknowledgements_conclude he r]
    exact (List.append_nil _).symm
  | @reset r e code hbody hs he hid message =>
    have hnoted : (s.note .info message).Coupled none := hc.quiet (quiet_note s .info message)
    rw [hnone (hbody ▸ fun _ _ => EventBody.noConfusion)]
    refine (hnoted.acknowledgements_conclude he r .reset _).trans ?_
    exact (History.acknowledgements_note _ _ _ _).trans (List.append_nil _).symm
  | @stray bytes length hbody hs hn message =>
    rw [hsome hbody]
    refine (History.acknowledgements_call _ _ _).trans ?_
    exact congrArg (· ++ [(event.stream, length)]) (History.acknowledgements_note _ _ _ _)
  | ignored hdata hn message =>
    rw [hnone hdata]
    exact (History.acknowledgements_note _ _ _ _).trans (List.append_nil _).symm
  | passes hplain =>
    rw [hnone fun bytes length hbody => by simp [hbody, EventBody.isPlain] at hplain]
    exact (List.append_nil _).symm

variable [Transport τ]

theorem TrafficPath.receipts (h : TrafficPath s s') (hc : s.Coupled none) : s'.receipts = s.receipts := by
  induction h with
  | refl => rfl
  | tail hbefore htraffic ih =>
    have hof := htraffic.growth (TrafficPath.coupled hbefore hc)
    exact (receipts_of_eventless (hof.imp fun _ => Entry.OfTraffic.event)).trans ih

theorem EventlessTraffic.acknowledgements (h : EventlessTraffic s s') (hc : s.Coupled none) :
    s'.acknowledgements = s.acknowledgements := by
  cases h with
  | note => exact History.acknowledgements_note _ _ _ _
  | hold | gate => rfl
  | @start r stream registry hcan hnext =>
    obtain ⟨e, he, rest, hfit, hp, hhead⟩ := hc.head hcan
    rw [hhead, Prod.mk.injEq, Option.some.injEq] at hnext
    obtain ⟨rfl, rfl⟩ := hnext
    let begun : Registry.Entry Stream := { e with admitted := true }
    have hpopped : (s.popped e rest).acknowledgements = s.acknowledgements :=
      (History.acknowledgements_cons rfl _).trans (History.acknowledgements_note _ _ _ _)
    rw [begin_eq, (hc.popped hp).acknowledgements_turn (e := begun) (mem_popped he rest) r
      (Turn.continues_initiate (m := s.metadata) hfit.2) (Turn.sound_initiate (m := s.metadata) rfl hfit)]
    exact (Turn.acknowledgements_initiate hfit.2).trans hpopped
  | window r hs he =>
    rw [hc.acknowledgements_receive he r .window]
    exact (Turn.steps_receiveWindowUpdate _).acknowledgements

theorem EventlessMove.accounts (h : EventlessMove s s') (hc : s.Coupled none) :
    s'.acknowledgements = s.acknowledgements ∧ s'.receipts = s.receipts := by
  refine ⟨?_, receipts_of_eventless (h.eventless hc)⟩
  cases h with
  | traffic h => exact h.acknowledgements hc
  | own _ hh => exact hh.select_eq fun _ => Entry.Own.acknowledgement

theorem EventlessPath.accounts (h : EventlessPath s s') (hc : s.Coupled none) :
    s'.acknowledgements = s.acknowledgements ∧ s'.receipts = s.receipts := by
  obtain ⟨hsteps⟩ := h
  induction hsteps with
  | refl => exact ⟨rfl, rfl⟩
  | tail hbefore hmove ih =>
    obtain ⟨hgiven, htaken⟩ := hmove.accounts (EventlessPath.coupled ⟨hbefore⟩ hc)
    exact ⟨hgiven.trans ih.1, htaken.trans ih.2⟩

/-- As much room is given back as is taken. -/
theorem Segments.acknowledgements (h : Segments s s') (hc : s.Coupled none) (hs : s.acknowledgements = s.receipts) :
    s'.acknowledgements = s'.receipts := by
  induction h with
  | refl => exact hs
  | tail hsegments hsegment ih =>
    have hc' := Segments.coupled hsegments hc
    cases hsegment with
    | eventless h => rw [(h.accounts hc').1, (h.accounts hc').2, ih]
    | event event hserving h =>
      have hentered := (Move.dispatch event hserving).coupled hc'
      rw [h.acknowledgements hentered, TrafficPath.receipts h.trafficPath hentered]
      refine Eq.trans ?_ (History.receipts_dispatched event _).symm
      exact congrArg (· ++ event.receipt.toList) ((History.acknowledgements_cons rfl _).trans ih)

theorem Step.acknowledgements (h : Step s s') (hc : s.Coupled none) (hs : s.acknowledgements = s.receipts) :
    s'.acknowledgements = s'.receipts := by
  cases h with
  | perform r op =>
    obtain ⟨u, hprelude, hsegments⟩ := segments_perform r op hc
    refine hsegments.acknowledgements (Path.coupled hprelude.path hc) ?_
    unfold Session.acknowledgements Session.receipts
    rw [hprelude.history]
    exact hs
  | drift d => exact hs

theorem Run.acknowledgements (h : Run s s') (hc : s.Coupled none) (hs : s.acknowledgements = s.receipts) :
    s'.acknowledgements = s'.receipts := by
  induction h with
  | refl => exact hs
  | tail hrun hstep ih => exact hstep.acknowledgements (Run.coupled hrun hc) ih

theorem acknowledgements_perform (hc : s.Coupled none) (r : Reaction κ τ ω σ) {op : Operation τ ω}
    (hop : ∀ data, op ≠ .bytesReceived data) : (s.perform r op).acknowledgements = s.acknowledgements := by
  obtain ⟨u, hprelude, hafter⟩ := eventless_perform r op hop hc
  rw [(hafter.accounts (Path.coupled hprelude.path hc)).1, Session.acknowledgements, hprelude.history]
  rfl

theorem acknowledgements_handle (hc : s.Coupled none) (hs : s.Serving) (r : Reaction κ τ ω σ) (event : Event) :
    (s.handle r event).acknowledgements = s.acknowledgements ++ event.receipt.toList := by
  obtain ⟨u, hevent, hafter⟩ := handle_eventTraffic r event hc hs
  rw [(hafter.accounts (TrafficPath.coupled hevent.trafficPath hc)).1, hevent.acknowledgements hc]

/-- Room is given back for every event that took some, once and in their order, so that in the end every exchange has
back what it took. An event gives back its own room, wherever its exchange may be, and no operation gives back any but
the one in which bytes arrive. -/
theorem run_receipts (h₀ : Created s₀) (h : Run s₀ s) :
    s.acknowledgements = s.receipts ∧ (∀ id, room id s.acknowledgements = room id s.receipts) ∧
    (∀ u, Path s u → u.Serving → ∀ r event,
      ((u.enter (.dispatched event)).handle r event).acknowledgements =
        u.acknowledgements ++ event.receipt.toList) ∧
    ∀ r op, (∀ data, op ≠ .bytesReceived data) → (s.perform r op).acknowledgements = s.acknowledgements := by
  have hc := h.coupled h₀.coupled
  have hstart : s₀.acknowledgements = s₀.receipts := by
    unfold Session.acknowledgements Session.receipts
    rw [h₀.fields.2.2.2.1]
    rfl
  have hall := h.acknowledgements h₀.coupled hstart
  refine ⟨hall, fun id => congrArg (room id) hall, ?_, fun r op => acknowledgements_perform hc r⟩
  intro u hu hserving r event
  have hentered := (Move.dispatch event hserving).coupled (Path.coupled hu hc)
  rw [acknowledgements_handle hentered hserving]
  exact congrArg (· ++ event.receipt.toList) (History.acknowledgements_cons rfl _)

/-- Bytes for an exchange that runs, for one that waits, for the first again and too many for it, so that it is
cancelled, then once more, and for one that never was. -/
theorem run_receipts_scripted :
    ∃ (s : Session Scripted.Codec Scripted.Transport Unit Unit)
      (r : Reaction Scripted.Codec Scripted.Transport Unit Unit) (event : Event),
      s.acknowledgements = s.receipts ∧ s.receipts = [(1, 3), (3, 9), (1, 2), (1, 1), (7, 8)] ∧
        room 1 s.acknowledgements = 6 ∧ s.registry.snapshot.map (·.id) = [3] ∧
        ((s.enter (.dispatched event)).handle r event).acknowledgements = s.acknowledgements ++ [(3, 5)] ∧
        (s.perform r .idleTimeout).acknowledgements = s.acknowledgements := by
  let request : Request := { url := ascii "https://example.com/", maxSize := 4 }
  let r : Reaction Scripted.Codec Scripted.Transport Unit Unit := ⟨fun _ _ s => s⟩
  let s₀ : Session Scripted.Codec Scripted.Transport Unit Unit :=
    fresh { localLimit := 1, arrival := .events [{ body := .settingsAcknowledged }] }
  let started := s₀.performAll r [.established (some {}), .bytesReceived [], .submit request, .submit request]
  let bytes : List Event := [⟨1, .data (ascii "abc") 3⟩, ⟨3, .data (ascii "xy") 9⟩, ⟨1, .data (ascii "de") 2⟩,
    ⟨1, .data (ascii "f") 1⟩, ⟨7, .data [] 8⟩]
  let arrived : Drift Scripted.Codec Scripted.Transport Unit Unit :=
    .scripted { localLimit := 1, arrival := .events bytes }
  let s := (started.drift arrived).perform r (.bytesReceived [])
  have hrun : Run s₀ s :=
    ((run_performAll r _ s₀).tail (.drift started arrived)).tail (.perform _ r (.bytesReceived []))
  obtain ⟨hall, hroom, hevent, hquiet⟩ := run_receipts (created_fresh _) hrun
  have hserving : s.Serving := ⟨by decide, by decide⟩
  refine ⟨s, r, ⟨3, .data (ascii "z") 5⟩, hall, by decide, ?_, by decide, hevent s .refl hserving r _,
    hquiet r .idleTimeout fun _ => nofun⟩
  rw [hroom]
  decide

end Session

end Multiplex
