import Multiplex.Proofs.Teardown

/-! Why a connection was lost. Causes only join those that are there, so a fault that is on record reaches everybody who
is told of the loss. A connection that finds a fault sends its last output first, though, and puts the fault on record
only then: if the output cannot be written and the transport reports its loss at once, the connection is lost before it
has said what it found. -/
namespace Multiplex

open Bytes Wire

def Wire.LossReport.cause : LossReport → Option Fault
  | .failed cause => some cause
  | _ => none

namespace Session

variable {κ τ ω σ : Type} [Codec κ] [Transport τ] {w : Surroundings κ τ ω σ} {s₀ s s' u v : Session κ τ ω σ}
  {r : Reaction κ τ ω σ} {may : Demand τ ω → Prop}

/-! Causes only join. -/

theorem Transition.causes (h : Transition w s s') : s.causes <+: s'.causes := by
  cases h with
  | close h =>
    rw [h.before_eq]
    exact List.prefix_rfl
  | lose => exact List.prefix_append _ _
  | clear | gate => exact List.prefix_rfl
  | atomic h =>
    cases h with
    | turn h =>
      rw [h.before_eq]
      exact List.prefix_rfl
    | blame | ask => exact List.prefix_append _ _
    | _ => exact List.prefix_rfl

theorem Transitions.causes (h : Transitions w s s') : s.causes <+: s'.causes := by
  induction h with
  | refl => exact List.prefix_rfl
  | tail _ hlast ih => exact ih.trans hlast.causes

/-- A connection that is lost in a run was torn down with all the causes that it has. -/
theorem Activity.loss (h : Activity may s s') (hs : s.Sound) (hl : s.lost = false) (hlost : s'.lost = true) :
    ∃ u v, Transitions (.of may) s u ∧ u.lost = false ∧ TornDown may s'.causes u v ∧ Transitions (.of may) v s' := by
  obtain ⟨u, transport, cause, m, v, hu, hopen, ht, hhandled, hv⟩ := (h.execution hs.intact).loss hs.intact hl hlost
  have hdown := (Transitions.sound hu hs).tornDown hopen ht hhandled
  have hsame : s'.causes = u.causes ++ cause.toList := (hdown.final s' (Or.inr hv.any)).1.causes.trans hdown.causes
  exact ⟨u, v, hu, hopen, hsame ▸ hdown, hv⟩

theorem mem_causes_loseWith (h : s.Conforms w r) (hl : s.lost = false) (fault : Fault) :
    fault ∈ (s.loseWith r fault).causes := by
  have hjoined : fault ∈ s.causes ++ [fault] := List.mem_append_right _ (List.mem_singleton_self _)
  cases hc : s.closing with
  | true =>
    rw [loseWith_again hl hc]
    exact hjoined
  | false =>
    cases ht : s.transport with
    | none =>
      obtain ⟨_, hlost⟩ := lossHandled_loseWith h hl hc ht fault
      have hnoted : (s.lossNoted s.transport (some fault)).Intact := h.intact.of_same rfl rfl rfl rfl
      have htold := hlost.told.transitions hnoted
      have hdismissed := hlost.dismissed.transitions (htold.intact hnoted).cleared
      have hafter := Transitions.causes hdismissed
      exact (htold.causes.trans hafter).subset hjoined
    | some t =>
      have hasked : (s.asked fault t).Conforms w r := h.step (.atomic (.ask fault ⟨hl, hc⟩ ht))
      have hlater : ∀ cause, fault ∈ ((s.asked fault t).transportLost r cause).causes := fun cause =>
        ((execution_transportLost hasked cause).transitions hasked.intact).causes.subset hjoined
      rw [loseWith_asked hl hc ht]
      split
      · exact hjoined
      · exact hlater _
      · exact hlater _

/-! The last output. -/

def writeFault (data : Bytes) (ret : Int32) : Fault :=
  ⟨.networkWriteError, ascii "Failed to write " ++ Decimal.write data.length ++ ascii " bytes to transport, ret="
    ++ Decimal.writeInt ret.toInt⟩

def answer (t : τ) (codec : κ) : Int32 × τ := Transport.write t (Codec.takeOutput codec).1

def report (t : τ) (codec : κ) : LossReport := (Transport.lose (answer t codec).2).1

def outputFaults (t : τ) (codec : κ) : List Fault :=
  writeFault (Codec.takeOutput codec).1 (answer t codec).1 :: (report t codec).cause.toList

/-- The transport does not take the output, and reports its loss as soon as it is asked to close. -/
structure Forestalls (t : τ) (codec : κ) : Prop where
  output : (Codec.takeOutput codec).1.isEmpty = false
  refused : (answer t codec).1 ≠ 0
  soon : report t codec ≠ .later

theorem flush_eq (hl : u.lost = false) {t : τ} (ht : u.transport = some t)
    (hout : (Codec.takeOutput u.codec).1.isEmpty = false) (r : Reaction κ τ ω σ) :
    ∃ message, u.flush r =
      if (answer t u.codec).1 = 0 then u.written t
      else ((u.written t).note .error message).loseWith r
        (writeFault (Codec.takeOutput u.codec).1 (answer t u.codec).1) := by
  have hthere : (u.transport.filter fun _ => !u.lost) = some t := by
    rw [ht, hl]
    rfl
  unfold flush written answer
  dsimp only
  rw [if_neg (Bool.eq_false_iff.1 hout)]
  split
  · rename_i hnone
    exact absurd (hnone.symm.trans hthere) (Option.some_ne_none t).symm
  · rename_i t' hsome
    obtain rfl := Option.some.inj (hsome.symm.trans hthere)
    refine ⟨ascii "Failed to write " ++ Decimal.write (Codec.takeOutput u.codec).1.length ++ ascii " bytes to "
      ++ u.peerText ++ ascii ", ret=" ++ Decimal.writeInt (Transport.write t' (Codec.takeOutput u.codec).1).1.toInt, ?_⟩
    split
    · rfl
    · rfl

theorem lost_flush (hs : s.Serving) (h : ∀ t, s.transport = some t → ¬Forestalls t s.codec) (r : Reaction κ τ ω σ) :
    (s.flush r).lost = false := by
  rcases flush_cases r s with ⟨-, hflush | ⟨message, hflush⟩⟩ | ⟨t, hout, ht, -, -⟩
  · rw [hflush]
    exact hs.1
  · rw [hflush]
    exact hs.1
  · obtain ⟨message, hflush⟩ := flush_eq hs.1 ht hout r
    rw [hflush]
    split
    · exact hs.1
    · rename_i hret
      have hlater : report t s.codec = .later := by
        by_contra hsoon
        exact h t ht ⟨hout, hret, hsoon⟩
      have hasked := loseWith_asked (s := (s.written t).note .error message) hs.1 hs.2 rfl r
        (writeFault (Codec.takeOutput s.codec).1 (answer t s.codec).1)
      rw [hasked]
      split
      · exact hs.1
      · rename_i hclean
        exact LossReport.noConfusion (hlater.symm.trans hclean)
      · rename_i cause hfailed
        exact LossReport.noConfusion (hlater.symm.trans hfailed)

/-- Otherwise it is lost, for nothing but the output that was not taken. -/
theorem tornDown_flush (hsound : s.Sound) (hc : s.Conforms w r) (hs : s.Serving) {t : τ} (ht : s.transport = some t)
    (h : Forestalls t s.codec) :
    ∃ u, Transitions w s u ∧ u.lost = false ∧ TornDown w.may (s.causes ++ outputFaults t s.codec) u (s.flush r) := by
  obtain ⟨message, hflush⟩ := flush_eq hs.1 ht h.output r
  let u := (s.written t).note .error message
  have hwritten : Execution w nobody s u := (Execution.atomic (.write h.output ht hs.1)).trans (.note _ .error message)
  have hsteps := hwritten.transitions hc.intact
  have hgives := (Transitions.sound hsteps hsound).givesUp hs.1 (hc.step hwritten)
    (writeFault (Codec.takeOutput s.codec).1 (answer t s.codec).1)
  rw [hflush, if_neg h.refused]
  refine ⟨u, hsteps, hs.1, ?_⟩
  unfold outputFaults
  cases hreport : report t s.codec with
  | later => exact absurd hreport h.soon
  | clean => exact hgives.clean _ hs.2 rfl hreport
  | failed cause => exact hgives.failed _ cause hs.2 rfl hreport

/-! Finding a fault. -/

def idleCode (s : Session κ τ ω σ) : ErrorCode := if s.isBusy then .protocolError else .noError

omit [Codec κ] [Transport τ] in
def idleFault (s : Session κ τ ω σ) : Fault :=
  ⟨.networkIdleTimeout, ascii "Connection was idle for more than "
    ++ Decimal.write (s.idle.timeout / 1000).toNat ++ ascii "s"⟩

/-- An operation in which a connection finds a fault, and its codec when it has yet to send its last output. -/
inductive Finds (s : Session κ τ ω σ) : Operation τ ω → Fault → κ → Prop
  | protocol {data : Bytes} {fault : Fault} (h : (Codec.receive s.codec data).1 = .error fault) :
      Finds s (.bytesReceived data) fault (Codec.receive s.codec data).2
  | idle : Finds s .idleTimeout s.idleFault (Codec.close s.codec s.idleCode)
  | expired (h : s.idle.isExpired s.clock = true) : Finds s .checkIdle s.idleFault (Codec.close s.codec s.idleCode)

variable {op : Operation τ ω} {fault : Fault} {codec : κ}

theorem idleTimeout_eq (hs : s.Serving) (r : Reaction κ τ ω σ) :
    ∃ message, s.idleTimeout r =
      (((s.note .warn message).closeCodec s.idleCode).flush r).loseWith r s.idleFault := by
  unfold idleTimeout
  rw [if_neg (in_service hs)]
  exact ⟨_, rfl⟩

theorem bytesReceived_of_error (hs : s.Serving) {data : Bytes} (h : (Codec.receive s.codec data).1 = .error fault)
    (r : Reaction κ τ ω σ) :
    ∃ message, s.bytesReceived r data = (((s.received data).note .error message).flush r).loseWith r fault := by
  unfold bytesReceived
  rw [if_neg (in_service hs)]
  dsimp only
  rw [h]
  exact ⟨_, rfl⟩

theorem loseWith_of_lost (hl : u.lost = true) (r : Reaction κ τ ω σ) (fault : Fault) :
    ∃ message, u.loseWith r fault = u.note .debug message := ⟨_, if_pos hl⟩

theorem Finds.perform (h : s.Finds op fault codec) (hs : s.Serving) (hop : w.may (.operation op))
    (r : Reaction κ τ ω σ) :
    ∃ u, Execution w nobody s u ∧ u.Serving ∧ u.causes = s.causes ∧ u.transport = s.transport ∧ u.codec = codec ∧
      s.perform r op = (u.flush r).loseWith r fault := by
  have hidle : ∀ message, Execution w nobody s ((s.note .warn message).closeCodec s.idleCode) := fun message =>
    (Execution.note s .warn message).trans (.atomic (.farewell s.idleCode (Or.inl hs)))
  obtain ⟨message, htimeout⟩ := idleTimeout_eq hs r
  cases h with
  | @protocol data fault h =>
    obtain ⟨message, hreceived⟩ := bytesReceived_of_error hs h r
    have hsteps : Execution w nobody s ((s.received data).note .error message) :=
      (Execution.atomic (.receive data hop hs)).trans (.note _ .error message)
    exact ⟨_, hsteps, hs, rfl, rfl, rfl, hreceived⟩
  | idle => exact ⟨_, hidle message, hs, rfl, rfl, rfl, htimeout⟩
  | expired h =>
    refine ⟨_, hidle message, hs, rfl, rfl, rfl, ?_⟩
    unfold Session.perform checkIdle
    rw [if_neg (by simp [hs.1, hs.2, h])]
    exact htimeout

/-- What a connection finds is among the causes that everybody is told who hears of its loss, whenever that comes;
unless its transport does not take the last output and reports its loss at once. Then the connection is lost for that
alone, and what it found stands in a line of the log. -/
theorem run_blame (h₀ : Created s₀) (h : FreeRun s₀ s) (hs : s.Serving) (hfinds : s.Finds op fault codec)
    (hr : ∀ o news u, Activity may u (r.run o news u)) (hop : may (.operation op)) :
    ((∀ t, s.transport = some t → ¬Forestalls t codec) → ∀ s', Activity may (s.perform r op) s' → fault ∈ s'.causes ∧
      (s'.lost = true → ∃ u v, Transitions .any s u ∧ u.lost = false ∧ TornDown may s'.causes u v ∧
        Transitions .any v s')) ∧
    ∀ t, s.transport = some t → Forestalls t codec →
      ∃ u v message, Transitions .any s u ∧ u.lost = false ∧ TornDown may (s.causes ++ outputFaults t codec) u v ∧
        s.perform r op = v.note .debug message := by
  have hsound : s.Sound := Transitions.sound (h.transitions h₀.intact) h₀.sound
  have hc : s.Conforms (.of may) r := .of_activity hsound.intact hr
  obtain ⟨u, hu, hserving, hcauses, htransport, rfl, hperform⟩ := hfinds.perform (w := .of may) hs hop r
  have hcu := hc.step hu
  constructor
  · intro hfree s' hrun
    have hopen := lost_flush hserving (htransport ▸ hfree) r
    have hflushed := hcu.step (execution_flush hcu)
    have hmem : fault ∈ (s.perform r op).causes := hperform ▸ mem_causes_loseWith hflushed hopen fault
    have hwhole : Activity may s s' := ((Activity.refl s).meet r hr (.operation op) hop).trans hrun
    have hafter : (s.perform r op).Intact := (execution_meet hc hop).intact hsound.intact
    refine ⟨((hrun.execution hafter).transitions hafter).causes.subset hmem, fun hlost => ?_⟩
    obtain ⟨v, v', hv, hvopen, hdown, hv'⟩ := hwhole.loss hsound hs.1 hlost
    exact ⟨v, v', hv.any, hvopen, hdown, hv'.any⟩
  · intro t ht hforestalls
    have hsu := Transitions.sound (hu.transitions hsound.intact) hsound
    obtain ⟨v, hv, hvopen, hdown⟩ := tornDown_flush hsu hcu hserving (htransport.trans ht) hforestalls
    rw [hcauses] at hdown
    obtain ⟨message, hdropped⟩ := loseWith_of_lost hdown.lost r fault
    have hsv : Transitions (.of may) s v := (hu.transitions hsound.intact).trans hv
    exact ⟨v, u.flush r, message, hsv.any, hvopen, hdown, hperform.trans hdropped⟩

/-- A fault of the peer's, on a transport that takes nothing but the preface and on a loop that has stopped. If the
transport takes its time to report its loss the fault is among the causes, and if not it is not. -/
theorem run_blame_scripted :
    ∃ (start : LossReport → Session Scripted.Codec Scripted.Transport Unit Unit)
      (r : Reaction Scripted.Codec Scripted.Transport Unit Unit) (fault : Fault)
      (may : Demand Scripted.Transport Unit → Prop),
      (∀ onLose, (start onLose).loop.stopped = true ∧ (start onLose).Serving) ∧
      (∃ lost u v, lost = ((start .later).perform r (.bytesReceived [])).perform r (.transportLost none) ∧
        fault ∈ lost.causes ∧ Transitions .any (start .later) u ∧ u.lost = false ∧
        TornDown may lost.causes u v ∧ Transitions .any v lost) ∧
      ∃ (t : Scripted.Transport) (codec : Scripted.Codec) (u v : Session _ _ _ _) (message : Bytes),
        Forestalls t codec ∧ fault ∉ outputFaults t codec ∧ Transitions .any (start .clean) u ∧ u.lost = false ∧
        TornDown may (outputFaults t codec) u v ∧
        (start .clean).perform r (.bytesReceived []) = v.note .debug message := by
  let fault : Fault := .plain .protocolViolation "bad frame"
  let codec : Scripted.Codec := { arrival := .failure fault (ascii "GOAWAY;") }
  let r : Reaction Scripted.Codec Scripted.Transport Unit Unit := ⟨fun _ _ s => s⟩
  let may (d : Demand Scripted.Transport Unit) : Prop := ∃ op, d = .operation op
  let connection (onLose : LossReport) : Scripted.Transport :=
    { writes := { queue := [0], constant := -1 }, onLose }
  let s₀ : Session Scripted.Codec Scripted.Transport Unit Unit := fresh codec
  let start (onLose : LossReport) :=
    { s₀ with loop := s₀.loop.stop }.performAll r [.established (some (connection onLose))]
  have hr : ∀ {may : Demand Scripted.Transport Unit → Prop} o news u, Activity may u (r.run o news u) :=
    fun _ _ u => .refl u
  have hrun : ∀ onLose, FreeRun s₀ (start onLose) := fun onLose =>
    (Activity.refl s₀).stop.trans (Activity.performAll hr (fun _ _ => trivial) _)
  have hserving : ∀ onLose, (start onLose).Serving := fun _ => ⟨rfl, rfl⟩
  have hfinds : ∀ onLose, (start onLose).Finds (.bytesReceived []) fault
      (Codec.receive (start onLose).codec []).2 := fun _ => .protocol rfl
  have hop : may (.operation (.bytesReceived [])) := ⟨_, rfl⟩
  have hblame := fun onLose => run_blame (created_fresh codec) (hrun onLose) (hserving onLose) (hfinds onLose) hr hop
  refine ⟨start, r, fault, may, fun onLose => ⟨rfl, hserving onLose⟩, ?_, ?_⟩
  · have hfree : ∀ t, (start .later).transport = some t → ¬Forestalls t (Codec.receive (start .later).codec []).2 := by
      intro t ht h
      obtain rfl := Option.some.inj ht
      exact h.soon rfl
    obtain ⟨hmem, hdown⟩ := (hblame .later).1 hfree _
      ((Activity.refl _).meet r hr (.operation (.transportLost none)) ⟨_, rfl⟩)
    obtain ⟨u, v, hu, hopen, hdown, hv⟩ := hdown (by decide)
    exact ⟨_, u, v, rfl, hmem, hu, hopen, hdown, hv⟩
  · have hforestalls : Forestalls { connection .clean with writes := { constant := -1 } }
        (Codec.receive (start .clean).codec []).2 := ⟨by decide, by decide, by decide⟩
    obtain ⟨u, v, message, hu, hopen, hdown, hperform⟩ := (hblame .clean).2 _ rfl hforestalls
    exact ⟨_, _, u, v, message, hforestalls, by decide, hu, hopen, hdown, hperform⟩

/-- The fault that the connection found is not told to anybody: neither the notice nor the outcome of the request that
was on its way has it. -/
theorem blame_forestalled :
    ∃ (s₀ s : Session Scripted.Codec Scripted.Transport Unit Unit)
      (r : Reaction Scripted.Codec Scripted.Transport Unit Unit) (fault other : Fault),
      Created s₀ ∧ Run s₀ s ∧ s.Serving ∧ (∃ codec, s.Finds (.bytesReceived []) fault codec) ∧
        fault ≠ other ∧ (s.perform r (.bytesReceived [])).lost = true ∧
        (s.perform r (.bytesReceived [])).announcements = [[other]] ∧
        ((s.perform r (.bytesReceived [])).history.select Entry.settlement).map (fun x => (x.1, x.2.reason, x.2.causes)) =
          [(0, .connectionLost, [other])] := by
  let request : Request := { url := ascii "https://example.com/" }
  let fault : Fault := .plain .protocolViolation "bad frame"
  let r : Reaction Scripted.Codec Scripted.Transport Unit Unit := ⟨fun _ _ s => s⟩
  let codec : Scripted.Codec := { arrival := .events [{ body := .settingsAcknowledged }] }
  let s₀ : Session Scripted.Codec Scripted.Transport Unit Unit := { fresh codec with lossNotice := some {} }
  have h₀ : Created s₀ := created_noticed codec (some {})
  let started := s₀.performAll r
    [.established (some { writes := { queue := [0, 0], constant := -1 } }), .bytesReceived [], .submit request]
  let broken : Drift Scripted.Codec Scripted.Transport Unit Unit :=
    .scripted { arrival := .failure fault (ascii "GOAWAY;") }
  have hrun : Run s₀ (started.drift broken) := (run_performAll r _ s₀).tail (.drift started broken)
  refine ⟨s₀, started.drift broken, r, fault, writeFault (ascii "GOAWAY;") (-1), h₀, hrun, ⟨by decide, by decide⟩,
    ⟨_, .protocol rfl⟩, by decide, by decide, by decide, by decide⟩

end Session

end Multiplex
