import Multiplex.Proofs.Blame
import Multiplex.Proofs.Closing

/-! What a transport is given after it was asked to close. On a loop that takes tasks one event is over before the next
is taken up. So there is one case: a batch goes on to its end when the peer's farewell closes the connection, and what
the events before it had to say goes out after the call. -/
namespace Multiplex

open Bytes Wire

/-- The record right after a farewell of the peer's made the connection ask for its end. -/
def History.Farewell (h : History) : Prop :=
  ∃ line id code last debug earlier,
    h = .call .lose :: .log line :: .dispatched ⟨id, .terminated code last debug⟩ :: earlier

def History.Belated (h : History) (fault : Fault) : Prop :=
  ∃ (later earlier : History) (bytes : Bytes) (ret : Int32),
    h = later ++ .call (.write bytes ret) :: earlier ∧ ret ≠ 0 ∧ earlier.Farewell ∧
      fault = Session.writeFault bytes ret

/-- After the transport was asked to close, nothing is written to it but right after a farewell. -/
def Entry.Timely : Entry → History → Prop
  | .call (.write ..), earlier => .call .lose ∈ earlier → earlier.Farewell
  | _, _ => True

theorem Entry.OfTraffic.offTransport {e : Entry} (h : e.OfTraffic) : e.OffTransport := by
  unfold Entry.OffTransport Entry.transportCall
  split
  · exact h.elim
  · exact h.elim
  · rfl

theorem Entry.OffTransport.timely {e : Entry} (h : e.OffTransport) (earlier : History) : e.Timely earlier := by
  unfold Entry.Timely
  split
  · cases h
  · trivial

theorem History.Belated.later {h h' : History} {fault : Fault} (hb : h.Belated fault) (hh : h <:+ h') :
    h'.Belated fault := by
  obtain ⟨later, earlier, bytes, ret, rfl, hret, hfarewell, hfault⟩ := hb
  obtain ⟨new, rfl⟩ := hh
  exact ⟨new ++ later, earlier, bytes, ret, (List.append_assoc _ _ _).symm, hret, hfarewell, hfault⟩

namespace Session

variable {κ τ ω σ : Type} [Codec κ] {s₀ s s' u : Session κ τ ω σ} {r : Reaction κ τ ω σ}

def Excuses (s : Session κ τ ω σ) (fault : Fault) : Prop :=
  fault.code = .networkWriteError →
    (∃ (codec : κ) (data : Bytes), (Codec.receive codec data).1 = .error fault) ∨ s.history.Belated fault

/-- What is written to the transport is written in time. The connection does not blame the transport after it has found
another reason to close; the transport itself may, when it is lost. -/
structure WritesInTime (s : Session κ τ ω σ) : Prop where
  timely : s.history.Grounded Entry.Timely
  unasked : s.closing = false → .call .lose ∉ s.history
  placed : s.closing = true → s.lost = false → s.transport ≠ none
  spotless : s.closing = false → s.causes = []
  excused : ∃ own reported, s.causes = own ++ Option.toList reported ∧ (s.lost = false → reported = none) ∧
    ∀ fault ∈ own.tail, s.Excuses fault

def MayWrite (s : Session κ τ ω σ) : Prop := s.closing = true → s.lost = false → s.history.Farewell

omit [Codec κ] in
theorem Serving.mayWrite (h : s.Serving) : s.MayWrite := fun hclosing => Bool.noConfusion (h.2.symm.trans hclosing)

structure SparesTransport (s s' : Session κ τ ω σ) : Prop where
  transport : s'.transport = none → s.transport = none
  lost : s'.lost = s.lost
  closing : s'.closing = s.closing
  causes : s'.causes = s.causes
  history : s.history.Extends Entry.OffTransport s'.history

namespace SparesTransport

omit [Codec κ]

theorem trans (h : SparesTransport s u) (h' : SparesTransport u s') : SparesTransport s s' where
  transport := fun ht => h.transport (h'.transport ht)
  lost := h'.lost.trans h.lost
  closing := h'.closing.trans h.closing
  causes := h'.causes.trans h.causes
  history := h.history.trans h'.history

theorem of_same (ht : s'.transport = none → s.transport = none) (hlost : s'.lost = s.lost)
    (hclosing : s'.closing = s.closing) (hcauses : s'.causes = s.causes) (hh : s'.history = s.history) :
    SparesTransport s s' := ⟨ht, hlost, hclosing, hcauses, hh ▸ .refl⟩

theorem note (s : Session κ τ ω σ) (level : Log.Level) (message : Bytes) : SparesTransport s (s.note level message) :=
  ⟨id, rfl, rfl, rfl, .cons rfl .refl⟩

theorem serving (h : SparesTransport s s') (hs : s.Serving) : s'.Serving := ⟨h.lost.trans hs.1, h.closing.trans hs.2⟩

end SparesTransport

theorem Excuses.later {fault : Fault} (h : s.Excuses fault) (hh : s.history <:+ s'.history) : s'.Excuses fault :=
  fun hcode => (h hcode).imp id fun hb => hb.later hh

theorem Created.writesInTime (h : Created s) : s.WritesInTime := by
  have hhistory : s.history = [] := h.fields.2.2.2.1
  have hnew : s.closing = false ∧ s.causes = [] := by
    obtain ⟨base, codec, loop, options, lossNotice, clock, program, -, hs⟩ := h
    unfold create at hs
    dsimp only at hs
    split at hs
    · cases hs
    · cases hs
      exact ⟨rfl, rfl⟩
  constructor
  case timely => exact hhistory ▸ trivial
  case unasked => exact fun _ => hhistory ▸ List.not_mem_nil
  case placed => exact fun hclosing => Bool.noConfusion (hnew.1.symm.trans hclosing)
  case spotless => exact fun _ => hnew.2
  case excused => exact ⟨[], none, hnew.2, fun _ => rfl, fun _ hm => absurd hm List.not_mem_nil⟩

namespace WritesInTime

theorem sparesTransport (p : s.WritesInTime) (h : SparesTransport s s') : s'.WritesInTime := by
  have hsuffix := h.history.suffix
  constructor
  case timely => exact p.timely.extend h.history fun e earlier he => he.timely earlier
  case unasked =>
    intro hclosing hasked
    obtain ⟨new, hnew, hoff⟩ := h.history
    rw [hnew] at hasked
    rcases List.mem_append.1 hasked with hasked | hasked
    · cases hoff _ hasked
    · exact p.unasked (h.closing.symm.trans hclosing) hasked
  case placed =>
    exact fun hclosing hl ht => p.placed (h.closing.symm.trans hclosing) (h.lost.symm.trans hl) (h.transport ht)
  case spotless => exact fun hclosing => h.causes.trans (p.spotless (h.closing.symm.trans hclosing))
  case excused =>
    obtain ⟨own, reported, hcauses, hreported, hown⟩ := p.excused
    exact ⟨own, reported, h.causes.trans hcauses, fun hl => hreported (h.lost.symm.trans hl),
      fun fault hm => (hown fault hm).later hsuffix⟩

/-- Until the loss all causes are the connection's own. -/
theorem excuses (p : s.WritesInTime) (hl : s.lost = false) : ∀ fault ∈ s.causes.tail, s.Excuses fault := by
  obtain ⟨own, reported, hcauses, hreported, hown⟩ := p.excused
  obtain rfl := hreported hl
  rw [hcauses, Option.toList_none, List.append_nil]
  exact hown

end WritesInTime

theorem writesInTime_transportLost (hc : s.Coupled none) (hl : s.lost = false)
    (htimely : s.history.Grounded Entry.Timely)
    (hown : ∀ fault ∈ s.causes.tail, s.Excuses fault) (r : Reaction κ τ ω σ) (cause : Option Fault) :
    (s.transportLost r cause).WritesInTime := by
  obtain ⟨completions, history, notices, -, -, hh, hlost⟩ := transportLost_eq hc hl r cause
  have hoff : s.history.Extends Entry.OffTransport history := hh.imp fun _ =>
    OfLoss.unseen (fun _ => rfl) (fun _ _ => rfl) (fun _ => rfl) rfl
  rw [hlost]
  constructor
  case timely => exact htimely.extend hoff fun e earlier he => he.timely earlier
  case unasked => exact fun hclosing => Bool.noConfusion hclosing
  case placed => exact fun _ hlost => Bool.noConfusion hlost
  case spotless => exact fun hclosing => Bool.noConfusion hclosing
  case excused =>
    exact ⟨s.causes, cause, rfl, fun hlost => Bool.noConfusion hlost,
      fun fault hm => (hown fault hm).later hoff.suffix⟩

theorem WritesInTime.discard (p : s.WritesInTime) (hc : s.Coupled none) (r : Reaction κ τ ω σ) :
    (s.discard r).WritesInTime := by
  unfold Session.discard
  split
  · exact p
  · rename_i hl
    rw [Bool.not_eq_true] at hl
    exact writesInTime_transportLost hc.withoutTransport hl p.timely (p.excuses hl) r none

theorem WritesInTime.transportLost (p : s.WritesInTime) (hc : s.Coupled none) (r : Reaction κ τ ω σ)
    (cause : Option Fault) :
    (s.transportLost r cause).WritesInTime := by
  cases hl : s.lost with
  | true =>
    have hnote : s.transportLost r cause = s.note .debug (ascii "Connection already lost, ignoring") := if_pos hl
    rw [hnote]
    exact p.sparesTransport (.note s _ _)
  | false => exact writesInTime_transportLost hc hl p.timely (p.excuses hl) r cause

variable [Transport τ]

theorem path_resolved (hl : s.lost = false) (hclosing : s.closing = false) (fault : Fault) :
    Path s (s.resolved fault) := by
  have hblamed : Path s { s with causes := s.causes ++ [fault] } := .single (.blame fault hl)
  exact hblamed.tail (.closing ⟨hl, hclosing⟩)

theorem path_asked (hl : s.lost = false) (hclosing : s.closing = false) (fault : Fault) {t : τ}
    (ht : s.transport = some t) : Path s (s.asked fault t) :=
  (path_resolved hl hclosing fault).tail (.lose ht hl rfl)

theorem WritesInTime.loseWith (p : s.WritesInTime) (hc : s.Coupled none) (r : Reaction κ τ ω σ) {fault : Fault}
    (hfault : s.closing = true → s.Excuses fault) : (s.loseWith r fault).WritesInTime := by
  cases hl : s.lost with
  | true =>
    obtain ⟨message, h⟩ := loseWith_of_lost hl r fault
    rw [h]
    exact p.sparesTransport (.note s _ _)
  | false =>
    cases hclosing : s.closing with
    | true =>
      have hown := p.excuses hl
      rw [loseWith_again hl hclosing]
      refine ⟨p.timely, p.unasked, p.placed, fun hopen => Bool.noConfusion (hclosing.symm.trans hopen),
        s.causes ++ [fault], none, (List.append_nil _).symm, fun _ => rfl, fun other hm => ?_⟩
      have hother : other ∈ s.causes.tail ∨ other = fault := by
        cases hcauses : s.causes with
        | nil =>
          rw [hcauses] at hm
          exact absurd hm List.not_mem_nil
        | cons first rest =>
          rw [hcauses] at hm
          exact (List.mem_append.1 hm).imp id List.mem_singleton.1
      exact hother.elim (hown other) fun h => h ▸ hfault hclosing
    | false =>
      have hfirst : ∀ v : Session κ τ ω σ, v.causes = s.causes ++ [fault] → ∀ other ∈ v.causes.tail, v.Excuses other := by
        intro v hcauses other hm
        rw [hcauses, p.spotless hclosing] at hm
        exact absurd hm List.not_mem_nil
      cases ht : s.transport with
      | none =>
        rw [loseWith_absent hl hclosing ht]
        exact writesInTime_transportLost ((path_resolved hl hclosing fault).coupled hc) hl p.timely (hfirst _ rfl) r none
      | some t =>
        have hasked : (s.asked fault t).Coupled none := (path_asked hl hclosing fault ht).coupled hc
        have htimely : (s.asked fault t).history.Grounded Entry.Timely := ⟨trivial, p.timely⟩
        have hown := hfirst (s.asked fault t) rfl
        rw [loseWith_asked hl hclosing ht]
        split
        · exact ⟨htimely, fun hopen => Bool.noConfusion hopen, fun _ _ => Option.some_ne_none _,
            fun hopen => Bool.noConfusion hopen, _, none, (List.append_nil _).symm, fun _ => rfl, hown⟩
        · exact writesInTime_transportLost hasked hl htimely hown r none
        · exact writesInTime_transportLost hasked hl htimely hown r _

theorem WritesInTime.written (p : s.WritesInTime) (hm : s.MayWrite) (hl : s.lost = false) (t : τ) :
    (s.written t).WritesInTime := by
  have hsuffix : s.history <:+ (s.written t).history := List.suffix_cons _ _
  constructor
  case timely =>
    refine ⟨fun hasked => ?_, p.timely⟩
    cases hclosing : s.closing with
    | true => exact hm hclosing hl
    | false => exact absurd hasked (p.unasked hclosing)
  case unasked =>
    intro hclosing hasked
    rcases List.mem_cons.1 hasked with heq | hasked
    · cases heq
    · exact p.unasked hclosing hasked
  case placed => exact fun _ _ => Option.some_ne_none _
  case spotless => exact p.spotless
  case excused =>
    obtain ⟨own, reported, hcauses, hreported, hown⟩ := p.excused
    exact ⟨own, reported, hcauses, hreported, fun fault hmem => (hown fault hmem).later hsuffix⟩

theorem WritesInTime.flush (p : s.WritesInTime) (hm : s.MayWrite) (hc : s.Coupled none) (r : Reaction κ τ ω σ) :
    (s.flush r).WritesInTime := by
  have hdrained : SparesTransport s s.drained := .of_same id rfl rfl rfl rfl
  rcases flush_cases r s with ⟨-, h | ⟨message, h⟩⟩ | ⟨t, hout, ht, hl, -⟩
  · rw [h]
    exact p.sparesTransport hdrained
  · rw [h]
    exact p.sparesTransport (hdrained.trans (.note _ _ _))
  · obtain ⟨message, h⟩ := flush_eq hl ht hout r
    have hwritten := p.written hm hl t
    rw [h]
    split
    · exact hwritten
    · rename_i hret
      have hpath : Path s ((s.written t).note .error message) :=
        (Relation.ReflTransGen.single (.write hout ht hl)).trans (Path.note _ .error message)
      refine (hwritten.sparesTransport (.note _ .error message)).loseWith (hpath.coupled hc) r fun hclosing _ => Or.inr ?_
      exact ⟨[_], s.history, _, _, rfl, hret, hm hclosing hl, rfl⟩

theorem TrafficPath.sparesTransport (h : TrafficPath s s') (hc : s.Coupled none) : SparesTransport s s' := by
  have hstanding := h.standing hc
  refine ⟨fun ht => (congrArg Standing.transport hstanding).symm.trans ht, congrArg Standing.lost hstanding,
    congrArg Standing.closing hstanding, congrArg Standing.causes hstanding, ?_⟩
  clear hstanding
  induction h with
  | refl => exact .refl
  | tail hpath hmove ih =>
    have hgrowth := hmove.growth (TrafficPath.coupled hpath hc)
    exact ih.trans (hgrowth.imp fun _ => Entry.OfTraffic.offTransport)

theorem sparesTransport_acknowledgeSettings (s : Session κ τ ω σ) : SparesTransport s s.acknowledgeSettings := by
  have hacked : SparesTransport s { s with acknowledged := true } := .of_same id rfl rfl rfl rfl
  apply hacked.trans
  unfold acknowledgeSettings
  dsimp only
  split
  · exact ⟨id, rfl, rfl, rfl, .cons rfl (.cons rfl .refl)⟩
  · exact (SparesTransport.note _ _ _).trans (.note _ _ _)
  · exact .note _ _ _

theorem loseWith_last (hs : s.Serving) (hc : s.Coupled none) (r : Reaction κ τ ω σ) (fault : Fault) :
    (s.loseWith r fault).lost = true ∨ (s.loseWith r fault).history = .call .lose :: s.history := by
  cases ht : s.transport with
  | none =>
    rw [loseWith_absent hs.1 hs.2 ht]
    exact Or.inl (lost_transportLost ((path_resolved hs.1 hs.2 fault).coupled hc) r none)
  | some t =>
    have hasked : (s.asked fault t).Coupled none := (path_asked hs.1 hs.2 fault ht).coupled hc
    rw [loseWith_asked hs.1 hs.2 ht]
    split
    · exact Or.inr rfl
    · exact Or.inl (lost_transportLost hasked r none)
    · exact Or.inl (lost_transportLost hasked r _)

theorem WritesInTime.handle (p : s.WritesInTime) (hs : s.Serving) (hc : s.Coupled none) (r : Reaction κ τ ω σ)
    (event : Event) :
    ((s.enter (.dispatched event)).handle r event).WritesInTime ∧
      ((s.enter (.dispatched event)).handle r event).MayWrite := by
  have htaken : SparesTransport s (s.enter (.dispatched event)) := ⟨id, rfl, rfl, rfl, .cons rfl .refl⟩
  have hct : (s.enter (.dispatched event)).Coupled none := (Move.dispatch event hs).coupled hc
  have hkept : ∀ {u}, SparesTransport (s.enter (.dispatched event)) u → u.WritesInTime ∧ u.MayWrite := fun h =>
    ⟨p.sparesTransport (htaken.trans h), ((htaken.trans h).serving hs).mayWrite⟩
  rcases handle_cases r event hct hs with h | ⟨-, h | ⟨⟨code, last, debug, hbody⟩, message, fault, h⟩⟩
  · exact hkept (h.trafficPath.sparesTransport hct)
  · have hacked := sparesTransport_acknowledgeSettings (s.enter (.dispatched event))
    have hca := (eventless_acknowledgeSettings (s := s.enter (.dispatched event)) hs).coupled hct
    rw [h]
    exact hkept (hacked.trans ((eventlessTraffic_admitQueued r hca).trafficPath.sparesTransport hca))
  · have hnoted := htaken.trans (.note _ .warn message)
    have hcn := (Path.note _ .warn message).coupled hct
    have hopen := hnoted.serving hs
    rw [h]
    refine ⟨(p.sparesTransport hnoted).loseWith hcn r fun hclosing => Bool.noConfusion (hopen.2.symm.trans hclosing),
      fun _ hlost => ?_⟩
    obtain ⟨id, body⟩ := event
    obtain rfl : body = .terminated code last debug := hbody
    rcases loseWith_last hopen hcn r fault with hl | hlast
    · exact Bool.noConfusion (hl.symm.trans hlost)
    · exact ⟨_, id, code, last, debug, s.history, hlast⟩

theorem WritesInTime.handleAll (p : s.WritesInTime) (hm : s.MayWrite) (hc : s.Coupled none) (r : Reaction κ τ ω σ)
    (events : List Event) : (s.handleAll r events).WritesInTime ∧ (s.handleAll r events).MayWrite := by
  unfold Session.handleAll
  induction events generalizing s with
  | nil => exact ⟨p, hm⟩
  | cons event events ih =>
    rw [List.foldl_cons]
    split
    · exact ih p hm hc
    · rename_i hserving
      rw [Bool.or_eq_true, not_or, Bool.not_eq_true, Bool.not_eq_true] at hserving
      have hct : (s.enter (.dispatched event)).Coupled none := (Move.dispatch event hserving).coupled hc
      obtain ⟨p', hm'⟩ := p.handle hserving hc r event
      exact ih p' hm' ((path_handle r event hct hserving).coupled hct)

theorem WritesInTime.submit (p : s.WritesInTime) (hc : s.Coupled none) (r : Reaction κ τ ω σ) (request : Request) :
    (s.submit r request).2.WritesInTime := by
  cases h : s.refusal with
  | some cause =>
    obtain ⟨message, hsubmit⟩ := submit_of_refused r request h
    obtain ⟨history, notices, hh, hfinish⟩ := ((Path.note s .warn message).coupled hc).refuse_eq r request cause
    rw [hsubmit, hfinish]
    refine (p.sparesTransport (.note s .warn message)).sparesTransport ⟨id, rfl, rfl, rfl, ?_⟩
    exact .cons rfl (hh.imp fun _ => Entry.IsStreamLine.offTransport)
  | none =>
    have hs : s.Serving := ⟨(refusal_eq_none_iff.1 h).1, (refusal_eq_none_iff.1 h).2.1⟩
    obtain ⟨message, hsubmit⟩ := submit_of_taken r request hc h
    let taken := ((s.queued request).note .debug message).hold [s.completions.length]
    have htaken : SparesTransport s taken := ⟨id, rfl, rfl, rfl, .cons rfl .refl⟩
    have hct : taken.Coupled none :=
      ((EventlessPath.note _ .debug message).trans (EventlessTrafficPath.hold _ _).eventless).coupled (hc.queued request h)
    have hadmitted := eventlessTraffic_admitQueued r hct
    have hca := hadmitted.coupled hct
    have hspares := htaken.trans (hadmitted.trafficPath.sparesTransport hct)
    have hflushed := (p.sparesTransport hspares).flush (hspares.serving hs).mayWrite hca r
    rw [hsubmit]
    have hcf := coupled_flush hca r
    exact hflushed.sparesTransport ((eventlessTraffic_letGo _ hcf).trafficPath.sparesTransport hcf)

theorem WritesInTime.established (p : s.WritesInTime) (hc : s.Coupled none) (r : Reaction κ τ ω σ)
    {transport : Option τ}
    (hsole : ∀ t, transport = some t → s.transport = none) : (s.established r transport).WritesInTime := by
  cases transport with
  | none => exact p.sparesTransport (.note s _ _)
  | some t =>
    rcases established_cases r (some t) s with ⟨level, message, h⟩ | ⟨t', hl, h⟩
    · rw [h]
      exact p.sparesTransport (.note s _ _)
    · have hs : s.Serving := by
        refine ⟨hl, Bool.eq_false_iff.2 fun hclosing => ?_⟩
        exact p.placed hclosing hl (hsole t rfl)
      have hopening : SparesTransport s (s.opening t') :=
        ⟨fun ht => absurd ht (Option.some_ne_none t'), rfl, rfl, rfl, .cons rfl (.cons rfl .refl)⟩
      rw [h]
      exact (p.sparesTransport hopening).flush (hopening.serving hs).mayWrite ((path_opening t' hl).coupled hc) r

theorem WritesInTime.handshakeCompleted (p : s.WritesInTime) (hc : s.Coupled none) (r : Reaction κ τ ω σ) :
    (s.handshakeCompleted r).WritesInTime := by
  cases hclosing : s.closing with
  | true =>
    rw [handshakeCompleted_of_closing hclosing]
    exact p
  | false =>
    unfold Session.handshakeCompleted
    split
    · exact p
    · dsimp only
      split
      · exact p
      · refine (p.sparesTransport (.note s _ _)).loseWith ((Path.note s _ _).coupled hc) r fun h => ?_
        exact Bool.noConfusion (hclosing.symm.trans h)

/-- A connection that finds a fault sends its last output before it gives up. -/
theorem WritesInTime.flush_loseWith (p : s.WritesInTime) (hs : s.Serving) (hc : s.Coupled none) (r : Reaction κ τ ω σ)
    {fault : Fault} (hfault : ∀ u : Session κ τ ω σ, u.Excuses fault) : ((s.flush r).loseWith r fault).WritesInTime :=
  (p.flush hs.mayWrite hc r).loseWith (coupled_flush hc r) r fun _ => hfault _

theorem WritesInTime.bytesReceived (p : s.WritesInTime) (hc : s.Coupled none) (r : Reaction κ τ ω σ) (data : Bytes) :
    (s.bytesReceived r data).WritesInTime := by
  by_cases hs : s.Serving
  · have hreceived : SparesTransport s (s.received data) := ⟨id, rfl, rfl, rfl, .cons rfl .refl⟩
    have hcr : (s.received data).Coupled none := (Move.receive data hs).coupled hc
    cases hbatch : (Codec.receive s.codec data).1 with
    | ok events =>
      obtain ⟨hhandled, hm⟩ := (p.sparesTransport hreceived).handleAll (hreceived.serving hs).mayWrite hcr r events
      rw [bytesReceived_of_batch hs hbatch]
      exact hhandled.flush hm ((path_handleAll r events hcr).coupled hcr) r
    | error fault =>
      obtain ⟨message, h⟩ := bytesReceived_of_error hs hbatch r
      have hnoted := hreceived.trans (.note _ .error message)
      rw [h]
      exact (p.sparesTransport hnoted).flush_loseWith (hnoted.serving hs) ((Path.note _ .error message).coupled hcr) r
        fun _ _ => Or.inl ⟨s.codec, data, hbatch⟩
  · have hnote : ∃ message, s.bytesReceived r data = s.note .debug message := ⟨_, if_pos (out_of_service hs)⟩
    obtain ⟨message, h⟩ := hnote
    rw [h]
    exact p.sparesTransport (.note s _ _)

theorem WritesInTime.idleTimeout (p : s.WritesInTime) (hc : s.Coupled none) (r : Reaction κ τ ω σ) :
    (s.idleTimeout r).WritesInTime := by
  by_cases hs : s.Serving
  · obtain ⟨message, h⟩ := idleTimeout_eq hs r
    have hclosed : SparesTransport s ((s.note .warn message).closeCodec s.idleCode) :=
      ⟨id, rfl, rfl, rfl, .cons rfl (.cons rfl .refl)⟩
    have hpath : Path s ((s.note .warn message).closeCodec s.idleCode) :=
      (Path.note s .warn message).tail (.farewell (s := s.note .warn message) s.idleCode hs)
    rw [h]
    exact (p.sparesTransport hclosed).flush_loseWith (hclosed.serving hs) (hpath.coupled hc) r
      fun _ hcode => absurd hcode nofun
  · have hnothing : s.idleTimeout r = s := if_pos (out_of_service hs)
    rw [hnothing]
    exact p

omit [Transport τ] in
theorem WritesInTime.observe (p : s.WritesInTime) (hc : s.Coupled none) (r : Reaction κ τ ω σ) (ticket : Ticket)
    (o : ω) :
    (s.observe r ticket o).WritesInTime := by
  rcases observe_cases r ticket o hc.live with h | ⟨notices, h⟩ | ⟨c, observers, -, h⟩
  · rw [h]
    exact p
  · rw [h]
    exact p.sparesTransport (.of_same id rfl rfl rfl rfl)
  · rw [h]
    exact p.sparesTransport (.of_same id rfl rfl rfl rfl)

theorem WritesInTime.checkIdle (p : s.WritesInTime) (hc : s.Coupled none) (r : Reaction κ τ ω σ) :
    (s.checkIdle r).2.WritesInTime := by
  unfold Session.checkIdle
  split
  · exact p
  · exact p.idleTimeout hc r

theorem WritesInTime.perform (p : s.WritesInTime) (hc : s.Coupled none) (r : Reaction κ τ ω σ) {op : Operation τ ω}
    (hsole : ∀ t, op = .established (some t) → s.transport = none) : (s.perform r op).WritesInTime := by
  cases op with
  | submit request => exact p.submit hc r request
  | observe ticket observer => exact p.observe hc r ticket observer
  | established transport => exact p.established hc r fun t ht => hsole t (congrArg _ ht)
  | handshakeCompleted => exact p.handshakeCompleted hc r
  | bytesReceived data => exact p.bytesReceived hc r data
  | idleTimeout => exact p.idleTimeout hc r
  | checkIdle => exact p.checkIdle hc r
  | transportLost cause => exact p.transportLost hc r cause
  | discard => exact p.discard hc r

inductive OneTransportStep : Session κ τ ω σ → Session κ τ ω σ → Prop
  | perform {s : Session κ τ ω σ} (r : Reaction κ τ ω σ) {op : Operation τ ω}
      (h : ∀ t, op = .established (some t) → s.transport = none) : OneTransportStep s (s.perform r op)
  | drift (s : Session κ τ ω σ) (d : Drift κ τ ω σ) : OneTransportStep s (s.drift d)

abbrev OneTransportRun : Session κ τ ω σ → Session κ τ ω σ → Prop := Relation.ReflTransGen OneTransportStep

theorem OneTransportStep.step (h : OneTransportStep s s') : Step s s' := by
  cases h with
  | perform r h => exact .perform s r _
  | drift d => exact .drift s d

theorem oneTransportRun_performAll (r : Reaction κ τ ω σ) {ops : List (Operation τ ω)}
    (hops : ∀ op ∈ ops, ∀ t, op ≠ .established (some t)) (s : Session κ τ ω σ) :
    OneTransportRun s (s.performAll r ops) := by
  unfold performAll
  induction ops generalizing s with
  | nil => exact .refl
  | cons op ops ih =>
    obtain ⟨hop, hrest⟩ := List.forall_mem_cons.1 hops
    exact (ih hrest (s.perform r op)).head (.perform r fun t ht => absurd ht (hop t))

theorem OneTransportRun.run (h : OneTransportRun s s') :
    Run s s' := Relation.ReflTransGen.mono (fun _ _ => OneTransportStep.step) _ _ h

theorem OneTransportStep.writesInTime (h : OneTransportStep s s') (hc : s.Coupled none) (p : s.WritesInTime) :
    s'.WritesInTime := by
  cases h with
  | perform r h => exact p.perform hc r h
  | drift d => exact p.sparesTransport (.of_same (fun ht => Option.map_eq_none_iff.1 ht) rfl rfl rfl rfl)

theorem OneTransportRun.writesInTime (h : OneTransportRun s s') (hc : s.Coupled none) (p : s.WritesInTime) :
    s'.WritesInTime := by
  induction h with
  | refl => exact p
  | tail hrun hstep ih => exact hstep.writesInTime (Run.coupled (OneTransportRun.run hrun) hc) ih

/-! The word that comes too late. -/

omit [Codec κ] [Transport τ] in
def goawayFault (code : ErrorCode) (last : UInt32) (debug : Bytes) (s : Session κ τ ω σ) : Fault :=
  ⟨.protocolGoaway, goawayMessage s.metadata.peer.host code last debug⟩

def parted (id : UInt32) (code : ErrorCode) (last : UInt32) (debug : Bytes) (t : τ) (s : Session κ τ ω σ) :
    Session κ τ ω σ :=
  ((s.enter (.dispatched ⟨id, .terminated code last debug⟩)).note .warn
    (untilNul (goawayMessage s.metadata.peer.host code last debug))).asked (s.goawayFault code last debug) t

theorem handle_farewell (hs : s.Serving) (id : UInt32) (code : ErrorCode) (last : UInt32) (debug : Bytes) {t : τ}
    (ht : s.transport = some t) (hlater : (Transport.lose t).1 = .later) (r : Reaction κ τ ω σ) :
    (s.enter (.dispatched ⟨id, .terminated code last debug⟩)).handle r ⟨id, .terminated code last debug⟩ =
      s.parted id code last debug t := by
  let told := (s.enter (.dispatched ⟨id, .terminated code last debug⟩)).note .warn
    (untilNul (goawayMessage s.metadata.peer.host code last debug))
  have hasked := loseWith_asked (s := told) hs.1 hs.2 ht r (s.goawayFault code last debug)
  rw [hlater] at hasked
  exact hasked

/-- Output is written after the transport was asked to close; if it is refused, that is a cause besides the one there
was. -/
structure WriteAfterLose (event : Event) (fault : Fault) (bytes : Bytes) (ret : Int32) (u s : Session κ τ ω σ) :
    Prop where
  closing : s.closing = true
  lost : s.lost = false
  causes : s.causes = fault :: if ret = 0 then [] else [writeFault bytes ret]
  history : ∃ lines line, (∀ e ∈ lines, e.OffTransport) ∧
    s.history = lines ++ .call (.write bytes ret) :: .call .lose :: .log line :: .dispatched event :: u.history

theorem bytesReceived_farewell (p : s.WritesInTime) (hc : s.Coupled none) (hs : s.Serving) {data : Bytes}
    {before after : List Event} {id : UInt32} {code : ErrorCode} {last : UInt32} {debug : Bytes}
    (hbatch : (Codec.receive s.codec data).1 = .ok (before ++ ⟨id, .terminated code last debug⟩ :: after))
    (hu : u = (s.received data).handleAll r before) (hopen : u.Serving) {t : τ} (ht : u.transport = some t)
    (hlater : (Transport.lose t).1 = .later) (hout : (Codec.takeOutput u.codec).1.isEmpty = false) :
    WriteAfterLose ⟨id, .terminated code last debug⟩ (u.goawayFault code last debug) (Codec.takeOutput u.codec).1
      (answer (Transport.lose t).2 u.codec).1 u (s.bytesReceived r data) := by
  have hspotless : u.causes = [] := by
    have hreceived : SparesTransport s (s.received data) := ⟨fun ht => ht, rfl, rfl, rfl, .cons rfl .refl⟩
    have hhandled := (p.sparesTransport hreceived).handleAll (hreceived.serving hs).mayWrite
      ((Move.receive data hs).coupled hc) r before
    exact (hu ▸ hhandled.1).spotless hopen.2
  let v := u.parted id code last debug t
  have hparted : (s.received data).handleAll r (before ++ [⟨id, .terminated code last debug⟩]) = v := by
    rw [handleAll_append, ← hu]
    unfold handleAll
    rw [List.foldl_cons, List.foldl_nil, if_neg (by rw [hopen.1, hopen.2]; exact Bool.false_ne_true)]
    exact handle_farewell hopen id code last debug ht hlater r
  have hcut : s.bytesReceived r data = v.flush r := by
    rw [List.append_cons] at hbatch
    rw [← hparted]
    exact bytesReceived_cut_short hs hbatch (hparted ▸ rfl)
  have hcauses : v.causes = [u.goawayFault code last debug] := by
    change u.causes ++ [u.goawayFault code last debug] = _
    rw [hspotless, List.nil_append]
  obtain ⟨message, hflush⟩ := flush_eq (u := v) hopen.1 rfl hout r
  rw [hcut, hflush]
  split
  · rename_i htaken
    change (answer (Transport.lose t).2 u.codec).1 = 0 at htaken
    refine ⟨rfl, hopen.1, ?_, [], _, fun _ he => absurd he List.not_mem_nil, rfl⟩
    rw [if_pos htaken]
    exact hcauses
  · rename_i hrefused
    change (answer (Transport.lose t).2 u.codec).1 ≠ 0 at hrefused
    have hopen' : ((v.written (Transport.lose t).2).note .error message).lost = false := hopen.1
    rw [loseWith_again hopen' rfl]
    refine ⟨rfl, hopen.1, ?_, [_], _, fun e he => ?_, rfl⟩
    · rw [if_neg hrefused]
      exact congrArg (· ++ [_]) hcauses
    · rw [List.mem_singleton.1 he]
      rfl

/-- An operation that begins when the connection is closing leaves the transport alone and does not blame it, on any
loop. In the operation that made it close, on a loop that takes tasks, the one transport is written to after it was
asked to close in a single case: when a farewell of the peer's comes after events that left something to send. -/
theorem run_parting (h₀ : Created s₀) (h : OneTransportRun s₀ s) :
    (∀ later bytes ret earlier, s.history = later ++ .call (.write bytes ret) :: earlier →
      .call .lose ∈ earlier → History.Farewell earlier) ∧
    (∃ own reported, s.causes = own ++ Option.toList reported ∧ (s.lost = false → reported = none) ∧
      ∀ fault ∈ own.tail, s.Excuses fault) ∧
    (∀ u u' : Session κ τ ω σ, u.closing = true → Activity Demand.SparesTransport u u' → u.AsksNothing u') ∧
    ∀ (r : Reaction κ τ ω σ) data before after id code last debug, s.Serving →
      (Codec.receive s.codec data).1 = .ok (before ++ ⟨id, .terminated code last debug⟩ :: after) →
        ∀ u t, u = (s.received data).handleAll r before → u.Serving → u.transport = some t →
          (Transport.lose t).1 = .later → (Codec.takeOutput u.codec).1.isEmpty = false →
            WriteAfterLose ⟨id, .terminated code last debug⟩ (u.goawayFault code last debug) (Codec.takeOutput u.codec).1
              (answer (Transport.lose t).2 u.codec).1 u (s.bytesReceived r data) := by
  have hc := (OneTransportRun.run h).coupled h₀.coupled
  have p := OneTransportRun.writesInTime h h₀.coupled h₀.writesInTime
  refine ⟨fun later bytes ret earlier hsplit => p.timely.at hsplit, p.excused, fun _ _ hu h' => h'.asksNothing hu, ?_⟩
  intro r data before after id code last debug hs hbatch u t hu hopen ht hlater hout
  exact bytesReceived_farewell p hc hs hbatch hu hopen ht hlater hout

/-- One exchange runs and one waits. The first ends, and then the peer says farewell, all in one batch: the head of the
second request goes out after the call. The transport takes it this time, and is lost later. -/
theorem run_parting_scripted :
    ∃ (s₀ s u v s' : Session Scripted.Codec Scripted.Transport Unit Unit)
      (r : Reaction Scripted.Codec Scripted.Transport Unit Unit) (event : Event) (fault : Fault),
        Created s₀ ∧ OneTransportRun s₀ s ∧ s.Serving ∧ u = (s.received []).handleAll r [⟨1, .ended⟩] ∧
        v = s.perform r (.bytesReceived []) ∧ WriteAfterLose event fault (ascii "HEADERS(3);") 0 u v ∧
        v.causes = [fault] ∧ (∀ later bytes ret earlier, v.history = later ++ .call (.write bytes ret) :: earlier →
          .call .lose ∈ earlier → History.Farewell earlier) ∧
        v.closing = true ∧ v.lost = false ∧ Activity Demand.SparesTransport v s' ∧ s'.lost = true ∧ v.AsksNothing s' ∧
        ∃ own reported, s'.causes = own ++ Option.toList reported ∧ ∀ fault ∈ own.tail, s'.Excuses fault := by
  let request : Request := { url := ascii "https://example.com/" }
  let r : Reaction Scripted.Codec Scripted.Transport Unit Unit := ⟨fun _ _ s => s⟩
  let s₀ : Session Scripted.Codec Scripted.Transport Unit Unit :=
    fresh { localLimit := 1, arrival := .events [{ body := .settingsAcknowledged }] }
  let connected := s₀.perform r (.established (some { onLose := .later }))
  let started := connected.performAll r [.bytesReceived [], .submit request, .submit request]
  let event : Event := ⟨0, .terminated .noError 1 []⟩
  let leaving : Drift Scripted.Codec Scripted.Transport Unit Unit :=
    .scripted { localLimit := 1, arrival := .events ([⟨1, .ended⟩] ++ event :: []) }
  let s := started.drift leaving
  let u := (s.received []).handleAll r [⟨1, .ended⟩]
  let v := s.perform r (.bytesReceived [])
  let ops : List (Operation Scripted.Transport Unit) :=
    [.submit request, .idleTimeout, .bytesReceived [], .transportLost none]
  let s' := v.performAll r ops
  have hquiet : ∀ o news w, Activity Demand.SparesTransport w (r.run o news w) := fun _ _ w => .refl w
  have hstarted : OneTransportRun s₀ started :=
    (oneTransportRun_performAll r (by simp) connected).head (.perform r fun _ _ => rfl)
  have hs : OneTransportRun s₀ s := hstarted.tail (.drift started leaving)
  have hv : OneTransportRun s₀ v := hs.tail (.perform r (by simp))
  have hs' : OneTransportRun s₀ s' := hv.trans (oneTransportRun_performAll r (by simp [ops]) v)
  have hactivity : Activity Demand.SparesTransport v s' := .performAll hquiet (by simp [ops, Demand.SparesTransport]) v
  have hserving : s.Serving := by
    unfold Serving
    decide +kernel
  have hopen : u.Serving := by
    unfold Serving
    decide +kernel
  have hreport : u.transport.map (fun t => ((Transport.lose t).1, (answer (Transport.lose t).2 u.codec).1)) =
      some (.later, 0) := by decide +kernel
  have houtput : (Codec.takeOutput u.codec).1 = ascii "HEADERS(3);" := by decide +kernel
  have hleaving : v.closing = true ∧ v.lost = false := by decide +kernel
  have hgone : s'.lost = true := by decide +kernel
  obtain ⟨t, ht, hanswer⟩ := Option.map_eq_some_iff.1 hreport
  obtain ⟨hlater, hret⟩ := Prod.mk.inj hanswer
  obtain ⟨-, -, -, hbatch⟩ := run_parting (created_fresh _) hs
  have hword := hbatch r [] [⟨1, .ended⟩] [] 0 .noError 1 [] hserving rfl u t rfl hopen ht hlater (by rw [houtput]; rfl)
  rw [houtput, hret] at hword
  obtain ⟨htimely, -, hasks, -⟩ := run_parting (created_fresh _) hv
  obtain ⟨-, ⟨own, reported, hcauses, -, hown⟩, -⟩ := run_parting (created_fresh _) hs'
  exact ⟨s₀, s, u, v, s', r, event, _, created_fresh _, hs, hserving, rfl, rfl, hword, hword.causes, htimely, hleaving.1,
    hleaving.2, hactivity, hgone, hasks v s' hleaving.1 hactivity, own, reported, hcauses, hown⟩

/-- The transport does not take it, and gets the blame on top of the farewell. -/
theorem parting_word :
    ∃ (s₀ s : Session Scripted.Codec Scripted.Transport Unit Unit) (later earlier : History),
      Created s₀ ∧ OneTransportRun s₀ s ∧ s.history = later ++ .call (.write (ascii "HEADERS(3);") (-1)) :: earlier ∧
        .call .lose ∈ earlier ∧ s.causes.map (·.code) = [.protocolGoaway, .networkWriteError] := by
  let request : Request := { url := ascii "https://example.com/" }
  let r : Reaction Scripted.Codec Scripted.Transport Unit Unit := ⟨fun _ _ s => s⟩
  let s₀ : Session Scripted.Codec Scripted.Transport Unit Unit :=
    fresh { localLimit := 1, arrival := .events [{ body := .settingsAcknowledged }] }
  let connected := s₀.perform r
    (.established (some { writes := { queue := [0, 0], constant := -1 }, onLose := .later }))
  let started := connected.performAll r [.bytesReceived [], .submit request, .submit request]
  let leaving : Drift Scripted.Codec Scripted.Transport Unit Unit :=
    .scripted { localLimit := 1, arrival := .events [⟨1, .ended⟩, ⟨0, .terminated .noError 1 []⟩] }
  let s := (started.drift leaving).perform r (.bytesReceived [])
  have hstarted : OneTransportRun s₀ started :=
    (oneTransportRun_performAll r (by simp) connected).head (.perform r fun _ _ => rfl)
  have hs : OneTransportRun s₀ s := (hstarted.tail (.drift started leaving)).tail (.perform r (by simp))
  have hsplit : s.history = s.history.take 1 ++ .call (.write (ascii "HEADERS(3);") (-1)) :: s.history.drop 2 := by
    decide +kernel
  have hasked : .call .lose ∈ s.history.drop 2 := by decide +kernel
  have hcauses : s.causes.map (·.code) = [.protocolGoaway, .networkWriteError] := by decide +kernel
  exact ⟨s₀, s, _, _, created_fresh _, hs, hsplit, hasked, hcauses⟩

end Session

end Multiplex
