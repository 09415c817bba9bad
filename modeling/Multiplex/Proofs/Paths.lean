import Multiplex.Proofs.Segments

/-! Every operation of a connection is a path of moves, and what it does for its exchanges is traffic. The events of a
batch apart, it is eventless. -/
namespace Multiplex.Session

open Bytes Wire

variable {κ τ ω σ : Type} [Codec κ] [Transport τ] {s s' s'' : Session κ τ ω σ} {e : Registry.Entry Stream}

theorem TrafficPath.coupled (h : TrafficPath s s') (hc : s.Coupled none) : s'.Coupled none := by
  induction h with
  | refl => exact hc
  | tail _ hmove ih => exact hmove.coupled ih

theorem TrafficPath.standing (h : TrafficPath s s') (hc : s.Coupled none) : s'.standing = s.standing := by
  induction h with
  | refl => rfl
  | tail hpath hmove ih => exact (hmove.standing (TrafficPath.coupled hpath hc)).trans ih

theorem TrafficPath.path (h : TrafficPath s s') : Path s s' := by
  induction h with
  | refl => exact .refl
  | tail _ hmove ih => exact ih.tail (.traffic hmove)

omit [Codec κ] [Transport τ] in
theorem Serving.of_standing (h : s.Serving) (hs : s'.standing = s.standing) : s'.Serving :=
  ⟨(congrArg (·.lost) hs).trans h.1, (congrArg (·.closing) hs).trans h.2⟩

theorem TrafficPath.serving (h : TrafficPath s s') (hc : s.Coupled none) (hs : s.Serving) : s'.Serving :=
  hs.of_standing (h.standing hc)

theorem EventlessTrafficPath.coupled (h : EventlessTrafficPath s s') (hc : s.Coupled none) :
    s'.Coupled none := TrafficPath.coupled h.trafficPath hc

theorem EventlessPath.coupled (h : EventlessPath s s') (hc : s.Coupled none) : s'.Coupled none := Path.coupled h.path hc

theorem EventlessPath.note (s : Session κ τ ω σ) (level : Log.Level) (message : Bytes) :
    EventlessPath s (s.note level message) :=
  (EventlessTrafficPath.note s level message).eventless

theorem Path.note (s : Session κ τ ω σ) (level : Log.Level) (message : Bytes) : Path s (s.note level message) :=
  (EventlessPath.note s level message).path

theorem Segments.path (h : Segments s s') : Path s s' := by
  induction h with
  | refl => exact .refl
  | tail _ hsegment ih =>
    cases hsegment with
    | eventless h => exact ih.trans h.path
    | event event hs h => exact (ih.tail (.dispatch event hs)).trans (TrafficPath.path h.trafficPath)

theorem Segments.coupled (h : Segments s s') (hc : s.Coupled none) :
    s'.Coupled none := Path.coupled (Segments.path h) hc

/-! Working on exchanges. -/

theorem eventlessTraffic_admitUpTo (r : Reaction κ τ ω σ) (n : Nat) (hc : s.Coupled none) :
    EventlessTrafficPath s (s.admitUpTo r n) := by
  induction n generalizing s with
  | zero => exact .refl s
  | succ n ih =>
    unfold admitUpTo
    split
    · rename_i hcan
      obtain ⟨e, _, rest, _, _, hnext⟩ := hc.head hcan
      have hstart := EventlessTrafficPath.single (.start r hcan hnext)
      rw [hnext]
      exact hstart.trans (ih (hstart.coupled hc))
    · exact .refl s

theorem eventlessTraffic_admitQueued (r : Reaction κ τ ω σ) (hc : s.Coupled none) :
    EventlessTrafficPath s (s.admitQueued r) := by
  unfold admitQueued
  split
  · exact .refl s
  · have hgate : EventlessTrafficPath s { s with admitting := true } := .gate s true
    exact (hgate.trans (eventlessTraffic_admitUpTo r _ (hgate.coupled hc))).trans (.gate _ false)

theorem step_eq (r : Reaction κ τ ω σ) (ticket : Ticket) (act : Metadata → Turn κ → Turn κ)
    (s : Session κ τ ω σ) : s.step r ticket act =
      if (s.turn r ticket act).1 then (s.turn r ticket act).2.admitQueued r else (s.turn r ticket act).2 := by
  unfold step
  split
  · rename_i h
    rw [h, if_pos rfl]
  · rename_i h
    rw [h, if_neg Bool.false_ne_true]

theorem eventlessTraffic_step (r : Reaction κ τ ω σ) (ticket : Ticket) (act : Metadata → Turn κ → Turn κ)
    (hc : (s.turn r ticket act).2.Coupled none) :
    EventlessTrafficPath (s.turn r ticket act).2 (s.step r ticket act) := by
  rw [step_eq]
  split
  · exact eventlessTraffic_admitQueued r hc
  · exact .refl _

omit [Codec κ] [Transport τ] in
theorem mem_of_find {id : UInt32} {stream : Stream} (h : s.registry.find id = some stream) :
    ∃ e ∈ s.registry.entries, e.id = id ∧ e.item = stream := by
  unfold Registry.find at h
  obtain ⟨e, he, rfl⟩ := Option.map_eq_some_iff.1 h
  obtain ⟨hmem, hid⟩ := Registry.mem_of_findEntry he
  exact ⟨e, hmem, hid, rfl⟩

omit [Codec κ] [Transport τ] in
theorem ne_of_find {id : UInt32} (h : s.registry.find id = none) : ∀ x ∈ s.registry.entries, x.id ≠ id :=
  Registry.findEntry_eq_none_iff.1 (Option.map_eq_none_iff.1 h)

omit [Codec κ] [Transport τ] in
theorem find_of_remove {id : UInt32} {registry : Registry Stream} (h : s.registry.remove id = (none, registry)) :
    s.registry.find id = none :=
  Option.map_eq_none_iff.2 (Registry.findEntry_eq_none_iff.2 (Registry.ne_of_remove h))

omit [Codec κ] [Transport τ] in
theorem Coupled.mem_of_streamOf (hc : s.Coupled none) {ticket : Ticket} {stream : Stream}
    (h : s.streamOf ticket = some stream) : ∃ e ∈ s.registry.entries, e.item.ticket = ticket := by
  unfold streamOf at h
  rw [hc.detached, List.find?_nil, Option.or_none] at h
  obtain ⟨e, he, rfl⟩ := List.mem_map.1 (List.mem_of_find?_eq_some h)
  have hticket := List.find?_some h
  exact ⟨e, he, beq_iff_eq.1 hticket⟩

omit [Codec κ] [Transport τ] in
theorem letGo_eq (ticket : Ticket) (hd : s.detached = []) :
    s.letGo ticket = { s with held := s.held.erase ticket } := by
  unfold letGo
  dsimp only
  split
  · rfl
  · split
    · rfl
    · rename_i hfind
      rw [show s.detached = [] from hd] at hfind
      cases hfind

theorem eventlessTraffic_letGo (ticket : Ticket) (hc : s.Coupled none) : EventlessTrafficPath s (s.letGo ticket) := by
  rw [letGo_eq ticket hc.detached]
  exact .hold s _

theorem eventlessTraffic_foldl {α : Type} {f : Session κ τ ω σ → α → Session κ τ ω σ}
    (hf : ∀ {s : Session κ τ ω σ}, s.Coupled none → s.Serving → ∀ a, EventlessTrafficPath s (f s a)) (as : List α)
    (hc : s.Coupled none) (hs : s.Serving) : EventlessTrafficPath s (as.foldl f s) := by
  induction as generalizing s with
  | nil => exact .refl s
  | cons a as ih =>
    have hfirst := hf hc hs a
    exact hfirst.trans (ih (hfirst.coupled hc) (TrafficPath.serving hfirst.trafficPath hc hs))

def resume (r : Reaction κ τ ω σ) (s : Session κ τ ω σ) (ticket : Ticket) : Session κ τ ω σ :=
  match s.streamOf ticket with
  | none => s
  | some stream => if stream.isClosed then s else s.step r ticket Turn.receiveWindowUpdate

theorem resumeAll_eq (r : Reaction κ τ ω σ) (s : Session κ τ ω σ) : s.resumeAll r =
    s.registry.tickets.foldl (fun s ticket => s.letGo ticket)
      (s.registry.tickets.foldl (resume r) (s.hold s.registry.tickets)) := rfl

theorem eventlessTraffic_window (r : Reaction κ τ ω σ) (hc : s.Coupled none) (hs : s.Serving)
    (he : e ∈ s.registry.entries) : EventlessTrafficPath s (s.step r e.item.ticket Turn.receiveWindowUpdate) := by
  have hturn : EventlessTrafficPath s (s.turn r e.item.ticket Turn.receiveWindowUpdate).2 :=
    .single (.window r hs he)
  exact hturn.trans (eventlessTraffic_step r _ _ (hturn.coupled hc))

theorem eventlessTraffic_resume (r : Reaction κ τ ω σ) (hc : s.Coupled none) (hs : s.Serving) (ticket : Ticket) :
    EventlessTrafficPath s (s.resume r ticket) := by
  unfold resume
  split
  · exact .refl s
  · rename_i stream hstream
    split
    · exact .refl s
    · obtain ⟨e, he, rfl⟩ := hc.mem_of_streamOf hstream
      exact eventlessTraffic_window r hc hs he

theorem eventlessTraffic_resumeAll (r : Reaction κ τ ω σ) (hc : s.Coupled none) (hs : s.Serving) :
    EventlessTrafficPath s (s.resumeAll r) := by
  rw [resumeAll_eq]
  have hhold : EventlessTrafficPath s (s.hold s.registry.tickets) := .hold s _
  have hwork := hhold.trans
    (eventlessTraffic_foldl (eventlessTraffic_resume r) s.registry.tickets (hhold.coupled hc) hs)
  have hdone := eventlessTraffic_foldl (fun hc _ ticket => eventlessTraffic_letGo ticket hc) s.registry.tickets
    (hwork.coupled hc) (TrafficPath.serving hwork.trafficPath hc hs)
  exact hwork.trans hdone

/-! Events about one exchange. -/

def Handles (event : Event) (s s' : Session κ τ ω σ) : Prop := ∃ u, EventTraffic event s u ∧ EventlessTrafficPath u s'

theorem Handles.trafficPath {event : Event} (h : Handles event s s') : TrafficPath s s' := by
  obtain ⟨u, hevent, hafter⟩ := h
  exact hevent.trafficPath.trans hafter.trafficPath

theorem handles_withStream (event : Event)
    {act : Stream → Session κ τ ω σ → Session κ τ ω σ} {otherwise : Session κ τ ω σ → Session κ τ ω σ}
    (hact : ∀ e ∈ s.registry.entries, e.id = event.stream → Handles event s (act e.item s))
    (hnone : ∀ message, s.registry.find event.stream = none → Handles event s (otherwise (s.note .warn message))) :
    Handles event s (s.withStream event act otherwise) := by
  unfold withStream
  split
  · rename_i stream hfind
    obtain ⟨e, he, hid, rfl⟩ := mem_of_find hfind
    exact hact e he hid
  · rename_i hfind
    exact hnone _ hfind

theorem handles_ignored (event : Event) (hdata : ∀ bytes length, event.body ≠ .data bytes length)
    (hnone : s.registry.find event.stream = none) (message : Bytes) : Handles event s (s.note .warn message) :=
  ⟨_, .ignored hdata hnone message, .refl _⟩

theorem handles_stray (event : Event) {bytes : Bytes} {length : Nat} (hbody : event.body = .data bytes length)
    (hs : s.Serving) (hnone : s.registry.find event.stream = none) (message : Bytes) :
    Handles event s (({ s.note .warn message with
      codec := Codec.acknowledge s.codec length event.stream } : Session κ τ ω σ).enter
        (.call (.acknowledge event.stream length))) :=
  ⟨_, .stray hbody hs hnone message, .refl _⟩

theorem handles_concludeStream (r : Reaction κ τ ω σ) (event : Event) (hc : s.Coupled none)
    (hdata : ∀ bytes length, event.body ≠ .data bytes length)
    {act : Stream → Session κ τ ω σ → Session κ τ ω σ}
    (hact : ∀ e ∈ s.registry.entries, e.id = event.stream →
      EventTraffic event s (act e.item { s with registry := (s.registry.remove e.id).2 })) :
    Handles event s (s.concludeStream r event act) := by
  unfold concludeStream
  split
  · rename_i stream registry hremove
    obtain ⟨e, he, hid, rfl⟩ := Registry.mem_of_remove hremove
    have hended := hact e he hid
    rw [hid, hremove] at hended
    exact ⟨_, hended, eventlessTraffic_admitQueued r (TrafficPath.coupled hended.trafficPath hc)⟩
  · rename_i hremove
    exact handles_ignored event hdata (find_of_remove hremove) _

theorem handles_step (r : Reaction κ τ ω σ) (ticket : Ticket) {act : Metadata → Turn κ → Turn κ} {event : Event}
    (hc : s.Coupled none) (h : EventTraffic event s (s.turn r ticket act).2) :
    Handles event s (s.step r ticket act) :=
  ⟨_, h, eventlessTraffic_step r ticket act (TrafficPath.coupled h.trafficPath hc)⟩

/-! Operations of the connection. -/

def acknowledgeSettings (s : Session κ τ ω σ) : Session κ τ ω σ :=
  let s := { s with acknowledged := true }
  let s :=
    match s.transport.map Transport.certificate with
    | some (.shown c) =>
      { s with metadata.certificate := some c }.note .debug (ascii "Peer certificate: " ++ untilNul c.subject)
    | some (.unreadable why) => s.note .warn (ascii "Failed to parse peer certificate: " ++ untilNul why)
    | _ => s
  s.note .info (ascii "Settings acknowledged by " ++ s.peerText ++ ascii ", allowed concurrent streams="
    ++ Decimal.write s.streamLimit)

theorem settingsAcknowledged_eq (r : Reaction κ τ ω σ) (s : Session κ τ ω σ) :
    s.settingsAcknowledged r = s.acknowledgeSettings.admitQueued r := rfl

theorem eventless_acknowledgeSettings (hs : s.Serving) : EventlessPath s s.acknowledgeSettings := by
  have hacked : EventlessPath s { s with acknowledged := true } := .own (.acknowledged hs) .refl
  apply hacked.trans
  unfold acknowledgeSettings
  dsimp only
  split
  · rename_i c _
    have hshown : EventlessPath { s with acknowledged := true }
        { s with acknowledged := true, metadata.certificate := some c } := .own (.certified c hs) .refl
    exact (hshown.trans (.note _ _ _)).trans (.note _ .info _)
  · exact (EventlessPath.note _ _ _).trans (.note _ .info _)
  · exact .note _ .info _

theorem eventless_transportLost (hc : s.Coupled none) (r : Reaction κ τ ω σ) (cause : Option Fault) :
    EventlessPath s (s.transportLost r cause) := by
  cases hl : s.lost with
  | true =>
    have hnote : s.transportLost r cause = s.note .debug (ascii "Connection already lost, ignoring") := if_pos hl
    rw [hnote]
    exact .note s _ _
  | false => exact .lost hc hl r cause

structure Closes (fault : Fault) (s u : Session κ τ ω σ) : Prop where
  eventless : EventlessPath s u
  lost : u.lost = false
  closing : u.closing = true
  causes : u.causes = s.causes ++ [fault]
  registry : u.registry = s.registry
  codec : u.codec = s.codec
  admitting : u.admitting = s.admitting

theorem loseWith_cases (r : Reaction κ τ ω σ) (fault : Fault) (s : Session κ τ ω σ) :
    (s.lost = true ∧ ∃ message, s.loseWith r fault = s.note .debug message) ∨
      ∃ u, Closes fault s u ∧
        (s.loseWith r fault = u ∨ ∃ reported, s.loseWith r fault = u.transportLost r reported) := by
  unfold loseWith
  split
  · rename_i hl
    exact Or.inl ⟨hl, _, rfl⟩
  · rename_i hl
    rw [Bool.not_eq_true] at hl
    refine Or.inr ?_
    let blamed : Session κ τ ω σ := { s with causes := s.causes ++ [fault] }
    have hblamed : EventlessPath s blamed := .own (.blame fault hl) .refl
    dsimp only
    split
    · rename_i hclosing
      exact ⟨blamed, ⟨hblamed, hl, hclosing, rfl, rfl, rfl, rfl⟩, Or.inl rfl⟩
    · rename_i hclosing
      rw [Bool.not_eq_true] at hclosing
      let closed : Session κ τ ω σ := { blamed with closing := true, idle := blamed.idle.cancel }
      have hclosed : EventlessPath s closed := hblamed.trans (.own (.closing ⟨hl, hclosing⟩) .refl)
      split
      · exact ⟨closed, ⟨hclosed, hl, rfl, rfl, rfl, rfl, rfl⟩, Or.inr ⟨none, rfl⟩⟩
      · rename_i t ht
        let asked : Session κ τ ω σ :=
          ({ closed with transport := some (Transport.lose t).2 } : Session κ τ ω σ).enter (.call .lose)
        have hasked : EventlessPath s asked := hclosed.trans (.own (.lose ht hl rfl) (.cons trivial .refl))
        refine ⟨asked, ⟨hasked, hl, rfl, rfl, rfl, rfl, rfl⟩, ?_⟩
        split
        · exact Or.inl rfl
        · exact Or.inr ⟨none, rfl⟩
        · exact Or.inr ⟨_, rfl⟩

theorem eventless_loseWith (hc : s.Coupled none) (r : Reaction κ τ ω σ) (cause : Fault) :
    EventlessPath s (s.loseWith r cause) := by
  rcases loseWith_cases r cause s with ⟨-, message, h⟩ | ⟨u, hu, h | ⟨reported, h⟩⟩
  · rw [h]
    exact .note s .debug message
  · rw [h]
    exact hu.eventless
  · rw [h]
    exact hu.eventless.trans (eventless_transportLost (hu.eventless.coupled hc) r reported)

/-- An event has its part and traffic of exchanges follows, or it acknowledges the settings, or it is a farewell and
ends the connection. -/
theorem handle_cases (r : Reaction κ τ ω σ) (event : Event) (hc : s.Coupled none) (hs : s.Serving) :
    Handles event s (s.handle r event) ∨ EventTraffic event s s ∧
      (s.handle r event = s.acknowledgeSettings.admitQueued r ∨
        (∃ code last debug, event.body = .terminated code last debug) ∧
          ∃ message cause, s.handle r event = (s.note .warn message).loseWith r cause) := by
  have hskip : ∀ {body : EventBody}, event.body = body → (∀ bytes length, body ≠ .data bytes length) →
      ∀ message, s.registry.find event.stream = none → Handles event s (id (s.note .warn message)) :=
    fun hbody hdata message hnone => handles_ignored event (hbody ▸ hdata) hnone message
  unfold handle
  split
  · rename_i fields hbody
    exact Or.inl (handles_withStream event (fun e he hid => handles_step r _ hc (.head r hbody hs he hid))
      (hskip hbody fun _ _ => EventBody.noConfusion))
  · rename_i bytes n hbody
    exact Or.inl (handles_withStream event (fun e he hid => handles_step r _ hc (.data r hbody hs he hid))
      fun message hnone => handles_stray event hbody hs hnone message)
  · rename_i hbody
    have hdata : ∀ bytes length, event.body ≠ .data bytes length := fun _ _ => hbody ▸ EventBody.noConfusion
    exact Or.inl (handles_concludeStream r event hc hdata fun e he hid => .ended r hbody hs he hid)
  · rename_i code hbody
    have hdata : ∀ bytes length, event.body ≠ .data bytes length := fun _ _ => hbody ▸ EventBody.noConfusion
    exact Or.inl (handles_concludeStream r event hc hdata fun e he hid => .reset r hbody hs he hid _)
  · rename_i hbody
    have hevent : EventTraffic event s s := .pass hbody rfl
    split
    · exact Or.inl ⟨s, hevent, eventlessTraffic_resumeAll r hc hs⟩
    · exact Or.inl (handles_withStream event (fun e he _ => ⟨s, hevent, eventlessTraffic_window r hc hs he⟩)
        (hskip hbody fun _ _ => EventBody.noConfusion))
  · rename_i hbody
    exact Or.inr ⟨.pass hbody rfl, Or.inl (settingsAcknowledged_eq r s)⟩
  · rename_i hbody
    exact Or.inl ⟨s, .pass hbody rfl, eventlessTraffic_admitQueued r hc⟩
  · rename_i hbody
    exact Or.inr ⟨.pass hbody rfl, Or.inr ⟨⟨_, _, _, hbody⟩, _, _, rfl⟩⟩
  · rename_i hbody
    exact Or.inl ⟨s, .pass hbody rfl, .note s _ _⟩
  · rename_i hbody
    exact Or.inl ⟨s, .pass hbody rfl, .refl s⟩

theorem handle_eventTraffic (r : Reaction κ τ ω σ) (event : Event) (hc : s.Coupled none) (hs : s.Serving) :
    ∃ u, EventTraffic event s u ∧ EventlessPath u (s.handle r event) := by
  rcases handle_cases r event hc hs with ⟨u, hevent, h⟩ | ⟨hevent, h | ⟨-, message, cause, h⟩⟩
  · exact ⟨u, hevent, h.eventless⟩
  · have hacked := eventless_acknowledgeSettings hs
    rw [h]
    exact ⟨s, hevent, hacked.trans (eventlessTraffic_admitQueued r (hacked.coupled hc)).eventless⟩
  · have hnote := EventlessPath.note s .warn message
    rw [h]
    exact ⟨s, hevent, hnote.trans (eventless_loseWith (hnote.coupled hc) r cause)⟩

theorem path_handle (r : Reaction κ τ ω σ) (event : Event) (hc : s.Coupled none) (hs : s.Serving) :
    Path s (s.handle r event) := by
  obtain ⟨u, hevent, hafter⟩ := handle_eventTraffic r event hc hs
  exact (TrafficPath.path hevent.trafficPath).trans hafter.path

theorem segments_handleAll (r : Reaction κ τ ω σ) (events : List Event) (hc : s.Coupled none) :
    Segments s (s.handleAll r events) := by
  unfold handleAll
  induction events generalizing s with
  | nil => exact .refl
  | cons event rest ih =>
    rw [List.foldl_cons]
    split
    · exact ih hc
    · rename_i hserving
      rw [Bool.or_eq_true, not_or, Bool.not_eq_true, Bool.not_eq_true] at hserving
      have hentered : (s.enter (.dispatched event)).Coupled none := (Move.dispatch event hserving).coupled hc
      obtain ⟨u, hevent, hafter⟩ := handle_eventTraffic r event hentered hserving
      have hhandled : Segments s _ := (hevent.segments hserving).trans hafter.segments
      exact hhandled.trans (ih (Segments.coupled hhandled hc))

theorem path_handleAll (r : Reaction κ τ ω σ) (events : List Event) (hc : s.Coupled none) :
    Path s (s.handleAll r events) := Segments.path (segments_handleAll r events hc)

theorem flush_cases (r : Reaction κ τ ω σ) (s : Session κ τ ω σ) :
    (((Codec.takeOutput s.codec).1.isEmpty = true ∨ s.transport = none ∨ s.lost = true) ∧
      (s.flush r = s.drained ∨ ∃ message, s.flush r = s.drained.note .debug message)) ∨
    ∃ t, (Codec.takeOutput s.codec).1.isEmpty = false ∧ s.transport = some t ∧ s.lost = false ∧
      (s.flush r = s.written t ∨
        ∃ message cause, s.flush r = ((s.written t).note .error message).loseWith r cause) := by
  unfold flush
  dsimp only
  split
  · rename_i hempty
    exact Or.inl ⟨Or.inl hempty, Or.inl rfl⟩
  · rename_i hsome
    rw [Bool.not_eq_true] at hsome
    split
    · rename_i hnone
      refine Or.inl ⟨Or.inr ?_, Or.inr ⟨_, rfl⟩⟩
      cases ht : s.transport with
      | none => exact Or.inl rfl
      | some t =>
        apply Or.inr
        simpa [ht] using hnone
    · rename_i t ht
      rw [Option.filter_eq_some_iff, Bool.not_eq_true'] at ht
      refine Or.inr ⟨t, hsome, ht.1, ht.2, ?_⟩
      unfold written
      dsimp only
      split
      · exact Or.inl rfl
      · exact Or.inr ⟨_, _, rfl⟩

theorem eventless_flush (r : Reaction κ τ ω σ) (hc : s.Coupled none) : EventlessPath s (s.flush r) := by
  rcases flush_cases r s with ⟨hnowhere, h | ⟨message, h⟩⟩ | ⟨t, hsome, ht, hl, h | ⟨message, cause, h⟩⟩
  · rw [h]
    exact .own (.drain hnowhere) .refl
  · have hdrained : EventlessPath s s.drained := .own (.drain hnowhere) .refl
    rw [h]
    exact hdrained.trans (.note s.drained .debug message)
  · rw [h]
    exact .own (.write hsome ht hl) (.cons trivial .refl)
  · have hwritten : EventlessPath s (s.written t) := .own (.write hsome ht hl) (.cons trivial .refl)
    have hnoted := hwritten.trans (.note _ .error message)
    rw [h]
    exact hnoted.trans (eventless_loseWith (hnoted.coupled hc) r cause)

theorem coupled_flush (hc : s.Coupled none) (r : Reaction κ τ ω σ) : (s.flush r).Coupled none :=
  (eventless_flush r hc).coupled hc

theorem eventless_discard (r : Reaction κ τ ω σ) (hc : s.Coupled none) : EventlessPath s (s.discard r) := by
  unfold discard
  split
  · exact .refl s
  · rename_i hl
    rw [Bool.not_eq_true] at hl
    exact .discard hc hl r

theorem submit_of_refused (r : Reaction κ τ ω σ) (request : Request) {cause : Fault} (h : s.refusal = some cause) :
    ∃ message, (s.submit r request).2 = (s.note .warn message).issueTicket.2.finish r
      (Stream.new 0 (s.note .warn message).issueTicket.1 request (s.note .warn message).metadata) .inactive
        [cause] := by
  have h' : s.issueTicket.2.refusal = some cause := h
  unfold submit
  dsimp only
  rw [h']
  exact ⟨_, rfl⟩

theorem submit_of_above (r : Reaction κ τ ω σ) (request : Request)
    (habove : ∀ e ∈ s.registry.entries, e.id < s.nextId) (h : s.refusal = none) :
    ∃ message, (s.submit r request).2 =
      (((((s.queued request).note .debug message).hold [s.completions.length]).admitQueued r).flush r).letGo
        s.completions.length := by
  have h' : s.issueTicket.2.refusal = none := h
  unfold submit
  dsimp only
  rw [h']
  dsimp only [issueTicket]
  rw [Registry.add_of_above _ habove]
  exact ⟨_, rfl⟩

theorem submit_of_taken (r : Reaction κ τ ω σ) (request : Request) (hc : s.Coupled none) (h : s.refusal = none) :
    ∃ message, (s.submit r request).2 =
      (((((s.queued request).note .debug message).hold [s.completions.length]).admitQueued r).flush r).letGo
        s.completions.length := submit_of_above r request hc.fresh h

theorem eventless_submit_of_taken (r : Reaction κ τ ω σ) (request : Request) (hc : s.Coupled none)
    (h : s.refusal = none) : EventlessPath (s.queued request) (s.submit r request).2 := by
  obtain ⟨message, hsubmit⟩ := submit_of_taken r request hc h
  rw [hsubmit]
  have hqueued := hc.queued request h
  have hheld : EventlessPath (s.queued request)
      (((s.queued request).note .debug message).hold [s.completions.length]) :=
    (EventlessPath.note (s.queued request) .debug message).trans (EventlessTrafficPath.hold _ _).eventless
  have hdone := hheld.trans (eventlessTraffic_admitQueued r (hheld.coupled hqueued)).eventless
  have hflushed := hdone.trans (eventless_flush r (hdone.coupled hqueued))
  exact hflushed.trans (eventlessTraffic_letGo _ (hflushed.coupled hqueued)).eventless

theorem eventless_submit_of_refused (r : Reaction κ τ ω σ) (request : Request) (hc : s.Coupled none) {cause : Fault}
    (h : s.refusal = some cause) : EventlessPath s (s.submit r request).2 := by
  obtain ⟨message, hsubmit⟩ := submit_of_refused r request h
  have hnote := EventlessPath.note s .warn message
  rw [hsubmit]
  exact hnote.trans (.refuse (hnote.coupled hc) r request h)

def opening (t : τ) (s : Session κ τ ω σ) : Session κ τ ω σ :=
  let s := { s with transport := some t, idle := s.idle.start s.clock, metadata.peer := Transport.peer t }
  let s := s.note .info (ascii "Connection made to " ++ s.peerText)
  { s with codec := Codec.initiate s.codec s.options.settings }.enter (.call (.initiate s.options.settings))

theorem established_eq (r : Reaction κ τ ω σ) (t : τ) (hl : s.lost = false) :
    s.established r (some t) = (s.opening t).flush r := if_neg (Bool.eq_false_iff.1 hl)

theorem eventless_opening (t : τ) (hl : s.lost = false) :
    EventlessPath { s with transport := some t, idle := s.idle.start s.clock, metadata.peer := Transport.peer t }
      (s.opening t) :=
  (EventlessPath.note _ .info _).trans (.own (.initiate hl) (.cons trivial .refl))

theorem path_opening (t : τ) (hl : s.lost = false) : Path s (s.opening t) :=
  (eventless_opening t hl).path.head (.establish t hl)

theorem established_cases (r : Reaction κ τ ω σ) (transport : Option τ) (s : Session κ τ ω σ) :
    (∃ level message, s.established r transport = s.note level message) ∨
      ∃ t, s.lost = false ∧ s.established r transport = (s.opening t).flush r := by
  cases transport with
  | none => exact Or.inl ⟨_, _, rfl⟩
  | some t =>
    cases hl : s.lost with
    | true => exact Or.inl ⟨_, _, if_pos hl⟩
    | false => exact Or.inr ⟨t, rfl, established_eq r t hl⟩

theorem eventless_handshakeCompleted (r : Reaction κ τ ω σ) (hc : s.Coupled none) :
    EventlessPath s (s.handshakeCompleted r) := by
  unfold handshakeCompleted
  split
  · exact .refl s
  · dsimp only
    split
    · exact .refl s
    · have hnote := EventlessPath.note s .error
      exact (hnote _).trans (eventless_loseWith ((hnote _).coupled hc) r _)

theorem bytesReceived_of_batch (hs : s.Serving) {data : Bytes} {events : List Event}
    (hbatch : (Codec.receive s.codec data).1 = .ok events) (r : Reaction κ τ ω σ) :
    s.bytesReceived r data = ((s.received data).handleAll r events).flush r := by
  unfold bytesReceived
  rw [if_neg (in_service hs)]
  dsimp only
  rw [hbatch]
  rfl

theorem segments_bytesReceived (r : Reaction κ τ ω σ) (data : Bytes) (hc : s.Coupled none) :
    Segments s (s.bytesReceived r data) := by
  unfold bytesReceived
  split
  · exact (EventlessPath.note s _ _).segments
  · rename_i hserving
    rw [Bool.or_eq_true, not_or, Bool.not_eq_true, Bool.not_eq_true] at hserving
    have hreceived : EventlessPath s (s.received data) :=
      .own (.receive data hserving) (.cons trivial .refl)
    dsimp only
    split
    · rename_i events _
      have hhandled : Segments s _ := hreceived.segments.trans (segments_handleAll r events (hreceived.coupled hc))
      exact hhandled.trans (eventless_flush r (Segments.coupled hhandled hc)).segments
    · rename_i fault _
      have hnoted := fun message => hreceived.trans (EventlessPath.note _ .error message)
      have hflushed := fun message => (hnoted message).trans (eventless_flush r ((hnoted message).coupled hc))
      exact ((hflushed _).trans (eventless_loseWith ((hflushed _).coupled hc) r _)).segments

theorem eventless_idleTimeout (r : Reaction κ τ ω σ) (hc : s.Coupled none) : EventlessPath s (s.idleTimeout r) := by
  unfold idleTimeout
  split
  · exact .refl s
  · rename_i hserving
    rw [Bool.or_eq_true, not_or, Bool.not_eq_true, Bool.not_eq_true] at hserving
    have hfarewell : ∀ message code, EventlessPath s ((s.note .warn message).closeCodec code) := fun message code =>
      (EventlessPath.note s .warn message).trans (.own (.farewell code hserving) (.cons trivial .refl))
    have hflushed : ∀ message code, EventlessPath s (((s.note .warn message).closeCodec code).flush r) :=
      fun message code => (hfarewell message code).trans (eventless_flush r ((hfarewell message code).coupled hc))
    exact (hflushed _ _).trans (eventless_loseWith ((hflushed _ _).coupled hc) r _)

theorem eventless_checkIdle (r : Reaction κ τ ω σ) (hc : s.Coupled none) : EventlessPath s (s.checkIdle r).2 := by
  unfold checkIdle
  split
  · exact .refl s
  · exact eventless_idleTimeout r hc

omit [Codec κ] [Transport τ] in
theorem observe_cases (r : Reaction κ τ ω σ) (ticket : Ticket) (o : ω) (hl : s.loop.stopped = false) :
    s.observe r ticket o = s ∨ (∃ notices, s.observe r ticket o = s.notify notices) ∨
      ∃ c observers, s.completions[ticket]? = some c ∧
        s.observe r ticket o = { s with completions := s.completions.set ticket { c with observers } } := by
  unfold observe
  split
  · exact Or.inl rfl
  · rename_i c hcompletion
    cases hv : c.value with
    | none =>
      have hwait : c.observe o = (none, { c with observers := c.observers ++ [o] }) := by
        unfold Completion.observe
        rw [hv]
      rw [hwait]
      exact Or.inr (Or.inr ⟨c, _, hcompletion, rfl⟩)
    | some outcome =>
      have htold : c.observe o = (some outcome, c) := by
        unfold Completion.observe
        rw [hv]
      have htell : s.tell r ⟨o, .settled ticket outcome⟩ = s.notify [⟨o, .settled ticket outcome⟩] :=
        tellAll_eq hl [o] _
      rw [htold]
      exact Or.inr (Or.inl ⟨_, htell⟩)

theorem eventless_observe (r : Reaction κ τ ω σ) (ticket : Ticket) (o : ω) (hc : s.Coupled none) :
    EventlessPath s (s.observe r ticket o) := by
  rcases observe_cases r ticket o hc.live with h | ⟨notices, h⟩ | ⟨c, observers, hcompletion, h⟩
  · rw [h]
    exact .refl s
  · rw [h]
    exact .own (.notify s notices) .refl
  · rw [h]
    exact .own (.observe observers hcompletion) .refl

end Multiplex.Session
