import Multiplex.Proofs.Activity

/-! What a connection does at its codec and its transport, on any loop. A stopped loop tells observers in the middle of
an operation, so between any two steps of one operation there may be those of another. A step carries the guard under
which the connection takes it. -/
namespace Multiplex

open Bytes Wire

/-- An entry by which the connection is neither opened nor takes anything in, and nothing is asked of the transport. -/
def Entry.Internal : Entry → Prop
  | .call (.initiate _) | .call (.receive _) | .call (.write ..) | .call .lose => False
  | _ => True

theorem Entry.OfTurn.internal {id : UInt32} {e : Entry} (h : e.OfTurn id) : e.Internal := by
  unfold Entry.Internal
  split
  · exact h
  · exact h
  · exact h
  · exact h
  · trivial

theorem Entry.IsStreamLine.internal {e : Entry} (h : e.IsStreamLine) : e.Internal := by
  obtain ⟨l, rfl, -⟩ := h
  trivial

inductive Codec.Called {κ : Type} [Wire.Codec κ] (c : κ) : κ → Prop
  | close (code : ErrorCode) : Called c (Wire.Codec.close c code)
  | headers (id : UInt32) (fields : Headers) (endStream : Bool) :
      Called c (Wire.Codec.sendHeaders c id fields endStream).2
  | data (id : UInt32) (bytes : Bytes) (endStream : Bool) : Called c (Wire.Codec.sendData c id bytes endStream).2
  | reset (id : UInt32) (code : ErrorCode) : Called c (Wire.Codec.reset c id code).2
  | acknowledge (length : Nat) (id : UInt32) : Called c (Wire.Codec.acknowledge c length id)

abbrev Codec.Works {κ : Type} [Wire.Codec κ] : κ → κ → Prop := Relation.ReflTransGen Codec.Called

namespace Turn

variable {κ : Type} [Codec κ] {m : Metadata} {d : Direction} {t t' : Turn κ}

theorem Step.works (h : Step m d t t') : Codec.Works t.codec t'.codec := by
  cases h with
  | piece =>
    unfold offer
    dsimp only
    split <;> exact .single (.data _ _ _)
  | absorb field =>
    rw [codec_absorb]
  | acknowledge => exact .single (.acknowledge _ _)
  | reset => exact .single (.reset _ _)
  | close =>
    rw [codec_close]
  | note | complete | headReceived | expect | warned | append => exact .refl

theorem Steps.works (h : Steps m d t t') : Codec.Works t.codec t'.codec := by
  induction h with
  | refl => exact .refl
  | tail _ hstep ih => exact ih.trans hstep.works

structure CallsCodec (t t' : Turn κ) : Prop where
  codec : Codec.Works t.codec t'.codec
  history : t.history.Extends Entry.Internal t'.history

theorem Steps.callsCodec (h : Steps m d t t') : CallsCodec t t' :=
  ⟨h.works, h.continues.history.imp fun _ => Entry.OfTurn.internal⟩

theorem callsCodec_initiate (m : Metadata) (t : Turn κ) : CallsCodec t (t.initiate m) := by
  refine ⟨?_, (continues_attempt m t).history.imp fun _ => Entry.OfTurn.internal⟩
  by_cases hs : t.stream.state = .pending
  · rcases initiate_cases (m := m) hs with ⟨message, h⟩ | ⟨url, message, -, h⟩ | ⟨url, -, h⟩
    · rw [h, codec_close]
      exact .refl
    · rw [h, codec_close]
      exact .single (.headers _ _ _)
    · exact h.works.head (.headers _ _ _)
  · rw [show t.initiate m = t.warnStray _ from if_pos hs]
    exact .refl

end Turn

namespace Session

variable {κ τ ω σ : Type} [Codec κ] {s s' u : Session κ τ ω σ}

structure InternalStep (s s' : Session κ τ ω σ) : Prop where
  codec : Codec.Works s.codec s'.codec
  transport : s'.transport = s.transport
  clock : s'.clock = s.clock
  lost : s'.lost = s.lost
  closing : s'.closing = s.closing
  idle : s'.idle = s.idle
  register : s.registry.Coherent → s'.registry.Coherent
  history : s.history.Extends Entry.Internal s'.history

variable [Transport τ]

/-- A step of a connection, or something that happens around it. What may be asked of it and how its surroundings may
drift is given. -/
inductive IoStep (may : Demand τ ω → Prop) (around : Session κ τ ω σ → Drift κ τ ω σ → Prop) :
    Session κ τ ω σ → Session κ τ ω σ → Prop
  | internal {s s' : Session κ τ ω σ} (h : InternalStep s s') : IoStep may around s s'
  | receive {s : Session κ τ ω σ} (data : Bytes) (hs : s.Serving) : IoStep may around s (s.received data)
  | drain {s : Session κ τ ω σ}
      (h : (Codec.takeOutput s.codec).1.isEmpty = true ∨ s.transport = none ∨ s.lost = true) :
      IoStep may around s s.drained
  | write {s : Session κ τ ω σ} {t : τ} (hout : (Codec.takeOutput s.codec).1.isEmpty = false)
      (ht : s.transport = some t) (hl : s.lost = false) : IoStep may around s (s.written t)
  | establish {s : Session κ τ ω σ} (t : τ) (hd : may (.operation (.established (some t)))) (hl : s.lost = false) :
      IoStep may around s (s.opening t)
  | ask {s : Session κ τ ω σ} {t : τ} (fault : Fault) (hs : s.Serving) (ht : s.transport = some t) :
      IoStep may around s (s.asked fault t)
  | lose {s : Session κ τ ω σ} (transport : Option τ) (causes : List Fault)
      (ht : transport = s.transport ∨ transport = none) (hl : s.lost = false) :
      IoStep may around s { s with transport, causes, lost := true, closing := true, idle := s.idle.cancel }
  | drift {s : Session κ τ ω σ} (d : Drift κ τ ω σ) (h : around s d) : IoStep may around s (s.drift d)
  | stop (s : Session κ τ ω σ) : IoStep may around s { s with loop := s.loop.stop }

abbrev IoSteps (may : Demand τ ω → Prop) (around : Session κ τ ω σ → Drift κ τ ω σ → Prop) :
    Session κ τ ω σ → Session κ τ ω σ → Prop := Relation.ReflTransGen (IoStep may around)

end Session

def Reaction.ByIoSteps {κ τ ω σ : Type} [Codec κ] [Transport τ] (may : Session.Demand τ ω → Prop)
    (around : Session κ τ ω σ → Session.Drift κ τ ω σ → Prop) (r : Reaction κ τ ω σ) : Prop :=
  ∀ o news s, Session.IoSteps may around s (r.run o news s)

namespace Session

variable {κ τ ω σ : Type} [Codec κ] [Transport τ] {s s' u : Session κ τ ω σ} {r : Reaction κ τ ω σ}
  {may : Demand τ ω → Prop} {around : Session κ τ ω σ → Drift κ τ ω σ → Prop}

theorem IoSteps.trans (h : IoSteps may around s u) (h' : IoSteps may around u s') : IoSteps may around s s' :=
  Relation.ReflTransGen.trans h h'

theorem IoSteps.internal (hcodec : Codec.Works s.codec s'.codec) (htransport : s'.transport = s.transport)
    (hclock : s'.clock = s.clock) (hlost : s'.lost = s.lost) (hclosing : s'.closing = s.closing)
    (hidle : s'.idle = s.idle)
    (hregister : s.registry.Coherent → s'.registry.Coherent) (hh : s.history.Extends Entry.Internal s'.history) :
    IoSteps may around s s' :=
  .single (.internal ⟨hcodec, htransport, hclock, hlost, hclosing, hidle, hregister, hh⟩)

theorem IoSteps.note (s : Session κ τ ω σ) (level : Log.Level) (message : Bytes) (source : String) :
    IoSteps may around s (s.note level message source) :=
  .internal .refl rfl rfl rfl rfl rfl id (.cons trivial .refl)

theorem IoSteps.enter (s : Session κ τ ω σ) {e : Entry} (he : e.Internal) : IoSteps may around s (s.enter e) :=
  .internal .refl rfl rfl rfl rfl rfl id (.cons he .refl)

theorem IoStep.coherent (h : IoStep may around s s') (hc : s.registry.Coherent) : s'.registry.Coherent := by
  cases h with
  | internal h => exact h.register hc
  | receive | drain | write | establish | ask | lose | drift | stop => exact hc

theorem IoSteps.coherent (h : IoSteps may around s s') (hc : s.registry.Coherent) : s'.registry.Coherent := by
  induction h with
  | refl => exact hc
  | tail _ hstep ih => exact hstep.coherent ih

/-! What is over stays over. -/

theorem IoStep.lost (h : IoStep may around s s') (hl : s.lost = true) : s'.lost = true := by
  cases h with
  | internal h => exact h.lost.trans hl
  | receive | drain | write | establish | ask | drift | stop => exact hl
  | lose => rfl

theorem IoSteps.lost (h : IoSteps may around s s') (hl : s.lost = true) : s'.lost = true := by
  induction h with
  | refl => exact hl
  | tail _ hstep ih => exact hstep.lost ih

theorem IoSteps.not_lost (h : IoSteps may around s s') (hl : s'.lost = false) : s.lost = false := by
  cases hs : s.lost with
  | false => rfl
  | true => exact Bool.noConfusion (hl.symm.trans (h.lost hs))

theorem IoStep.closing (h : IoStep may around s s') (hc : s.closing = true) : s'.closing = true := by
  cases h with
  | internal h => exact h.closing.trans hc
  | receive | drain | write | establish | drift | stop => exact hc
  | ask | lose => rfl

theorem IoSteps.closing (h : IoSteps may around s s') (hc : s.closing = true) : s'.closing = true := by
  induction h with
  | refl => exact hc
  | tail _ hstep ih => exact hstep.closing ih

theorem IoSteps.serving (h : IoSteps may around s s') (hs : s'.Serving) : s.Serving := by
  refine ⟨h.not_lost hs.1, Bool.eq_false_iff.2 fun hc => ?_⟩
  exact Bool.noConfusion (hs.2.symm.trans (h.closing hc))

theorem IoStep.suffix (h : IoStep may around s s') : s.history <:+ s'.history := by
  cases h with
  | internal h => exact h.history.suffix
  | receive | write | ask => exact ⟨[_], rfl⟩
  | establish => exact ⟨[_, _], rfl⟩
  | drain | lose | drift | stop => exact List.suffix_refl _

theorem IoSteps.suffix (h : IoSteps may around s s') : s.history <:+ s'.history := by
  induction h with
  | refl => exact List.suffix_refl _
  | tail _ hstep ih => exact ih.trans hstep.suffix

/-! Telling observers, and ending exchanges. -/

theorem ioSteps_foldl {α : Type} {f : Session κ τ ω σ → α → Session κ τ ω σ}
    (hf : ∀ u a, IoSteps may around u (f u a)) (as : List α) (s : Session κ τ ω σ) :
    IoSteps may around s (as.foldl f s) := by
  induction as generalizing s with
  | nil => exact .refl
  | cons a as ih => exact (hf s a).trans (ih _)

theorem ioSteps_tell (hr : r.ByIoSteps may around) (n : Notice ω) (s : Session κ τ ω σ) :
    IoSteps may around s (s.tell r n) := by
  unfold tell
  split
  · exact .internal .refl rfl rfl rfl rfl rfl id .refl
  · exact (IoSteps.note s _ _ _).trans (hr _ _ _)

theorem ioSteps_tellAll (hr : r.ByIoSteps may around) (os : List ω) (news : News) (s : Session κ τ ω σ) :
    IoSteps may around s (s.tellAll r os news) := ioSteps_foldl (fun u o => ioSteps_tell hr ⟨o, news⟩ u) os s

theorem ioSteps_settle (hr : r.ByIoSteps may around) (ticket : Ticket) (outcome : Outcome) (s : Session κ τ ω σ) :
    IoSteps may around s (s.settle r ticket outcome) := by
  rcases settle_cases r ticket outcome s with ⟨-, h | h⟩ | ⟨os, -, h⟩
  · rw [h]
  · rw [h]
    exact .note s _ _ _
  · have hgiven : IoSteps may around s (s.given ticket outcome) :=
      .internal .refl rfl rfl rfl rfl rfl id (.cons trivial .refl)
    rw [h]
    exact hgiven.trans (ioSteps_tellAll hr os _ _)

theorem ioSteps_finish (hr : r.ByIoSteps may around) (x : Stream) (reason : CloseReason) (causes : List Fault)
    (s : Session κ τ ω σ) : IoSteps may around s (s.finish r x reason causes) := by
  obtain ⟨history, hlines, h⟩ := finish_cases r x reason causes s
  have hnoted : IoSteps may around s { s with history } :=
    .internal .refl rfl rfl rfl rfl rfl id (hlines.imp fun _ => Entry.IsStreamLine.internal)
  rcases h with ⟨-, h⟩ | ⟨-, h⟩
  · rw [h]
    exact hnoted
  · rw [h]
    exact hnoted.trans (ioSteps_settle hr _ _ _)

theorem ioSteps_announceLoss (hr : r.ByIoSteps may around) (s : Session κ τ ω σ) :
    IoSteps may around s (s.announceLoss r) := by
  unfold announceLoss
  split
  · exact .refl
  · split
    · exact .note s _ _ _
    · rename_i os c _
      have hannounced : IoSteps may around s ({ s with lossNotice := some c }.enter (.lossAnnounced s.causes)) :=
        .internal .refl rfl rfl rfl rfl rfl id (.cons trivial .refl)
      exact hannounced.trans (ioSteps_tellAll hr os _ _)

theorem ioSteps_observe (hr : r.ByIoSteps may around) (ticket : Ticket) (o : ω) (s : Session κ τ ω σ) :
    IoSteps may around s (s.observe r ticket o) := by
  unfold observe
  split
  · exact .refl
  · split
    · exact .internal .refl rfl rfl rfl rfl rfl id .refl
    · exact ioSteps_tell hr _ s

/-! Exchanges that take a turn, start and leave. -/

theorem ioSteps_giveUp (x : Stream) (s : Session κ τ ω σ) : IoSteps may around s (s.giveUp x) := by
  unfold giveUp
  split
  · exact .refl
  · exact .note s _ _ _

theorem ioSteps_letGo (ticket : Ticket) (s : Session κ τ ω σ) : IoSteps may around s (s.letGo ticket) := by
  have herased : IoSteps may around s { s with held := s.held.erase ticket } :=
    .internal .refl rfl rfl rfl rfl rfl id .refl
  unfold letGo
  dsimp only
  split
  · exact herased
  · split
    · exact herased
    · have hdropped : IoSteps may around s
          { s with held := s.held.erase ticket, detached := s.detached.filter (·.ticket != ticket) } :=
        .internal .refl rfl rfl rfl rfl rfl id .refl
      exact hdropped.trans (ioSteps_giveUp _ _)

theorem ioSteps_removed (id : UInt32) (s : Session κ τ ω σ) :
    IoSteps may around s { s with registry := (s.registry.remove id).2 } :=
  .internal .refl rfl rfl rfl rfl rfl (fun h => h.remove id) .refl

theorem ioSteps_release (id : UInt32) (s : Session κ τ ω σ) : IoSteps may around s (s.release id).2 := by
  have hremoved : IoSteps may around s { s with registry := (s.registry.remove id).2 } := ioSteps_removed id s
  unfold release
  split
  · exact .note s _ _ _
  · rename_i x registry h
    rw [h] at hremoved
    dsimp only
    split
    · exact hremoved.trans (.internal .refl rfl rfl rfl rfl rfl (fun h => h) .refl)
    · exact hremoved.trans (ioSteps_giveUp x _)

theorem ioSteps_turn (hr : r.ByIoSteps may around) (ticket : Ticket) {act : Metadata → Turn κ → Turn κ}
    (ha : ∀ m t, Turn.CallsCodec t (act m t)) (s : Session κ τ ω σ) : IoSteps may around s (s.turn r ticket act).2 := by
  unfold turn
  split
  · exact .refl
  · rename_i x _
    let t := act s.metadata (s.turnOf x)
    obtain ⟨hcodec, hh⟩ := ha s.metadata (s.turnOf x)
    have hturned : IoSteps may around s (s.turned t) :=
      .internal hcodec rfl rfl rfl rfl rfl (fun h => h.replace (·.ticket == t.stream.ticket) t.stream) hh
    dsimp only
    split
    · exact hturned
    · rename_i e _
      have hsettled := hturned.trans (ioSteps_settle hr ticket e.outcome _)
      split
      · exact hsettled.trans (ioSteps_release _ _)
      · exact hsettled

theorem ioSteps_admitUpTo (hr : r.ByIoSteps may around) (n : Nat) (s : Session κ τ ω σ) :
    IoSteps may around s (s.admitUpTo r n) := by
  induction n generalizing s with
  | zero => exact .refl
  | succ n ih =>
    have hnext : IoSteps may around s { s with registry := s.registry.admitNext.2 } :=
      .internal .refl rfl rfl rfl rfl rfl (fun h => h.admitNext) .refl
    unfold admitUpTo
    split
    · split
      · rename_i registry h
        rw [h] at hnext
        exact hnext
      · rename_i x registry h
        rw [h] at hnext
        have hrecorded : IoSteps may around { s with registry }
            (({ s with registry } : Session κ τ ω σ).recordAdmission x) :=
          (IoSteps.note _ _ _ "Session").trans (.enter _ trivial)
        have hbegun := hrecorded.trans (ioSteps_turn hr x.ticket Turn.callsCodec_initiate _)
        exact (hnext.trans hbegun).trans (ih _)
    · exact .refl

theorem ioSteps_admitQueued (hr : r.ByIoSteps may around) (s : Session κ τ ω σ) :
    IoSteps may around s (s.admitQueued r) := by
  unfold admitQueued
  split
  · exact .refl
  · have hshut : IoSteps may around s { s with admitting := true } := .internal .refl rfl rfl rfl rfl rfl id .refl
    have hdone := hshut.trans (ioSteps_admitUpTo hr (s.registry.pendingCount + s.idsLeft) _)
    exact hdone.trans (.internal .refl rfl rfl rfl rfl rfl (fun h => h) .refl)

theorem ioSteps_step (hr : r.ByIoSteps may around) (ticket : Ticket) {act : Metadata → Turn κ → Turn κ}
    (ha : ∀ m t, Turn.CallsCodec t (act m t)) (s : Session κ τ ω σ) : IoSteps may around s (s.step r ticket act) := by
  have hturn := ioSteps_turn hr ticket ha s
  rw [step_eq]
  split
  · exact hturn.trans (ioSteps_admitQueued hr _)
  · exact hturn

theorem ioSteps_streamClosed (hr : r.ByIoSteps may around) (id : UInt32) (s : Session κ τ ω σ) :
    IoSteps may around s (s.streamClosed r id) := by
  have hreleased : IoSteps may around s (s.release id).2 := ioSteps_release id s
  unfold streamClosed
  split
  · rename_i u h
    rw [h] at hreleased
    exact hreleased.trans (ioSteps_admitQueued hr u)
  · rename_i u h
    rw [h] at hreleased
    exact hreleased

/-! The end of the connection. -/

theorem ioSteps_dismissAll (hr : r.ByIoSteps may around) (s : Session κ τ ω σ) :
    IoSteps may around s (s.dismissAll r) := by
  have hcleared : IoSteps may around s { s with registry := s.registry.clear } :=
    .internal .refl rfl rfl rfl rfl rfl (fun _ => Registry.coherent_empty) .refl
  have hdismissed := hcleared.trans (ioSteps_foldl (f := dismiss r) (fun u x => by
    unfold dismiss
    split
    · exact ioSteps_finish hr x _ _ u
    · exact ioSteps_finish hr x _ _ u) s.registry.snapshot _)
  exact hdismissed.trans (.internal (.single (.close _)) rfl rfl rfl rfl rfl (fun h => h) (.cons trivial .refl))

theorem ioSteps_of_losing (hr : r.ByIoSteps may around) (message : Bytes) (hlosing : IoSteps may around s u) :
    IoSteps may around s (((u.note .info message).announceLoss r).dismissAll r) := by
  have hannounced := (hlosing.trans (.note u .info message "Session")).trans (ioSteps_announceLoss hr _)
  exact hannounced.trans (ioSteps_dismissAll hr _)

theorem ioSteps_transportLost (hr : r.ByIoSteps may around) (cause : Option Fault) (s : Session κ τ ω σ) :
    IoSteps may around s (s.transportLost r cause) := by
  rcases transportLost_cases r cause s with ⟨-, message, h⟩ | ⟨hl, message, h⟩
  · rw [h]
    exact .note s _ _ _
  · rw [h]
    exact ioSteps_of_losing hr message (.single (.lose s.transport _ (Or.inl rfl) hl))

theorem lost_transportLost_of_byIoSteps (hr : r.ByIoSteps may around) (cause : Option Fault) (s : Session κ τ ω σ) :
    (s.transportLost r cause).lost = true := by
  rcases transportLost_cases r cause s with ⟨hl, message, h⟩ | ⟨-, message, h⟩
  · rw [h]
    exact hl
  · rw [h]
    exact (ioSteps_of_losing hr message .refl).lost rfl

theorem ioSteps_discard (hr : r.ByIoSteps may around) (s : Session κ τ ω σ) : IoSteps may around s (s.discard r) := by
  unfold discard
  split
  · exact .refl
  · rename_i hl
    rw [Bool.not_eq_true] at hl
    rcases transportLost_cases r none ({ s with transport := none } : Session κ τ ω σ) with
      ⟨hlost, -⟩ | ⟨-, message, h⟩
    · exact Bool.noConfusion (hl.symm.trans hlost)
    · rw [h]
      exact ioSteps_of_losing hr message (.single (.lose none _ (Or.inr rfl) hl))

theorem ioSteps_loseWith (hr : r.ByIoSteps may around) (fault : Fault) (s : Session κ τ ω σ) :
    IoSteps may around s (s.loseWith r fault) := by
  cases hl : s.lost with
  | true =>
    rw [show s.loseWith r fault = s.note .debug _ from if_pos hl]
    exact .note s _ _ _
  | false =>
    cases hc : s.closing with
    | true =>
      rw [loseWith_again hl hc]
      exact .internal .refl rfl rfl rfl rfl rfl id .refl
    | false =>
      cases ht : s.transport with
      | none =>
        rw [loseWith_absent hl hc ht]
        rcases transportLost_cases r none (s.resolved fault) with ⟨hlost, -⟩ | ⟨-, message, h⟩
        · exact Bool.noConfusion (hl.symm.trans hlost)
        · rw [h]
          exact ioSteps_of_losing hr message (.single (.lose s.transport _ (Or.inl rfl) hl))
      | some t =>
        have hasked : IoSteps may around s (s.asked fault t) := .single (.ask fault ⟨hl, hc⟩ ht)
        rw [loseWith_asked hl hc ht]
        split
        · exact hasked
        · exact hasked.trans (ioSteps_transportLost hr none _)
        · exact hasked.trans (ioSteps_transportLost hr _ _)

theorem ioSteps_flush (hr : r.ByIoSteps may around) (s : Session κ τ ω σ) : IoSteps may around s (s.flush r) := by
  rcases flush_cases r s with ⟨hnowhere, h | ⟨message, h⟩⟩ | ⟨t, hsome, ht, hl, h | ⟨message, cause, h⟩⟩
  · rw [h]
    exact .single (.drain hnowhere)
  · have hdrained : IoSteps may around s s.drained := .single (.drain hnowhere)
    rw [h]
    exact hdrained.trans (.note _ _ _ _)
  · rw [h]
    exact .single (.write hsome ht hl)
  · have hwritten : IoSteps may around s (s.written t) := .single (.write hsome ht hl)
    rw [h]
    exact (hwritten.trans (.note _ _ _ _)).trans (ioSteps_loseWith hr cause _)

/-! Events. -/

omit [Transport τ] in
theorem callsCodec_receive {act : Metadata → Turn κ → Turn κ} (h : Receipt act) (m : Metadata) (t : Turn κ) :
    Turn.CallsCodec t (act m t) := by
  obtain ⟨d, hsteps⟩ := h.steps m t
  exact hsteps.callsCodec

theorem ioSteps_withStream {event : Event} {act : Stream → Session κ τ ω σ → Session κ τ ω σ}
    {otherwise : Session κ τ ω σ → Session κ τ ω σ} (hact : ∀ x u, IoSteps may around u (act x u))
    (hother : ∀ u, IoSteps may around u (otherwise u)) (s : Session κ τ ω σ) :
    IoSteps may around s (s.withStream event act otherwise) := by
  unfold withStream
  split
  · exact hact _ s
  · exact (IoSteps.note s _ _ "Session").trans (hother _)

theorem ioSteps_concludeStream (hr : r.ByIoSteps may around) {event : Event}
    {act : Stream → Session κ τ ω σ → Session κ τ ω σ} (hact : ∀ x u, IoSteps may around u (act x u))
    (s : Session κ τ ω σ) : IoSteps may around s (s.concludeStream r event act) := by
  have hremoved : IoSteps may around s { s with registry := (s.registry.remove event.stream).2 } :=
    ioSteps_removed event.stream s
  unfold concludeStream
  split
  · rename_i x registry h
    rw [h] at hremoved
    exact (hremoved.trans (hact x _)).trans (ioSteps_admitQueued hr _)
  · exact .note s _ _ _

theorem ioSteps_resumeAll (hr : r.ByIoSteps may around) (s : Session κ τ ω σ) :
    IoSteps may around s (s.resumeAll r) := by
  have hheld : IoSteps may around s (s.hold s.registry.tickets) := .internal .refl rfl rfl rfl rfl rfl id .refl
  have hresumed := hheld.trans (ioSteps_foldl (f := resume r) (fun u ticket => by
    unfold resume
    split
    · exact .refl
    · split
      · exact .refl
      · exact ioSteps_step hr ticket (callsCodec_receive .window) u) s.registry.tickets _)
  rw [resumeAll_eq]
  exact hresumed.trans (ioSteps_foldl (fun u ticket => ioSteps_letGo ticket u) _ _)

theorem ioSteps_acknowledgeSettings (s : Session κ τ ω σ) : IoSteps may around s s.acknowledgeSettings := by
  unfold acknowledgeSettings
  dsimp only
  split
  · exact .internal .refl rfl rfl rfl rfl rfl id (.cons trivial (.cons trivial .refl))
  · exact .internal .refl rfl rfl rfl rfl rfl id (.cons trivial (.cons trivial .refl))
  · exact .internal .refl rfl rfl rfl rfl rfl id (.cons trivial .refl)

theorem ioSteps_handle (hr : r.ByIoSteps may around) (event : Event) (s : Session κ τ ω σ) :
    IoSteps may around s (s.handle r event) := by
  unfold handle
  split
  · exact ioSteps_withStream (fun x u => ioSteps_step hr _ (callsCodec_receive (.head _)) u) (fun _ => .refl) s
  · refine ioSteps_withStream (fun x u => ioSteps_step hr _ (callsCodec_receive (.data _ _)) u) (fun u => ?_) s
    exact .internal (.single (.acknowledge _ _)) rfl rfl rfl rfl rfl id (.cons trivial .refl)
  · exact ioSteps_concludeStream hr (fun x u => ioSteps_finish hr x _ _ u) s
  · exact ioSteps_concludeStream hr (fun x u => (IoSteps.note u _ _ _).trans (ioSteps_finish hr x _ _ _)) s
  · split
    · exact ioSteps_resumeAll hr s
    · exact ioSteps_withStream (fun x u => ioSteps_step hr _ (callsCodec_receive .window) u) (fun _ => .refl) s
  · rw [settingsAcknowledged_eq]
    exact (ioSteps_acknowledgeSettings s).trans (ioSteps_admitQueued hr _)
  · exact ioSteps_admitQueued hr s
  · exact (IoSteps.note s _ _ _).trans (ioSteps_loseWith hr _ _)
  · exact .note s _ _ _
  · exact .refl

/-- The last event of a batch, if the connection still serves its exchanges then. -/
theorem handleAll_concat (r : Reaction κ τ ω σ) (events : List Event) (event : Event)
    (hs : (s.handleAll r events).Serving) : s.handleAll r (events ++ [event]) =
      ((s.handleAll r events).enter (.dispatched event)).handle r event := by
  have hconcat : s.handleAll r (events ++ [event]) = (s.handleAll r events).handleAll r [event] := List.foldl_append
  rw [hconcat]
  exact if_neg (in_service hs)

theorem ioSteps_handleAll (hr : r.ByIoSteps may around) (events : List Event) (s : Session κ τ ω σ) :
    IoSteps may around s (s.handleAll r events) := by
  refine ioSteps_foldl (fun u event => ?_) events s
  split
  · exact .refl
  · exact (IoSteps.enter u (e := .dispatched event) trivial).trans (ioSteps_handle hr event _)

/-! Operations. -/

theorem ioSteps_submit (hr : r.ByIoSteps may around) (request : Request) (s : Session κ τ ω σ) :
    IoSteps may around s (s.submit r request).2 := by
  have hissued : ∀ u : Session κ τ ω σ, IoSteps may around u u.issueTicket.2 := fun u =>
    .internal .refl rfl rfl rfl rfl rfl id .refl
  cases hrefusal : s.refusal with
  | some cause =>
    obtain ⟨message, h⟩ := submit_of_refused r request hrefusal
    rw [h]
    exact ((IoSteps.note s .warn message "Session").trans (hissued _)).trans (ioSteps_finish hr _ _ _ _)
  | none =>
    have hissuable : s.issueTicket.2.refusal = none := hrefusal
    let numbered : Session κ τ ω σ := { s.issueTicket.2 with nextId := s.nextId + 2 }
    have hnumbered : IoSteps may around s numbered := (hissued s).trans (.internal .refl rfl rfl rfl rfl rfl id .refl)
    unfold submit
    dsimp only
    rw [hissuable]
    dsimp only
    split
    · dsimp only
      exact ((hnumbered.trans (.note _ _ _ _)).trans (.note _ _ _ _)).trans (ioSteps_finish hr _ _ _ _)
    · rename_i registry hadd
      have hadded : IoSteps may around s { numbered with registry } :=
        hnumbered.trans (.internal .refl rfl rfl rfl rfl rfl (fun h => h.add hadd) .refl)
      have hheld : ∀ message, IoSteps may around s
          ((({ numbered with registry } : Session κ τ ω σ).note .debug message).hold [s.completions.length]) :=
        fun message => (hadded.trans (.note _ _ message _)).trans (.internal .refl rfl rfl rfl rfl rfl id .refl)
      have hflushed := fun message => ((hheld message).trans (ioSteps_admitQueued hr _)).trans (ioSteps_flush hr _)
      exact (hflushed _).trans (ioSteps_letGo _ _)

theorem ioSteps_established (hr : r.ByIoSteps may around) {transport : Option τ}
    (hd : may (.operation (.established transport))) (s : Session κ τ ω σ) :
    IoSteps may around s (s.established r transport) := by
  cases transport with
  | none => exact .note s _ _ _
  | some t =>
    rcases established_cases r (some t) s with ⟨level, message, h⟩ | ⟨-, hl, -⟩
    · rw [h]
      exact .note s _ _ _
    · have hopening : IoSteps may around s (s.opening t) := .single (.establish t hd hl)
      rw [established_eq r t hl]
      exact hopening.trans (ioSteps_flush hr _)

theorem ioSteps_handshakeCompleted (hr : r.ByIoSteps may around) (s : Session κ τ ω σ) :
    IoSteps may around s (s.handshakeCompleted r) := by
  unfold handshakeCompleted
  split
  · exact .refl
  · dsimp only
    split
    · exact .refl
    · exact (IoSteps.note s _ _ _).trans (ioSteps_loseWith hr _ _)

theorem ioSteps_bytesReceived (hr : r.ByIoSteps may around) (data : Bytes) (s : Session κ τ ω σ) :
    IoSteps may around s (s.bytesReceived r data) := by
  unfold bytesReceived
  split
  · exact .note s _ _ _
  · rename_i hserving
    rw [Bool.or_eq_true, not_or, Bool.not_eq_true, Bool.not_eq_true] at hserving
    have hreceived : IoSteps may around s (s.received data) := .single (.receive data hserving)
    dsimp only
    split
    · rename_i events _
      exact (hreceived.trans (ioSteps_handleAll hr events _)).trans (ioSteps_flush hr _)
    · have hflushed := fun message => (hreceived.trans (.note _ .error message "Session")).trans (ioSteps_flush hr _)
      exact (hflushed _).trans (ioSteps_loseWith hr _ _)

theorem ioSteps_idleTimeout (hr : r.ByIoSteps may around) (s : Session κ τ ω σ) :
    IoSteps may around s (s.idleTimeout r) := by
  unfold idleTimeout
  split
  · exact .refl
  · have hfarewell : ∀ message code, IoSteps may around s ((s.note .warn message).closeCodec code) := fun message code =>
      (IoSteps.note s .warn message "Session").trans
        (.internal (.single (.close code)) rfl rfl rfl rfl rfl id (.cons trivial .refl))
    have hflushed := fun message code => (hfarewell message code).trans (ioSteps_flush hr _)
    exact (hflushed _ _).trans (ioSteps_loseWith hr _ _)

theorem ioSteps_perform (hr : r.ByIoSteps may around) {op : Operation τ ω} (hd : may (.operation op))
    (s : Session κ τ ω σ) : IoSteps may around s (s.perform r op) := by
  cases op with
  | submit request => exact ioSteps_submit hr request s
  | observe ticket observer => exact ioSteps_observe hr ticket observer s
  | established transport => exact ioSteps_established hr hd s
  | handshakeCompleted => exact ioSteps_handshakeCompleted hr s
  | bytesReceived data => exact ioSteps_bytesReceived hr data s
  | idleTimeout => exact ioSteps_idleTimeout hr s
  | checkIdle =>
    unfold perform checkIdle
    dsimp only
    split
    · exact .refl
    · exact ioSteps_idleTimeout hr s
  | transportLost cause => exact ioSteps_transportLost hr cause s
  | discard => exact ioSteps_discard hr s

theorem ioSteps_meet (hr : r.ByIoSteps may around) {d : Demand τ ω} (hd : may d) (s : Session κ τ ω σ) :
    IoSteps may around s (s.meet r d) := by
  cases d with
  | operation op => exact ioSteps_perform hr hd s
  | streamClosed id => exact ioSteps_streamClosed hr id s

/-! Activities in given surroundings. -/

/-- Demands of some kind, and drifts of some kind in between. The loop may stop. -/
inductive Sheltered (may : Demand τ ω → Prop) (around : Session κ τ ω σ → Drift κ τ ω σ → Prop) :
    Session κ τ ω σ → Session κ τ ω σ → Prop
  | refl (s : Session κ τ ω σ) : Sheltered may around s s
  | meet {s s' : Session κ τ ω σ} (h : Sheltered may around s s') (r : Reaction κ τ ω σ)
      (hr : ∀ o news u, Sheltered may around u (r.run o news u)) (d : Demand τ ω) (hd : may d) :
      Sheltered may around s (s'.meet r d)
  | drift {s s' : Session κ τ ω σ} (h : Sheltered may around s s') (d : Drift κ τ ω σ) (hd : around s' d) :
      Sheltered may around s (s'.drift d)
  | stop {s s' : Session κ τ ω σ} (h : Sheltered may around s s') :
      Sheltered may around s { s' with loop := s'.loop.stop }

theorem Sheltered.ioSteps (h : Sheltered may around s s') : IoSteps may around s s' := by
  induction h with
  | refl => exact .refl
  | meet _ r _ d hd ih ihr => exact ih.trans (ioSteps_meet ihr hd _)
  | drift _ d hd ih => exact ih.tail (.drift d hd)
  | stop _ ih => exact ih.tail (.stop _)

theorem Activity.sheltered (h : Activity may s s') : Sheltered may (fun _ _ => True) s s' := by
  induction h with
  | refl s => exact .refl s
  | meet _ r _ d hd ih ihr => exact ih.meet r ihr d hd
  | drift _ d ih => exact ih.drift d trivial
  | stop _ ih => exact ih.stop

theorem Sheltered.performAll {r : Reaction κ τ ω σ} (hr : ∀ o news u, Sheltered may around u (r.run o news u))
    {ops : List (Operation τ ω)} (hops : ∀ op ∈ ops, may (.operation op)) (h : Sheltered may around s s') :
    Sheltered may around s (s'.performAll r ops) := by
  unfold Session.performAll
  induction ops generalizing s' with
  | nil => exact h
  | cons op ops ih =>
    obtain ⟨hop, hrest⟩ := List.forall_mem_cons.1 hops
    exact ih hrest (h.meet r hr (.operation op) hop)

end Session

end Multiplex
