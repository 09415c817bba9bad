import Multiplex.Proofs.Output

/-! Two connections in lockstep. They agree in all but what their codecs have read and have waiting, in what their
transports were handed when, and in what they logged. Then every event makes the same of both. -/
namespace Multiplex

open Bytes Wire

def Entry.essential : Entry → Bool
  | .call (.receive _) | .call (.write ..) | .log _ => false
  | _ => true

def History.essence (h : History) : History := h.filter Entry.essential

theorem History.essence_cons {h h' : History} (hh : h'.essence = h.essence) (e : Entry) :
    History.essence (e :: h') = History.essence (e :: h) := by
  unfold essence at hh ⊢
  rw [List.filter_cons, List.filter_cons, hh]

theorem History.Extends.essence_eq {h h' : History} (hh : h.Extends Entry.IsStreamLine h') :
    h'.essence = h.essence := by
  obtain ⟨new, rfl, hnew⟩ := hh
  have hnone : new.filter Entry.essential = [] := by
    refine List.filter_eq_nil_iff.2 fun e he => ?_
    obtain ⟨l, rfl, -⟩ := hnew e he
    exact Bool.false_ne_true
  unfold essence
  rw [List.filter_append, hnone, List.nil_append]

namespace Codec

variable {κ ν : Type} [Wire.Codec κ] {view : κ → ν}

/-- Two codecs take the same step: they look the same after it, and have produced the same. -/
structure Parallel (view : κ → ν) (c c' d d' : κ) : Prop where
  view : view d' = view d
  waiting : ∃ new, waiting d = waiting c ++ new ∧ waiting d' = waiting c' ++ new

/-- What a connection sees of its codec: windows, limits and answers. It makes all the difference to calls about
streams, and only they change it. -/
structure Views (view : κ → ν) : Prop where
  receive : ∀ c data, view (Wire.Codec.receive c data).2 = view c
  taken : ∀ c, view (Wire.Codec.takeOutput c).2 = view c ∧ waiting (Wire.Codec.takeOutput c).2 = []
  window : ∀ {c c'}, view c' = view c → Wire.Codec.window c' = Wire.Codec.window c
  maxFrame : ∀ {c c'}, view c' = view c → Wire.Codec.maxFrame c' = Wire.Codec.maxFrame c
  streamLimit : ∀ {c c'}, view c' = view c → Wire.Codec.streamLimit c' = Wire.Codec.streamLimit c
  headers : ∀ {c c'}, view c' = view c → ∀ id fields endStream,
    (Wire.Codec.sendHeaders c' id fields endStream).1 = (Wire.Codec.sendHeaders c id fields endStream).1 ∧
      Parallel view c c' (Wire.Codec.sendHeaders c id fields endStream).2 (Wire.Codec.sendHeaders c' id fields endStream).2
  data : ∀ {c c'}, view c' = view c → ∀ id bytes endStream,
    (Wire.Codec.sendData c' id bytes endStream).1 = (Wire.Codec.sendData c id bytes endStream).1 ∧
      Parallel view c c' (Wire.Codec.sendData c id bytes endStream).2 (Wire.Codec.sendData c' id bytes endStream).2
  reset : ∀ {c c'}, view c' = view c → ∀ id code,
    (Wire.Codec.reset c' id code).1 = (Wire.Codec.reset c id code).1 ∧
      Parallel view c c' (Wire.Codec.reset c id code).2 (Wire.Codec.reset c' id code).2
  acknowledge : ∀ {c c'}, view c' = view c → ∀ length id,
    Parallel view c c' (Wire.Codec.acknowledge c length id) (Wire.Codec.acknowledge c' length id)

end Codec

def Accretive (R : Bytes → Bytes → Prop) : Prop := ∀ {a b} new, R a b → R (a ++ new) (b ++ new)

namespace Turn

variable {κ ν : Type} [Codec κ] {view : κ → ν} {R : Bytes → Bytes → Prop} {m : Metadata} {t t' : Turn κ}

structure InLockstep (view : κ → ν) (R : Bytes → Bytes → Prop) (t t' : Turn κ) : Prop where
  stream : t'.stream = t.stream
  ending : t'.ending = t.ending
  view : view t'.codec = view t.codec
  essence : t'.history.essence = t.history.essence
  waiting : R (Codec.waiting t.codec) (Codec.waiting t'.codec)

namespace InLockstep

theorem note (h : InLockstep view R t t') (level level' : Log.Level) (message message' : Bytes) :
    InLockstep view R (t.note level message) (t'.note level' message') :=
  ⟨h.stream, h.ending, h.view, h.essence, h.waiting⟩

theorem put (h : InLockstep view R t t') (x : Stream) :
    InLockstep view R { t with stream := x } { t' with stream := x } :=
  ⟨rfl, h.ending, h.view, h.essence, h.waiting⟩

theorem record (hR : Accretive R) (h : InLockstep view R t t') {c c' : κ}
    (hc : Codec.Parallel view t.codec t'.codec c c')
    (call : Call) : InLockstep view R (t.record c call) (t'.record c' call) where
  stream := h.stream
  ending := h.ending
  view := hc.view
  essence := History.essence_cons h.essence (.call call)
  waiting := by
    obtain ⟨new, hnew, hnew'⟩ := hc.waiting
    exact hnew ▸ hnew' ▸ hR new h.waiting

theorem close (h : InLockstep view R t t') (reason : CloseReason) (causes : List Fault) (announce : Bool) :
    InLockstep view R (t.close m reason causes announce) (t'.close m reason causes announce) := by
  by_cases hs : t.stream.state = .closed
  · have hs' : t'.stream.state = .closed := h.stream ▸ hs
    unfold Turn.close
    rw [if_pos hs, if_pos hs']
    exact h.note _ _ _ _
  · have hs' : t'.stream.state ≠ .closed := h.stream ▸ hs
    constructor
    · rw [stream_close hs, stream_close hs', h.stream]
    · rw [ending_close hs, ending_close hs', h.stream]
    · rw [codec_close, codec_close, h.view]
    · rw [(extends_close t _ _ _).essence_eq, (extends_close t' _ _ _).essence_eq, h.essence]
    · rw [codec_close, codec_close]
      exact h.waiting

theorem resetAndClose (hv : Codec.Views view) (hR : Accretive R) (h : InLockstep view R t t') (code : ErrorCode)
    (reason : CloseReason) : InLockstep view R (t.resetAndClose m code reason) (t'.resetAndClose m code reason) := by
  obtain ⟨hret, hcodec⟩ := hv.reset h.view t.stream.id code
  have hrecorded := h.record hR hcodec (.reset t.stream.id code (Codec.reset t.codec t.stream.id code).1)
  unfold Turn.resetAndClose
  dsimp only
  rw [h.stream, hret]
  refine InLockstep.close ?_ reason [] true
  split
  · exact hrecorded
  · exact hrecorded.note _ _ _ _

theorem checkSize (hv : Codec.Views view) (hR : Accretive R) (h : InLockstep view R t t') (size : Nat) :
    InLockstep view R (t.checkSize m size) (t'.checkSize m size) := by
  unfold Turn.checkSize
  rw [h.stream]
  split
  · exact (h.note _ _ _ _).resetAndClose hv hR _ _
  · split
    · exact (h.put { t.stream with warned := true }).note _ _ _ _
    · exact h

theorem absorb (h : InLockstep view R t t') (field : Bytes × Bytes) :
    InLockstep view R (t.absorb field) (t'.absorb field) := by
  unfold Turn.absorb
  rw [h.stream]
  split
  · split
    · rename_i n _
      exact h.put { t.stream with response.status := Int32.ofNat n }
    · exact h.note _ _ _ _
  · split
    · exact h
    · exact h.put { t.stream with response := t.stream.response.addHeader field.1 field.2 }

theorem receiveHeaders (hv : Codec.Views view) (hR : Accretive R) (h : InLockstep view R t t') (fields : Headers) :
    InLockstep view R (t.receiveHeaders m fields) (t'.receiveHeaders m fields) := by
  have habsorbed : InLockstep view R (fields.foldl Turn.absorb t) (fields.foldl Turn.absorb t') := by
    induction fields generalizing t t' with
    | nil => exact h
    | cons field fields ih => exact ih (h.absorb field)
  unfold Turn.receiveHeaders
  rw [h.stream]
  split
  · exact h.note _ _ _ _
  · dsimp only
    rw [habsorbed.stream]
    have hreceived := habsorbed.put { (fields.foldl Turn.absorb t).stream with headersReceived := true }
    split
    · rename_i n _
      exact (hreceived.put { (fields.foldl Turn.absorb t).stream with
        headersReceived := true, expectedSize := some n }).checkSize hv hR n
    · exact hreceived

theorem receiveData (hv : Codec.Views view) (hR : Accretive R) (h : InLockstep view R t t') (bytes : Bytes)
    (length : Nat) :
    InLockstep view R (t.receiveData m bytes length) (t'.receiveData m bytes length) := by
  obtain ⟨x, c, history, ending⟩ := t
  obtain ⟨x', c', history', ending'⟩ := t'
  obtain rfl : x' = x := h.stream
  let longer : Stream := { x' with response := x'.response.appendBody bytes }
  have htaken : ∀ {u u' : Turn κ}, InLockstep view R u u' → InLockstep view R
      (({ u with stream := longer } : Turn κ).record (Codec.acknowledge u.codec length x'.id) (.acknowledge x'.id length))
      (({ u' with stream := longer } : Turn κ).record (Codec.acknowledge u'.codec length x'.id)
        (.acknowledge x'.id length)) :=
    fun hu => (hu.put longer).record hR (hv.acknowledge hu.view length x'.id) _
  unfold Turn.receiveData
  dsimp only
  split
  · exact h.note _ _ _ _
  · split
    · exact (htaken (h.note .warn .warn _ _)).checkSize hv hR _
    · exact (htaken h).checkSize hv hR _

theorem room (hv : Codec.Views view) (h : InLockstep view R t t') : t'.room = t.room := by
  unfold Turn.room
  rw [hv.window h.view, hv.maxFrame h.view, h.stream]

theorem offer (hv : Codec.Views view) (hR : Accretive R) (h : InLockstep view R t t') :
    t'.offer.1 = t.offer.1 ∧ InLockstep view R t.offer.2 t'.offer.2 := by
  have hroom := h.room hv
  obtain ⟨x, c, history, ending⟩ := t
  obtain ⟨x', c', history', ending'⟩ := t'
  obtain rfl : x' = x := h.stream
  let room := Turn.room (⟨x', c, history, ending⟩ : Turn κ)
  obtain ⟨hret, hcodec⟩ := hv.data h.view x'.id (x'.unsent.take room) (x'.unsent.drop room).isEmpty
  have hrecorded := h.record hR hcodec (.data x'.id (x'.unsent.take room) (x'.unsent.drop room).isEmpty
    (Codec.sendData c x'.id (x'.unsent.take room) (x'.unsent.drop room).isEmpty).1)
  unfold Turn.offer
  dsimp only
  rw [hroom, hret]
  refine ⟨rfl, ?_⟩
  split
  · exact hrecorded.put { x' with unsent := x'.unsent.drop room }
  · exact hrecorded

theorem sendBody (hv : Codec.Views view) (hR : Accretive R) (h : InLockstep view R t t') :
    InLockstep view R (t.sendBody m) (t'.sendBody m) := by
  fun_induction Turn.sendBody m t generalizing t' with
  | case1 t hu hs =>
    unfold Turn.sendBody
    rw [h.stream, if_pos hu, if_pos hs]
    exact h.put { t.stream with state := .halfClosed }
  | case2 t hu hs =>
    unfold Turn.sendBody
    rw [h.stream, if_pos hu, if_neg hs]
    exact h
  | case3 t hu hw =>
    unfold Turn.sendBody
    rw [h.stream, hv.window h.view, if_neg hu, if_pos hw]
    exact h.note _ _ _ _
  | case4 t hu hw hr =>
    unfold Turn.sendBody
    rw [h.stream, hv.window h.view, h.room hv, if_neg hu, if_neg hw, if_pos hr]
    exact h
  | case5 t hu hw hr o ho =>
    rename_i ih
    obtain ⟨hret, hoffered⟩ := h.offer hv hR
    have hnext : t'.sendBody m = t'.offer.2.sendBody m := by
      conv_lhs => unfold Turn.sendBody
      rw [h.stream, hv.window h.view, h.room hv, if_neg hu, if_neg hw, if_neg hr]
      exact if_pos (hret.trans ho)
    rw [hnext]
    exact ih hoffered
  | case6 t hu hw hr o =>
    rename_i ho
    obtain ⟨hret, hoffered⟩ := h.offer hv hR
    unfold Turn.sendBody
    rw [h.stream, hv.window h.view, h.room hv, if_neg hu, if_neg hw, if_neg hr]
    dsimp only
    rw [if_neg (hret ▸ ho)]
    exact (hoffered.note _ _ _ _).resetAndClose hv hR _ _

theorem start (hv : Codec.Views view) (hR : Accretive R) (h : InLockstep view R t t') (url : Url) :
    InLockstep view R (t.start m url) (t'.start m url) := by
  obtain ⟨x, c, history, ending⟩ := t
  obtain ⟨x', c', history', ending'⟩ := t'
  obtain rfl : x' = x := h.stream
  obtain ⟨hret, hcodec⟩ := hv.headers h.view x'.id (x'.requestFields url) x'.request.body.isEmpty
  have hrecorded := h.record hR hcodec (.headers x'.id (x'.requestFields url) x'.request.body.isEmpty
    (Codec.sendHeaders c x'.id (x'.requestFields url) x'.request.body.isEmpty).1)
  unfold Turn.start
  dsimp only
  rw [hret]
  split
  · split
    · exact (hrecorded.put { x' with requestSent := true, state := .halfClosed }).note _ _ _ _
    · exact ((hrecorded.put { x' with requestSent := true, state := .opened }).note _ _ _ _).sendBody hv hR
  · exact (hrecorded.note _ _ _ _).close _ _ _

theorem initiate (hv : Codec.Views view) (hR : Accretive R) (h : InLockstep view R t t') :
    InLockstep view R (t.initiate m) (t'.initiate m) := by
  unfold Turn.initiate
  rw [h.stream]
  split
  · exact h.note _ _ _ _
  · split
    · exact h.start hv hR _
    · exact (h.note _ _ _ _).close _ _ _

theorem receiveWindowUpdate (hv : Codec.Views view) (hR : Accretive R) (h : InLockstep view R t t') :
    InLockstep view R (t.receiveWindowUpdate m) (t'.receiveWindowUpdate m) := by
  unfold Turn.receiveWindowUpdate
  rw [h.stream]
  split
  · exact h.sendBody hv hR
  · exact h

end InLockstep

end Turn

structure Transport.Takes {τ : Type} [Wire.Transport τ] (p : τ → Prop) : Prop where
  succeeds : ∀ t bytes, p t → (Wire.Transport.write t bytes).1 = 0
  keeps : ∀ t bytes, p t → p (Wire.Transport.write t bytes).2
  connected : ∀ t bytes, p t → Wire.Transport.isConnected (Wire.Transport.write t bytes).2 = Wire.Transport.isConnected t
  certificate : ∀ t bytes, p t → Wire.Transport.certificate (Wire.Transport.write t bytes).2 = Wire.Transport.certificate t

def Amounts (said a b : Bytes) : Prop := b.Perm (a ++ said) ∧ (said = [] → b = a)

theorem Amounts.append {said a b : Bytes} (h : Amounts said a b) (new : Bytes) :
    Amounts said (a ++ new) (b ++ new) := by
  obtain ⟨hperm, hsilent⟩ := h
  refine ⟨?_, fun hsaid => congrArg (· ++ new) (hsilent hsaid)⟩
  have hswap : (a ++ said ++ new).Perm (a ++ new ++ said) := by
    rw [List.append_assoc, List.append_assoc]
    exact List.perm_append_comm.append_left a
  exact (hperm.append_right new).trans hswap

theorem accretive_amounts (p : Prop) (said a b : Bytes) :
    Accretive fun waiting waiting' => p → Amounts said (a ++ waiting) (b ++ waiting') := by
  intro w w' new h hp
  rw [← List.append_assoc, ← List.append_assoc]
  exact (h hp).append new

namespace Session

variable {κ τ ω σ ν : Type} [Codec κ] [Transport τ] {view : κ → ν} {p : τ → Prop} {said : Bytes} {r : Reaction κ τ ω σ}
  {u v : Session κ τ ω σ}

/-- Codec, transport and record of two connections in lockstep. What the first one was handed or has waiting, and what
was said besides, is what the second one was handed or has waiting. -/
structure Beside (view : κ → ν) (p : τ → Prop) (said : Bytes) (c : κ) (t : Option τ) (h : History) (c' : κ)
    (t' : Option τ) (h' : History) : Prop where
  view : view c' = view c
  connected : t'.map Transport.isConnected = t.map Transport.isConnected
  certificate : t'.map Transport.certificate = t.map Transport.certificate
  takes : (∀ x ∈ t, p x) ∧ ∀ x ∈ t', p x
  essence : h'.essence = h.essence
  sent : t ≠ none → Amounts said (h.handedOver ++ Codec.waiting c) (h'.handedOver ++ Codec.waiting c')
  unsent : t = none → h'.handedOver = h.handedOver

section Beside

variable {c c' : κ} {t t' : Option τ} {h h' : History}

theorem Beside.lines (hb : Beside view p said c t h c' t' h') {l l' : History} (hl : h.Extends (·.parcel = none) l)
    (hl' : h'.Extends (·.parcel = none) l') (he : l'.essence = l.essence) : Beside view p said c t l c' t' l' where
  view := hb.view
  connected := hb.connected
  certificate := hb.certificate
  takes := hb.takes
  essence := he
  sent := by
    rw [hl.handedOver_eq, hl'.handedOver_eq]
    exact hb.sent
  unsent := by
    rw [hl.handedOver_eq, hl'.handedOver_eq]
    exact hb.unsent

theorem Beside.turns (hb : Beside view p said c t h c' t' h') (x : Stream) : Turn.InLockstep view
    (fun w w' => t ≠ none → Amounts said (h.handedOver ++ w) (h'.handedOver ++ w'))
    ({ stream := x, codec := c, history := h } : Turn κ) { stream := x, codec := c', history := h' } :=
  ⟨rfl, rfl, hb.view, hb.essence, hb.sent⟩

theorem Beside.turn (hb : Beside view p said c t h c' t' h') {x x' : Turn κ} (hx : Turn.InLockstep view
      (fun w w' => t ≠ none → Amounts said (h.handedOver ++ w) (h'.handedOver ++ w')) x x')
    (hl : h.Extends (·.parcel = none) x.history) (hl' : h'.Extends (·.parcel = none) x'.history) :
    Beside view p said x.codec t x.history x'.codec t' x'.history := by
  have hturned : Beside view p said x.codec t h x'.codec t' h' := { hb with view := hx.view, sent := hx.waiting }
  exact hturned.lines hl hl' hx.essence

theorem Beside.enter (hb : Beside view p said c t h c' t' h') {e : Entry} (he : e.parcel = none) :
    Beside view p said c t (e :: h) c' t' (e :: h') :=
  hb.lines (.cons he .refl) (.cons he .refl) (History.essence_cons hb.essence e)

theorem Beside.call (hb : Beside view p said c t h c' t' h') {d d' : κ} (hd : Codec.Parallel view c c' d d') {e : Entry}
    (he : e.parcel = none) : Beside view p said d t (e :: h) d' t' (e :: h') := by
  obtain ⟨new, hnew, hnew'⟩ := hd.waiting
  have hcalled : Beside view p said d t h d' t' h' := by
    refine { hb with view := hd.view, sent := ?_ }
    rw [hnew, hnew']
    exact accretive_amounts _ _ _ _ new hb.sent
  exact hcalled.enter he

theorem Beside.note (hb : Beside view p said c t h c' t' h') (l l' : Log.Line) :
    Beside view p said c t (.log l :: h) c' t' (.log l' :: h') :=
  hb.lines (.cons rfl .refl) (.cons rfl .refl) hb.essence

end Beside

/-- The second connection is like the first one in all but codec, transport and record, and is beside it in those. Both
serve their exchanges, and heard from their peer just now. -/
def Akin (view : κ → ν) (p : τ → Prop) (said : Bytes) (u v : Session κ τ ω σ) : Prop :=
  ∃ codec transport history, v = { u with codec, transport, history } ∧
    Beside view p said u.codec u.transport u.history codec transport history ∧ u.Serving ∧ u.idle.touch u.clock = u.idle

theorem Akin.serving (h : Akin view p said u v) : u.Serving ∧ v.Serving := by
  obtain ⟨codec, transport, history, rfl, -, hs, -⟩ := h
  exact ⟨hs, hs⟩

/-- Observers that are told at once do the same at connections that are akin. -/
def Impartial (r : Reaction κ τ ω σ) (view : κ → ν) (p : τ → Prop) : Prop :=
  ∀ said o news u v, Akin view p said u v → Akin view p said (r.run o news u) (r.run o news v)

/-- Observers that mind their own program are impartial. -/
theorem impartial_of_program {f : ω → News → σ → σ}
    (hr : ∀ o news (s : Session κ τ ω σ), r.run o news s = { s with program := f o news s.program }) :
    Impartial r view p := by
  rintro said o news u _ ⟨codec, transport, history, rfl, hb, hrest⟩
  rw [hr, hr]
  exact ⟨codec, transport, history, rfl, hb, hrest⟩

def InLockstep (r : Reaction κ τ ω σ) (view : κ → ν) (p : τ → Prop) (said : Bytes) (u v : Session κ τ ω σ) : Prop :=
  (u.loop.stopped = false ∨ Impartial r view p) ∧ Akin view p said u v

namespace InLockstep

theorem registry_eq (h : InLockstep r view p said u v) : v.registry = u.registry := by
  obtain ⟨-, codec, transport, history, rfl, -⟩ := h
  rfl

/-! Telling observers, and ending exchanges. -/

theorem note (h : InLockstep r view p said u v) (level level' : Log.Level) (message message' : Bytes)
    (source source' : String) :
    InLockstep r view p said (u.note level message source) (v.note level' message' source') := by
  obtain ⟨hr, codec, transport, history, rfl, hb, hrest⟩ := h
  exact ⟨hr, codec, transport, _, rfl, hb.note _ _, hrest⟩

theorem enter (h : InLockstep r view p said u v) {e : Entry} (he : e.parcel = none) :
    InLockstep r view p said (u.enter e) (v.enter e) := by
  obtain ⟨hr, codec, transport, history, rfl, hb, hrest⟩ := h
  exact ⟨hr, codec, transport, _, rfl, hb.enter he, hrest⟩

theorem tell (h : InLockstep r view p said u v) (n : Notice ω) :
    InLockstep r view p said (u.tell r n) (v.tell r n) := by
  obtain ⟨hr, codec, transport, history, rfl, hb, hrest⟩ := h
  unfold Session.tell
  dsimp only
  cases hpost : u.loop.post n with
  | some loop =>
    obtain ⟨hrunning, rfl⟩ := Loop.post_eq_some_iff.1 hpost
    exact ⟨Or.inl hrunning, codec, transport, history, rfl, hb, hrest⟩
  | none =>
    have himpartial : Impartial r view p := hr.resolve_left fun hrunning =>
      Option.some_ne_none _ ((Loop.post_eq_some_iff.2 ⟨hrunning, rfl⟩).symm.trans hpost)
    exact ⟨Or.inr himpartial, himpartial _ _ _ _ _ ⟨codec, transport, _, rfl, hb.note _ _, hrest⟩⟩

theorem foldl {α : Type} {f : Session κ τ ω σ → α → Session κ τ ω σ}
    (hf : ∀ u v a, InLockstep r view p said u v → InLockstep r view p said (f u a) (f v a)) (as : List α)
    (h : InLockstep r view p said u v) : InLockstep r view p said (as.foldl f u) (as.foldl f v) := by
  induction as generalizing u v with
  | nil => exact h
  | cons a as ih => exact ih (hf u v a h)

theorem tellAll (h : InLockstep r view p said u v) (os : List ω) (news : News) :
    InLockstep r view p said (u.tellAll r os news) (v.tellAll r os news) :=
  h.foldl (fun _ _ o hu => hu.tell ⟨o, news⟩) os

theorem settle (h : InLockstep r view p said u v) (ticket : Ticket) (outcome : Outcome) :
    InLockstep r view p said (u.settle r ticket outcome) (v.settle r ticket outcome) := by
  obtain ⟨hr, codec, transport, history, rfl, hb, hrest⟩ := h
  unfold Session.settle
  dsimp only
  cases u.completions[ticket]? with
  | none => exact ⟨hr, codec, transport, history, rfl, hb, hrest⟩
  | some w =>
    dsimp only
    cases w.fulfil outcome with
    | none => exact ⟨hr, codec, transport, _, rfl, hb.note _ _, hrest⟩
    | some found =>
      obtain ⟨os, w'⟩ := found
      have hgiven : InLockstep r view p said
          (({ u with completions := u.completions.set ticket w' } : Session κ τ ω σ).enter (.settled ticket outcome))
          (({ u with codec, transport, history, completions := u.completions.set ticket w' } : Session κ τ ω σ).enter
            (.settled ticket outcome)) := ⟨hr, codec, transport, _, rfl, hb.enter rfl, hrest⟩
      exact hgiven.tellAll os _

theorem finish (h : InLockstep r view p said u v) (x : Stream) (reason : CloseReason) (causes : List Fault) :
    InLockstep r view p said (u.finish r x reason causes) (v.finish r x reason causes) := by
  obtain ⟨hr, codec, transport, history, rfl, hb, hrest⟩ := h
  let t : Turn κ := Turn.close u.metadata reason causes false { stream := x, codec := u.codec, history := u.history }
  let t' : Turn κ := Turn.close u.metadata reason causes false { stream := x, codec, history }
  have hclosed : Turn.InLockstep view _ t t' := (hb.turns x).close reason causes false
  have hnoted : InLockstep r view p said { u with history := t.history }
      { u with codec, transport, history := t'.history } := by
    refine ⟨hr, codec, transport, _, rfl, hb.lines ?_ ?_ hclosed.essence, hrest⟩
    · exact (Turn.extends_close _ _ _ _).imp fun _ he => he.internal.parcel
    · exact (Turn.extends_close _ _ _ _).imp fun _ he => he.internal.parcel
  have hending : t'.ending = t.ending := hclosed.ending
  unfold Session.finish
  dsimp only
  cases hopen : t.ending with
  | none =>
    have hmute : t'.ending = none := hending.trans hopen
    dsimp only [t'] at hmute
    rw [hmute]
    exact hnoted
  | some e =>
    have hsame : t'.ending = some e := hending.trans hopen
    dsimp only [t'] at hsame
    rw [hsame]
    exact hnoted.settle x.ticket e.outcome

theorem giveUp (h : InLockstep r view p said u v) (x : Stream) :
    InLockstep r view p said (u.giveUp x) (v.giveUp x) := by
  unfold Session.giveUp
  split
  · exact h
  · exact h.note _ _ _ _ _ _

theorem letGo (h : InLockstep r view p said u v) (ticket : Ticket) :
    InLockstep r view p said (u.letGo ticket) (v.letGo ticket) := by
  obtain ⟨hr, codec, transport, history, rfl, hb, hrest⟩ := h
  unfold Session.letGo
  dsimp only
  split
  · exact ⟨hr, codec, transport, history, rfl, hb, hrest⟩
  · split
    · exact ⟨hr, codec, transport, history, rfl, hb, hrest⟩
    · refine giveUp ?_ _
      exact ⟨hr, codec, transport, history, rfl, hb, hrest⟩

theorem release (h : InLockstep r view p said u v) (id : UInt32) :
    (v.release id).1 = (u.release id).1 ∧ InLockstep r view p said (u.release id).2 (v.release id).2 := by
  obtain ⟨hr, codec, transport, history, rfl, hb, hrest⟩ := h
  unfold Session.release
  dsimp only
  cases u.registry.remove id with
  | mk found registry =>
    cases found with
    | none => exact ⟨rfl, hr, codec, transport, _, rfl, hb.note _ _, hrest⟩
    | some x =>
      dsimp only
      split
      · exact ⟨rfl, hr, codec, transport, history, rfl, hb, hrest⟩
      · refine ⟨rfl, giveUp ?_ x⟩
        exact ⟨hr, codec, transport, history, rfl, hb, hrest⟩

end InLockstep

/-! Turns and admission. -/

structure Repeats (view : κ → ν) (act : Metadata → Turn κ → Turn κ) : Prop where
  inLockstep : ∀ {R : Bytes → Bytes → Prop}, Accretive R → ∀ {m : Metadata} {t t' : Turn κ},
    Turn.InLockstep view R t t' → Turn.InLockstep view R (act m t) (act m t')
  callsCodec : ∀ m t, Turn.CallsCodec t (act m t)

theorem repeats_initiate (hv : Codec.Views view) : Repeats view Turn.initiate :=
  ⟨fun hR _ _ _ h => h.initiate hv hR, Turn.callsCodec_initiate⟩

theorem Receipt.repeats (hv : Codec.Views view) {act : Metadata → Turn κ → Turn κ} (ha : Receipt act) :
    Repeats view act := by
  refine ⟨fun hR _ _ _ h => ?_, callsCodec_receive ha⟩
  cases ha with
  | head fields => exact h.receiveHeaders hv hR fields
  | data bytes length => exact h.receiveData hv hR bytes length
  | window => exact h.receiveWindowUpdate hv hR

namespace InLockstep

theorem turn (h : InLockstep r view p said u v) (ticket : Ticket) {act : Metadata → Turn κ → Turn κ}
    (ha : Repeats view act) : (v.turn r ticket act).1 = (u.turn r ticket act).1 ∧
      InLockstep r view p said (u.turn r ticket act).2 (v.turn r ticket act).2 := by
  obtain ⟨hr, codec, transport, history, rfl, hb, hrest⟩ := h
  let w : Session κ τ ω σ := { u with codec, transport, history }
  have hsame : w.streamOf ticket = u.streamOf ticket := rfl
  cases hfind : u.streamOf ticket with
  | none =>
    rw [turn_of_missing r act hfind, turn_of_missing r act (hsame.trans hfind)]
    exact ⟨rfl, hr, codec, transport, history, rfl, hb, hrest⟩
  | some x =>
    let t := act u.metadata (u.turnOf x)
    let t' := act u.metadata (w.turnOf x)
    have hacted : Turn.InLockstep view _ t t' := ha.inLockstep (accretive_amounts _ _ _ _) (hb.turns x)
    have hturned : InLockstep r view p said (u.turned t) (w.turned t') := by
      refine ⟨hr, t'.codec, transport, t'.history, ?_, hb.turn hacted ?_ ?_, hrest⟩
      · unfold turned
        rw [hacted.stream]
        rfl
      · exact (ha.callsCodec u.metadata _).history.imp fun _ => Entry.Internal.parcel
      · exact (ha.callsCodec u.metadata _).history.imp fun _ => Entry.Internal.parcel
    have hending : t'.ending = t.ending := hacted.ending
    cases he : t.ending with
    | none =>
      rw [turn_of_open r hfind he, turn_of_open r (hsame.trans hfind) (hending.trans he)]
      exact ⟨rfl, hturned⟩
    | some e =>
      have hsettled := hturned.settle ticket e.outcome
      rw [turn_of_ended r hfind he, turn_of_ended r (hsame.trans hfind) (hending.trans he)]
      split
      · exact hsettled.release x.id
      · exact ⟨rfl, hsettled⟩

/-! Admission -/

theorem canAdmit (hv : Codec.Views view) (h : InLockstep r view p said u v) :
    v.canAdmit = u.canAdmit ∧ v.isReady = u.isReady ∧ v.streamLimit = u.streamLimit := by
  obtain ⟨hr, codec, transport, history, rfl, hb, hrest⟩ := h
  have hlimit : (Codec.streamLimit codec).toNat = (Codec.streamLimit u.codec).toNat :=
    congrArg UInt32.toNat (hv.streamLimit hb.view)
  have hconnected : transport.any Transport.isConnected = u.transport.any Transport.isConnected := by
    have hmapped := congrArg (Option.any id) hb.connected
    rwa [Option.any_map, Option.any_map] at hmapped
  unfold Session.canAdmit isReady streamLimit
  dsimp only
  rw [hlimit, hconnected]
  exact ⟨rfl, rfl, rfl⟩

theorem recordAdmission (hv : Codec.Views view) (h : InLockstep r view p said u v) (x : Stream) :
    InLockstep r view p said (u.recordAdmission x) (v.recordAdmission x) := by
  obtain ⟨-, hready, hlimit⟩ := h.canAdmit hv
  change InLockstep r view p said
    ((u.note .debug _).enter (.admitted x.ticket u.isReady u.registry.active u.streamLimit))
    ((v.note .debug _).enter (.admitted x.ticket v.isReady v.registry.active v.streamLimit))
  rw [hready, h.registry_eq, hlimit]
  exact (h.note _ _ _ _ _ _).enter rfl

theorem begin (hv : Codec.Views view) (h : InLockstep r view p said u v) (x : Stream) :
    InLockstep r view p said (u.begin r x) (v.begin r x) :=
  ((h.recordAdmission hv x).turn x.ticket (repeats_initiate hv)).2

theorem admitUpTo (hv : Codec.Views view) (h : InLockstep r view p said u v) (n : Nat) :
    InLockstep r view p said (u.admitUpTo r n) (v.admitUpTo r n) := by
  induction n generalizing u v with
  | zero => exact h
  | succ n ih =>
    obtain ⟨hcan, -⟩ := h.canAdmit hv
    obtain ⟨hr, codec, transport, history, rfl, hb, hrest⟩ := h
    unfold Session.admitUpTo
    rw [hcan]
    dsimp only
    split
    · cases u.registry.admitNext with
      | mk found registry =>
        cases found with
        | none => exact ⟨hr, codec, transport, history, rfl, hb, hrest⟩
        | some x =>
          refine ih (begin hv ?_ x)
          exact ⟨hr, codec, transport, history, rfl, hb, hrest⟩
    · exact ⟨hr, codec, transport, history, rfl, hb, hrest⟩

theorem admitQueued (hv : Codec.Views view) (h : InLockstep r view p said u v) :
    InLockstep r view p said (u.admitQueued r) (v.admitQueued r) := by
  obtain ⟨hr, codec, transport, history, rfl, hb, hrest⟩ := h
  unfold Session.admitQueued
  dsimp only
  split
  · exact ⟨hr, codec, transport, history, rfl, hb, hrest⟩
  · have hshut : InLockstep r view p said { u with admitting := true }
        { u with codec, transport, history, admitting := true } := ⟨hr, codec, transport, history, rfl, hb, hrest⟩
    obtain ⟨hr', codec', transport', history', hsame, hb', hrest'⟩ :=
      hshut.admitUpTo hv (u.registry.pendingCount + u.idsLeft)
    have hmost : ({ u with codec, transport, history } : Session κ τ ω σ).idsLeft = u.idsLeft := rfl
    rw [hmost, hsame]
    exact ⟨hr', codec', transport', history', rfl, hb', hrest'⟩

theorem step (hv : Codec.Views view) (h : InLockstep r view p said u v) (ticket : Ticket)
    {act : Metadata → Turn κ → Turn κ} (ha : Repeats view act) :
    InLockstep r view p said (u.step r ticket act) (v.step r ticket act) := by
  obtain ⟨hroom, hturned⟩ := h.turn ticket ha
  rw [step_eq, step_eq, hroom]
  split
  · exact hturned.admitQueued hv
  · exact hturned

/-! Events. -/

theorem withStream (h : InLockstep r view p said u v) (event : Event) {act : Stream → Session κ τ ω σ → Session κ τ ω σ}
    {otherwise : Session κ τ ω σ → Session κ τ ω σ}
    (hact : ∀ x, InLockstep r view p said (act x u) (act x v))
    (hother : ∀ {u v}, InLockstep r view p said u v → InLockstep r view p said (otherwise u) (otherwise v)) :
    InLockstep r view p said (u.withStream event act otherwise) (v.withStream event act otherwise) := by
  unfold Session.withStream
  rw [h.registry_eq]
  split
  · exact hact _
  · exact hother (h.note _ _ _ _ _ _)

theorem receive (hv : Codec.Views view) (h : InLockstep r view p said u v) (event : Event)
    {act : Metadata → Turn κ → Turn κ} (ha : Receipt act) {otherwise : Session κ τ ω σ → Session κ τ ω σ}
    (hother : ∀ {u v}, InLockstep r view p said u v → InLockstep r view p said (otherwise u) (otherwise v)) :
    InLockstep r view p said (u.withStream event (fun x s => s.step r x.ticket act) otherwise)
      (v.withStream event (fun x s => s.step r x.ticket act) otherwise) :=
  h.withStream event (fun x => h.step hv x.ticket (ha.repeats hv)) hother

theorem concludeStream (hv : Codec.Views view) (h : InLockstep r view p said u v) (event : Event)
    {act : Stream → Session κ τ ω σ → Session κ τ ω σ}
    (hact : ∀ x {u v}, InLockstep r view p said u v → InLockstep r view p said (act x u) (act x v)) :
    InLockstep r view p said (u.concludeStream r event act) (v.concludeStream r event act) := by
  obtain ⟨hr, codec, transport, history, rfl, hb, hrest⟩ := h
  unfold Session.concludeStream
  dsimp only
  cases u.registry.remove event.stream with
  | mk found registry =>
    cases found with
    | none => exact ⟨hr, codec, transport, _, rfl, hb.note _ _, hrest⟩
    | some x =>
      refine admitQueued hv (hact x ?_)
      exact ⟨hr, codec, transport, history, rfl, hb, hrest⟩

theorem resume (hv : Codec.Views view) (h : InLockstep r view p said u v) (ticket : Ticket) :
    InLockstep r view p said (Session.resume r u ticket) (Session.resume r v ticket) := by
  have hsame : v.streamOf ticket = u.streamOf ticket := by
    obtain ⟨-, codec, transport, history, rfl, -⟩ := h
    rfl
  unfold Session.resume
  rw [hsame]
  split
  · exact h
  · split
    · exact h
    · exact h.step hv ticket (Receipt.window.repeats hv)

theorem resumeAll (hv : Codec.Views view) (h : InLockstep r view p said u v) :
    InLockstep r view p said (u.resumeAll r) (v.resumeAll r) := by
  have hheld : InLockstep r view p said (u.hold u.registry.tickets) (v.hold u.registry.tickets) := by
    obtain ⟨hr, codec, transport, history, rfl, hb, hrest⟩ := h
    exact ⟨hr, codec, transport, history, rfl, hb, hrest⟩
  rw [resumeAll_eq, resumeAll_eq, h.registry_eq]
  have hresumed := hheld.foldl (fun _ _ ticket hu => hu.resume hv ticket) u.registry.tickets
  exact hresumed.foldl (fun _ _ ticket hu => hu.letGo ticket) u.registry.tickets

theorem acknowledgeSettings (h : InLockstep r view p said u v) :
    InLockstep r view p said u.acknowledgeSettings v.acknowledgeSettings := by
  obtain ⟨hr, codec, transport, history, rfl, hb, hrest⟩ := h
  unfold Session.acknowledgeSettings
  dsimp only
  rw [hb.certificate]
  split
  · exact ⟨hr, codec, transport, _, rfl, (hb.note _ _).note _ _, hrest⟩
  · exact ⟨hr, codec, transport, _, rfl, (hb.note _ _).note _ _, hrest⟩
  · exact ⟨hr, codec, transport, _, rfl, hb.note _ _, hrest⟩

theorem handle (hv : Codec.Views view) (h : InLockstep r view p said u v) {event : Event}
    (he : ∀ code last debug, event.body ≠ .terminated code last debug) :
    InLockstep r view p said (u.handle r event) (v.handle r event) := by
  obtain ⟨stream, body⟩ := event
  unfold Session.handle
  cases body with
  | response fields => exact h.receive hv _ (.head fields) id
  | data bytes length =>
    refine h.receive hv _ (.data bytes length) fun hu => ?_
    obtain ⟨hr, codec, transport, history, rfl, hb, hrest⟩ := hu
    exact ⟨hr, _, transport, _, rfl, hb.call (hv.acknowledge hb.view length stream) rfl, hrest⟩
  | ended => exact h.concludeStream hv _ fun x _ _ hu => hu.finish x _ _
  | reset code => exact h.concludeStream hv _ fun x _ _ hu => (hu.note _ _ _ _ _ _).finish x _ _
  | windowUpdated =>
    dsimp only
    split
    · exact h.resumeAll hv
    · exact h.receive hv _ .window id
  | settingsAcknowledged => exact h.acknowledgeSettings.admitQueued hv
  | remoteSettingsChanged => exact h.admitQueued hv
  | terminated code last debug => exact absurd rfl (he code last debug)
  | unknownFrame frame => exact h.note _ _ _ _ _ _
  | unlisted kind => exact h

theorem handleAll (hv : Codec.Views view) (h : InLockstep r view p said u v) {events : List Event}
    (he : ∀ event ∈ events, ∀ code last debug, event.body ≠ .terminated code last debug) :
    InLockstep r view p said (u.handleAll r events) (v.handleAll r events) := by
  unfold Session.handleAll
  induction events generalizing u v with
  | nil => exact h
  | cons event events ih =>
    obtain ⟨hevent, hrest⟩ := List.forall_mem_cons.1 he
    obtain ⟨hs, hs'⟩ := h.2.serving
    refine ih ?_ hrest
    dsimp only
    rw [if_neg (in_service hs), if_neg (in_service hs')]
    exact (h.enter rfl).handle hv hevent

end InLockstep

end Session

end Multiplex
