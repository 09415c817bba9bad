import Multiplex.Proofs.Freeze
import Multiplex.Proofs.Lockstep

/-! How received bytes are cut makes no difference. Whatever calls bring a list of events, in the end the connection is
the same as if it had handled them at one go, and its transport was handed the same. -/
namespace Multiplex

open Bytes Wire

theorem IdleDeadline.touch_touch (d : IdleDeadline) (now : UInt64) : (d.touch now).touch now = d.touch now := by
  unfold touch
  split
  · rfl
  · rfl

namespace Amounts

variable {said said' a b c : Bytes}

theorem refl (a : Bytes) : Amounts [] a a :=
  ⟨.of_eq (List.append_nil a).symm, fun _ => rfl⟩

theorem symm (h : Amounts [] a b) : Amounts [] b a := by
  rw [h.2 rfl]
  exact refl a

theorem trans (h : Amounts said a b) (h' : Amounts said' b c) : Amounts (said ++ said') a c := by
  obtain ⟨hperm, hsilent⟩ := h
  obtain ⟨hperm', hsilent'⟩ := h'
  refine ⟨?_, fun hboth => ?_⟩
  · rw [← List.append_assoc]
    exact hperm'.trans (hperm.append_right said')
  · obtain ⟨hsaid, hsaid'⟩ := List.append_eq_nil_iff.1 hboth
    exact (hsilent' hsaid').trans (hsilent hsaid)

theorem perm (h : Amounts said a b) (h' : Amounts said' a c) (hsaid : said.Perm said') : b.Perm c :=
  (h.1.trans (hsaid.append_left a)).trans h'.1.symm

end Amounts

namespace Session

variable {κ τ ω σ ν : Type} [Codec κ] [Transport τ] {view : κ → ν} {p : τ → Prop} {said said' : Bytes}
  {r : Reaction κ τ ω σ} {s u v w : Session κ τ ω σ} {events : List Event}

theorem flush_of_taken {t : τ} (hsome : (Codec.takeOutput s.codec).1.isEmpty = false) (ht : s.transport = some t)
    (hl : s.lost = false) (hret : (Transport.write t (Codec.takeOutput s.codec).1).1 = 0) (r : Reaction κ τ ω σ) :
    s.flush r = s.written t := by
  have hopen : (s.transport.filter fun _ => !s.lost) = some t := by
    rw [ht, hl]
    rfl
  unfold flush written
  dsimp only
  rw [if_neg (Bool.eq_false_iff.1 hsome), hopen]
  dsimp only
  rw [if_pos hret, if_pos hret]
  rfl

/-! Being beside one another is an equivalence, up to what is said. -/

namespace Beside

variable {c c' c'' : κ} {t t' t'' : Option τ} {h h' h'' : History}

theorem refl (ht : ∀ x ∈ t, p x) (c : κ) (h : History) : Beside view p [] c t h c t h :=
  ⟨rfl, rfl, rfl, ⟨ht, ht⟩, rfl, fun _ => .refl _, fun _ => rfl⟩

theorem wired (hb : Beside view p said c t h c' t' h') : t' = none ↔ t = none := by
  rw [← Option.map_eq_none_iff, hb.connected, Option.map_eq_none_iff]

theorem symm (hb : Beside view p [] c t h c' t' h') : Beside view p [] c' t' h' c t h where
  view := hb.view.symm
  connected := hb.connected.symm
  certificate := hb.certificate.symm
  takes := hb.takes.symm
  essence := hb.essence.symm
  sent ht' := (hb.sent fun ht => ht' (hb.wired.2 ht)).symm
  unsent ht' := (hb.unsent (hb.wired.1 ht')).symm

theorem trans (hb : Beside view p said c t h c' t' h') (hb' : Beside view p said' c' t' h' c'' t'' h'') :
    Beside view p (said ++ said') c t h c'' t'' h'' where
  view := hb'.view.trans hb.view
  connected := hb'.connected.trans hb.connected
  certificate := hb'.certificate.trans hb.certificate
  takes := ⟨hb.takes.1, hb'.takes.2⟩
  essence := hb'.essence.trans hb.essence
  sent ht := (hb.sent ht).trans (hb'.sent fun ht' => ht (hb.wired.1 ht'))
  unsent ht := (hb'.unsent (hb.wired.2 ht)).trans (hb.unsent ht)

end Beside

/-! Reading, and sending what waits, each leaves the connection beside what it was. -/

theorem beside_receive (hv : Codec.Views view) {t : Option τ} (ht : ∀ x ∈ t, p x) {c : κ} (h : History)
    {data new : Bytes} (hsaid : Codec.waiting (Codec.receive c data).2 = Codec.waiting c ++ new) :
    Beside view p new c t h (Codec.receive c data).2 t (.call (.receive data) :: h) := by
  have hlines : h.Extends (·.parcel = none) (.call (.receive data) :: h) := .cons rfl .refl
  constructor
  · exact hv.receive c data
  · rfl
  · rfl
  · exact ⟨ht, ht⟩
  · rfl
  · intro _
    rw [hlines.handedOver_eq, hsaid, ← List.append_assoc]
    exact ⟨.refl _, fun hnew => by rw [hnew, List.append_nil]⟩
  · exact fun _ => hlines.handedOver_eq

theorem beside_drain (hv : Codec.Views view) {t : Option τ} (ht : ∀ x ∈ t, p x) {c : κ} {h h' : History}
    (hnowhere : Codec.waiting c = [] ∨ t = none) (hl : h.Extends (·.parcel = none) h') (he : h'.essence = h.essence) :
    Beside view p [] c t h (Codec.takeOutput c).2 t h' := by
  obtain ⟨hview, hwaiting⟩ := hv.taken c
  refine ⟨hview, rfl, rfl, ⟨ht, ht⟩, he, fun hwired => ?_, fun _ => hl.handedOver_eq⟩
  rw [hwaiting, hnowhere.resolve_right hwired, hl.handedOver_eq]
  exact .refl _

theorem beside_write (hv : Codec.Views view) (hp : Transport.Takes p) {x : τ} (hx : p x) (c : κ) (h : History)
    (ret : Int32) :
    Beside view p [] c (some x) h (Codec.takeOutput c).2 (some (Transport.write x (Codec.waiting c)).2)
      (.call (.write (Codec.waiting c) ret) :: h) := by
  obtain ⟨hview, hwaiting⟩ := hv.taken c
  constructor
  · exact hview
  · exact congrArg some (hp.connected x _ hx)
  · exact congrArg some (hp.certificate x _ hx)
  · constructor
    · rintro _ ⟨⟩
      exact hx
    · rintro _ ⟨⟩
      exact hp.keeps x _ hx
  · rfl
  · intro _
    rw [History.handedOver_cons_write, hwaiting, List.append_nil]
    exact .refl _
  · exact nofun

/-! Connections that are akin. -/

namespace Akin

theorem refl (hs : s.Serving) (ht : ∀ t ∈ s.transport, p t) (hi : s.idle.touch s.clock = s.idle) : Akin view p [] s s :=
  ⟨s.codec, s.transport, s.history, rfl, .refl ht _ _, hs, hi⟩

theorem symm (h : Akin view p [] u v) : Akin view p [] v u := by
  obtain ⟨codec, transport, history, rfl, hb, hrest⟩ := h
  exact ⟨u.codec, u.transport, u.history, rfl, hb.symm, hrest⟩

theorem trans (h : Akin view p said u v) (h' : Akin view p said' v w) : Akin view p (said ++ said') u w := by
  obtain ⟨codec, transport, history, rfl, hb, hrest⟩ := h
  obtain ⟨codec', transport', history', rfl, hb', -⟩ := h'
  exact ⟨codec', transport', history', rfl, hb.trans hb', hrest⟩

theorem first (h : Akin view p said u v) : Akin view p [] u u := by
  obtain ⟨codec, transport, history, rfl, hb, hs, hi⟩ := h
  exact refl hs hb.takes.1 hi

theorem received (hv : Codec.Views view) (h : Akin view p said u v) {data new : Bytes}
    (hsaid : Codec.waiting (Codec.receive v.codec data).2 = Codec.waiting v.codec ++ new) :
    Akin view p (said ++ new) u (v.received data) := by
  refine h.trans ?_
  obtain ⟨codec, transport, history, rfl, hb, hs, hi⟩ := h
  refine ⟨_, transport, _, ?_, beside_receive hv hb.takes.2 history hsaid, hs, hi⟩
  unfold Session.received
  dsimp only
  rw [hi]
  rfl

theorem flush (hv : Codec.Views view) (hp : Transport.Takes p) (h : Akin view p said u v) (r : Reaction κ τ ω σ) :
    Akin view p [] v (v.flush r) ∧ Codec.waiting (v.flush r).codec = [] := by
  obtain ⟨codec, transport, history, rfl, hb, hs, hi⟩ := h
  obtain ⟨-, hwaiting⟩ := hv.taken codec
  rcases flush_cases r ({ u with codec, transport, history } : Session κ τ ω σ) with
    ⟨hnowhere, hflush⟩ | ⟨t, hsome, ht, hl, -⟩
  · have hnothing : Codec.waiting codec = [] ∨ transport = none := hnowhere.imp List.isEmpty_iff.1 fun hnone =>
      hnone.resolve_right fun hlost => Bool.noConfusion (hs.1.symm.trans hlost)
    rcases hflush with hflush | ⟨message, hflush⟩
    · rw [hflush]
      exact ⟨⟨_, _, _, rfl, beside_drain hv hb.takes.2 hnothing .refl rfl, hs, hi⟩, hwaiting⟩
    · rw [hflush]
      exact ⟨⟨_, _, _, rfl, beside_drain hv hb.takes.2 hnothing (.cons rfl .refl) rfl, hs, hi⟩, hwaiting⟩
  · obtain rfl : transport = some t := ht
    have htakes : p t := hb.takes.2 t rfl
    have hret : (Transport.write t (Codec.takeOutput codec).1).1 = 0 := hp.succeeds t _ htakes
    rw [flush_of_taken hsome rfl hl hret]
    refine ⟨⟨_, _, _, ?_, beside_write hv hp htakes codec history (Transport.write t (Codec.waiting codec)).1, hs, hi⟩,
      hwaiting⟩
    unfold written
    dsimp only
    rw [if_pos hret, hi]
    rfl

end Akin

/-! Observers that submit requests are impartial. -/

namespace InLockstep

theorem after (h : InLockstep r view p said u v) (hv : Akin view p said' v w) :
    InLockstep r view p (said ++ said') u w :=
  ⟨h.1, h.2.trans hv⟩

theorem flush (hv : Codec.Views view) (hp : Transport.Takes p) (h : InLockstep r view p said u v) :
    InLockstep r view p said (u.flush r) (v.flush r) := by
  obtain ⟨hr, hakin⟩ := h
  have hv' := (hakin.flush hv hp r).1
  have hu := (hakin.first.flush hv hp r).1
  have hboth : Akin view p ([] ++ (said ++ [])) (u.flush r) (v.flush r) := hu.symm.trans (hakin.trans hv')
  rw [List.append_nil, List.nil_append] at hboth
  refine ⟨?_, hboth⟩
  obtain ⟨codec, transport, history, hflush, -⟩ := hu
  rw [hflush]
  exact hr

theorem submit (hv : Codec.Views view) (hp : Transport.Takes p) (h : InLockstep r view p said u v) (request : Request) :
    InLockstep r view p said (u.submit r request).2 (v.submit r request).2 := by
  obtain ⟨hr, codec, transport, history, rfl, hb, hrest⟩ := h
  let w : Session κ τ ω σ := { u with codec, transport, history }
  cases hrefusal : u.refusal with
  | some cause =>
    obtain ⟨message, hrefused⟩ := submit_of_refused r request hrefusal
    obtain ⟨message', hrefused'⟩ := submit_of_refused r request (show w.refusal = some cause from hrefusal)
    rw [hrefused, hrefused']
    refine finish ?_ _ _ _
    exact ⟨hr, codec, transport, _, rfl, hb.note _ _, hrest⟩
  | none =>
    have hissuable : u.issueTicket.2.refusal = none := hrefusal
    have hissuable' : w.issueTicket.2.refusal = none := hrefusal
    unfold Session.submit
    dsimp only
    rw [hissuable, hissuable']
    dsimp only [issueTicket, w]
    split
    · refine finish ?_ _ _ _
      exact ⟨hr, codec, transport, _, rfl, (hb.note _ _).note _ _, hrest⟩
    · refine letGo (flush hv hp (admitQueued hv ?_)) _
      exact ⟨hr, codec, transport, _, rfl, hb.note _ _, hrest⟩

end InLockstep

theorem impartial_of_submits (hv : Codec.Views view) (hp : Transport.Takes p) {r₀ : Reaction κ τ ω σ}
    (h₀ : Impartial r₀ view p) {f : ω → News → List Request}
    (hr : ∀ o news s, r.run o news s = (f o news).foldl (fun s request => (s.submit r₀ request).2) s) :
    Impartial r view p := by
  intro said o news u v h
  rw [hr, hr]
  have hlockstep : InLockstep r₀ view p said u v := ⟨Or.inr h₀, h⟩
  exact (hlockstep.foldl (fun _ _ request hu => hu.submit hv hp request) (f o news)).2

/-! Delivery. -/

/-- Consecutive calls that bring a list of events, and what the codec says of its own accord when it reads. -/
inductive Delivered (r : Reaction κ τ ω σ) (s : Session κ τ ω σ) : List Event → Bytes → Session κ τ ω σ → Prop
  | first {events : List Event} {data said : Bytes}
      (hread : (Codec.receive s.codec data).1 = .ok events)
      (hsaid : Codec.waiting (Codec.receive s.codec data).2 = Codec.waiting s.codec ++ said) :
      Delivered r s events said (s.bytesReceived r data)
  | more {u : Session κ τ ω σ} {before events : List Event} {data said new : Bytes} (h : Delivered r s before said u)
      (hread : (Codec.receive u.codec data).1 = .ok events)
      (hsaid : Codec.waiting (Codec.receive u.codec data).2 = Codec.waiting u.codec ++ new) :
      Delivered r s (before ++ events) (said ++ new) (u.bytesReceived r data)

def heard (s : Session κ τ ω σ) : Session κ τ ω σ := { s with idle := s.idle.touch s.clock }

/-- One more call. The connection that it brings events to stays inLockstep of one that handles them without any call.
-/
theorem InLockstep.bytesReceived (hv : Codec.Views view) (hp : Transport.Takes p) (h : InLockstep r view p said u v)
    {data new : Bytes} (hread : (Codec.receive v.codec data).1 = .ok events)
    (hsaid : Codec.waiting (Codec.receive v.codec data).2 = Codec.waiting v.codec ++ new)
    (he : ∀ event ∈ events, ∀ code last debug, event.body ≠ .terminated code last debug) :
    InLockstep r view p (said ++ new) (u.handleAll r events) (v.bytesReceived r data) ∧
      Codec.waiting (v.bytesReceived r data).codec = [] := by
  have hreceived : InLockstep r view p (said ++ new) u (v.received data) := ⟨h.1, h.2.received hv hsaid⟩
  have hhandled := hreceived.handleAll hv he
  obtain ⟨hflushed, hwaiting⟩ := hhandled.2.flush hv hp r
  have hall := hhandled.after hflushed
  rw [List.append_nil] at hall
  rw [bytesReceived_of_batch h.2.serving.2 hread]
  exact ⟨hall, hwaiting⟩

theorem bytesReceived_heard (hs : s.Serving) (r : Reaction κ τ ω σ) (data : Bytes) :
    s.heard.bytesReceived r data = s.bytesReceived r data := by
  unfold Session.bytesReceived heard
  dsimp only
  rw [if_neg (in_service hs), if_neg (in_service hs), s.idle.touch_touch s.clock]

theorem Delivered.inLockstep (hv : Codec.Views view) (hp : Transport.Takes p) (hs : s.Serving)
    (ht : ∀ t ∈ s.transport, p t) (hr : s.loop.stopped = false ∨ Impartial r view p) (h : Delivered r s events said u)
    (he : ∀ event ∈ events, ∀ code last debug, event.body ≠ .terminated code last debug) :
    InLockstep r view p said (s.heard.handleAll r events) u ∧ Codec.waiting u.codec = [] := by
  induction h with
  | first hread hsaid =>
    rw [← bytesReceived_heard hs]
    have hheard : InLockstep r view p [] s.heard s.heard := ⟨hr, .refl hs ht (s.idle.touch_touch s.clock)⟩
    exact hheard.bytesReceived hv hp hread hsaid he
  | more h hread hsaid ih =>
    obtain ⟨hbefore, hevents⟩ := List.forall_mem_append.1 he
    rw [handleAll_append]
    exact (ih hbefore).1.bytesReceived hv hp hread hsaid hevents

/-- Two connections have come to the same. They are equal but for codec, transport and record; the codecs look the same,
the transports are still connected or not, and what was asked of the codecs about exchanges, what ended them and how is
the same, in the same order. -/
structure Converged (view : κ → ν) (u v : Session κ τ ω σ) : Prop where
  same : v = { u with codec := v.codec, transport := v.transport, history := v.history }
  view : view v.codec = view u.codec
  connected : v.transport.map Transport.isConnected = u.transport.map Transport.isConnected
  essence : v.history.essence = u.history.essence
  nothingWaits : Codec.waiting u.codec = [] ∧ Codec.waiting v.codec = []

/-- How received bytes are cut makes no difference. A connection that serves its exchanges, at a codec that only it
makes change its windows and limits, and with a transport that takes every write, comes to the same by any calls that
bring the same events in the same order, however many they are, unless one of the events ends the connection. If the
codec says the same of its own accord, the transport is handed the same bytes, and if it says nothing, in the same
order. Observers are told through the loop, or make no difference between connections that are akin. -/
theorem run_batching (hv : Codec.Views view) (hp : Transport.Takes p) (hs : s.Serving) (ht : ∀ t ∈ s.transport, p t)
    (hr : s.loop.stopped = false ∨ Impartial r view p)
    (he : ∀ event ∈ events, ∀ code last debug, event.body ≠ .terminated code last debug)
    (hu : Delivered r s events said u) (hv' : Delivered r s events said' v) :
    Converged view u v ∧ (said.Perm said' → u.history.handedOver.Perm v.history.handedOver) ∧
      (said = [] → said' = [] → v.history.handedOver = u.history.handedOver) := by
  obtain ⟨⟨-, codec, transport, history, rfl, hb, -⟩, hwaiting⟩ := hu.inLockstep hv hp hs ht hr he
  obtain ⟨⟨-, codec', transport', history', rfl, hb', -⟩, hwaiting'⟩ := hv'.inLockstep hv hp hs ht hr he
  have hview := hb'.view.trans hb.view.symm
  have hconnected := hb'.connected.trans hb.connected.symm
  have hessence := hb'.essence.trans hb.essence.symm
  refine ⟨⟨rfl, hview, hconnected, hessence, hwaiting, hwaiting'⟩, ?_⟩
  change Codec.waiting codec = [] at hwaiting
  change Codec.waiting codec' = [] at hwaiting'
  dsimp only
  -- Without a transport nothing is handed over, whatever the codec says.
  by_cases hwired : (s.heard.handleAll r events).transport = none
  · rw [hb.unsent hwired, hb'.unsent hwired]
    exact ⟨fun _ => .refl _, fun _ _ => rfl⟩
  · have hsent := hb.sent hwired
    have hsent' := hb'.sent hwired
    rw [hwaiting, List.append_nil] at hsent
    rw [hwaiting', List.append_nil] at hsent'
    exact ⟨Amounts.perm hsent hsent', fun hsaid hsaid' => (hsent'.2 hsaid').trans (hsent.2 hsaid).symm⟩

end Session

structure Scripted.Echo where
  codec : Codec

namespace Scripted.Echo

def read (b : UInt8) : Event :=
  match Char.ofNat b.toNat with
  | 'a' => { body := .settingsAcknowledged }
  | 'h' => { body := .response [(ascii ":status", ascii "200")], stream := 1 }
  | 'd' => { body := .data (ascii "ok") 2, stream := 1 }
  | 'e' => { body := .ended, stream := 1 }
  | _ => { body := .remoteSettingsChanged }

theorem read_ne_terminated (b : UInt8) (code : ErrorCode) (last : UInt32) (debug : Bytes) :
    (read b).body ≠ .terminated code last debug := by
  unfold read
  split <;> exact nofun

instance : Wire.Codec Echo where
  receive e data := (.ok (data.map read), { e with codec := e.codec.emit data })
  takeOutput e := ((Codec.takeOutput e.codec).1, { e with codec := (Codec.takeOutput e.codec).2 })
  initiate e settings := { e with codec := Codec.initiate e.codec settings }
  close e code := { e with codec := Codec.close e.codec code }
  sendHeaders e id fields endStream :=
    ((Codec.sendHeaders e.codec id fields endStream).1,
      { e with codec := (Codec.sendHeaders e.codec id fields endStream).2 })
  sendData e id bytes endStream :=
    ((Codec.sendData e.codec id bytes endStream).1, { e with codec := (Codec.sendData e.codec id bytes endStream).2 })
  reset e id code := ((Codec.reset e.codec id code).1, { e with codec := (Codec.reset e.codec id code).2 })
  acknowledge e length id := { e with codec := Codec.acknowledge e.codec length id }
  window e := Codec.window e.codec
  maxFrame e := Codec.maxFrame e.codec
  localLimit e := Codec.localLimit e.codec
  remoteLimit e := Codec.remoteLimit e.codec
  openOutbound e := Codec.openOutbound e.codec
  openInbound e := Codec.openInbound e.codec

def script (e : Echo) : Scripted.Codec := { e.codec with output := [] }

section Parallel

variable {e e' d d' : Echo}

theorem waiting_of_output {bytes : Bytes} (h : d.codec.output = bytes :: e.codec.output) :
    Codec.waiting d = Codec.waiting e ++ bytes :=
  (congrArg (·.reverse.flatten) h).trans (Booked.waiting_emit e.codec bytes)

theorem parallel_emit (hscript : script d' = script d) {bytes : Bytes} (h : d.codec.output = bytes :: e.codec.output)
    (h' : d'.codec.output = bytes :: e'.codec.output) : Codec.Parallel script e e' d d' :=
  ⟨hscript, bytes, waiting_of_output h, waiting_of_output h'⟩

theorem parallel_silent (hscript : script d' = script d) (h : d.codec.output = e.codec.output)
    (h' : d'.codec.output = e'.codec.output) : Codec.Parallel script e e' d d' := by
  refine ⟨hscript, [], ?_, ?_⟩
  · rw [List.append_nil]
    exact congrArg (·.reverse.flatten) h
  · rw [List.append_nil]
    exact congrArg (·.reverse.flatten) h'

end Parallel

theorem eq_of_script {e e' : Echo} (h : script e' = script e) :
    ∃ output, e' = ⟨{ e.codec with output := output }⟩ :=
  ⟨e'.codec.output, congrArg (fun c => (⟨{ c with output := e'.codec.output }⟩ : Echo)) h⟩

theorem views_script : Codec.Views script where
  receive _ _ := rfl
  taken _ := ⟨rfl, rfl⟩
  window h := by
    obtain ⟨output, rfl⟩ := eq_of_script h
    rfl
  maxFrame h := by
    obtain ⟨output, rfl⟩ := eq_of_script h
    rfl
  streamLimit h := by
    obtain ⟨output, rfl⟩ := eq_of_script h
    rfl
  headers {e e'} h id fields endStream := by
    obtain ⟨output, rfl⟩ := eq_of_script h
    refine ⟨rfl, ?_⟩
    dsimp only [Codec.sendHeaders]
    split
    · exact parallel_emit rfl rfl rfl
    · exact parallel_silent rfl rfl rfl
  data {e e'} h id bytes endStream := by
    obtain ⟨output, rfl⟩ := eq_of_script h
    refine ⟨rfl, ?_⟩
    have hfits : ({ e.codec with data := e.codec.data.next.2, output := output } : Scripted.Codec).fits id bytes.length =
        ({ e.codec with data := e.codec.data.next.2 } : Scripted.Codec).fits id bytes.length := rfl
    dsimp only [Codec.sendData]
    rw [hfits]
    split
    · split
      · exact parallel_emit rfl rfl rfl
      · exact parallel_silent rfl rfl rfl
    · split
      · exact parallel_emit rfl rfl rfl
      · exact parallel_silent rfl rfl rfl
  reset {e e'} h id code := by
    obtain ⟨output, rfl⟩ := eq_of_script h
    refine ⟨rfl, ?_⟩
    dsimp only [Codec.reset]
    split
    · exact parallel_emit rfl rfl rfl
    · exact parallel_silent rfl rfl rfl
  acknowledge {e e'} h length id := by
    obtain ⟨output, rfl⟩ := eq_of_script h
    exact parallel_silent rfl rfl rfl

end Scripted.Echo

def Scripted.Transport.Willing (t : Transport) : Prop := t.writes = {}

theorem Scripted.Transport.takes_willing : Transport.Takes Willing where
  succeeds t _ ht := by
    change t.writes.next.1 = 0
    rw [show t.writes = {} from ht]
    rfl
  keeps t _ ht := by
    change t.writes.next.2 = {}
    rw [show t.writes = {} from ht]
    rfl
  connected _ _ _ := rfl
  certificate _ _ _ := rfl

namespace Session

/-- On a loop that has stopped, the observer of a request asks for another one as soon as the answer ends. The answer is
read at one go, or in three parts. -/
theorem run_batching_scripted :
    ∃ (s u v : Session Scripted.Echo Scripted.Transport Unit Unit)
      (r : Reaction Scripted.Echo Scripted.Transport Unit Unit) (events : List Event) (said said' : Bytes),
        Codec.Views Scripted.Echo.script ∧ Transport.Takes Scripted.Transport.Willing ∧ s.Serving ∧
        (∀ t ∈ s.transport, t.Willing) ∧ s.loop.stopped = true ∧
        Impartial r Scripted.Echo.script Scripted.Transport.Willing ∧
        (∀ event ∈ events, ∀ code last debug, event.body ≠ .terminated code last debug) ∧
        Delivered r s events said u ∧ Delivered r s events said' v ∧ Converged Scripted.Echo.script u v ∧
        u.history.handedOver.Perm v.history.handedOver ∧
        u.history.handedOver = ascii "PREFACE;sahdeHEADERS(1);HEADERS(3);" ∧
        v.history.handedOver = ascii "PREFACE;saHEADERS(1);hdeHEADERS(3);" := by
  let request : Request := { url := ascii "https://example.com/" }
  let content : Reaction Scripted.Echo Scripted.Transport Unit Unit := ⟨fun _ _ s => s⟩
  let r : Reaction Scripted.Echo Scripted.Transport Unit Unit := ⟨fun _ _ s => (s.submit content request).2⟩
  let s₀ : Session Scripted.Echo Scripted.Transport Unit Unit := { fresh { codec := {} } with loop := { stopped := true } }
  let s := s₀.performAll r [.established (some {}), .submit request, .observe 0 ()]
  let events := (ascii "sahde").map Scripted.Echo.read
  let u := s.bytesReceived r (ascii "sahde")
  let v := ((s.bytesReceived r (ascii "sa")).bytesReceived r []).bytesReceived r (ascii "hde")
  have hsaid : ∀ (w : Session Scripted.Echo Scripted.Transport Unit Unit) data,
      Codec.waiting (Codec.receive w.codec data).2 = Codec.waiting w.codec ++ data := fun _ _ =>
    Scripted.Echo.waiting_of_output rfl
  have hs : s.lost = false ∧ s.closing = false ∧ s.loop.stopped = true ∧ s.transport.map (·.writes) = some {} := by
    decide +kernel
  have hwilling : ∀ t ∈ s.transport, t.Willing := by
    intro t ht
    have hwrites := hs.2.2.2
    rw [show s.transport = some t from ht] at hwrites
    exact Option.some.inj hwrites
  have hcontent : Impartial content Scripted.Echo.script Scripted.Transport.Willing :=
    impartial_of_program (f := fun _ _ program => program) fun _ _ _ => rfl
  have hr : Impartial r Scripted.Echo.script Scripted.Transport.Willing :=
    impartial_of_submits (f := fun _ _ => [request]) Scripted.Echo.views_script Scripted.Transport.takes_willing hcontent
      fun _ _ _ => rfl
  have he : ∀ event ∈ events, ∀ code last debug, event.body ≠ .terminated code last debug :=
    List.forall_mem_map.2 fun b _ => Scripted.Echo.read_ne_terminated b
  have hu : Delivered r s events (ascii "sahde") u := .first rfl (hsaid s _)
  have hcut : events = (ascii "sa").map Scripted.Echo.read ++ ([] : Bytes).map Scripted.Echo.read ++
      (ascii "hde").map Scripted.Echo.read := rfl
  have hv : Delivered r s events (ascii "sa" ++ [] ++ ascii "hde") v := by
    rw [hcut]
    exact .more (.more (.first rfl (hsaid s _)) rfl (hsaid _ _)) rfl (hsaid _ _)
  obtain ⟨hconverged, hperm, -⟩ := run_batching Scripted.Echo.views_script Scripted.Transport.takes_willing ⟨hs.1, hs.2.1⟩
    hwilling (Or.inr hr) he hu hv
  refine ⟨s, u, v, r, events, _, _, Scripted.Echo.views_script, Scripted.Transport.takes_willing, ⟨hs.1, hs.2.1⟩, hwilling,
    hs.2.2.1, hr, he, hu, hv, hconverged, hperm (.refl _), ?_⟩
  decide +kernel

end Session

end Multiplex
