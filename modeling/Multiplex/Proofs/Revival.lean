import Multiplex.Proofs.IoSteps

/-! What closing ends for good, and the one thing that undoes it. A connection that is closing neither opens again nor
starts its deadline nor takes another transport, on any loop, unless it is given one before it hears of its loss: then
it does all three. -/
namespace Multiplex

open Bytes Wire

def Entry.Opens (e : Entry) : Prop := ∃ settings, e = .call (.initiate settings)

def Entry.Uneventful (e : Entry) : Prop := ¬e.Opens ∧ e ≠ .call .lose

theorem Entry.uneventful_receive (data : Bytes) : (Entry.call (.receive data)).Uneventful := by
  constructor
  · rintro ⟨settings, heq⟩
    cases heq
  · exact nofun

theorem Entry.Internal.uneventful {e : Entry} (h : e.Internal) : e.Uneventful := by
  constructor
  · rintro ⟨settings, rfl⟩
    exact h
  · rintro rfl
    exact h

namespace History

variable {h h' : History} {e : Entry}

def Revived (h : History) : Prop := ∃ e earlier, e :: earlier <:+ h ∧ e.Opens ∧ .call .lose ∈ earlier

theorem revived_cons : Revived (e :: h) ↔ e.Opens ∧ .call .lose ∈ h ∨ h.Revived := by
  constructor
  · rintro ⟨x, earlier, hsuffix, hopens, hlose⟩
    rcases List.suffix_cons_iff.1 hsuffix with heq | hsuffix
    · cases heq
      exact Or.inl ⟨hopens, hlose⟩
    · exact Or.inr ⟨x, earlier, hsuffix, hopens, hlose⟩
  · rintro (⟨hopens, hlose⟩ | ⟨x, earlier, hsuffix, hopens, hlose⟩)
    · exact ⟨e, h, List.suffix_refl _, hopens, hlose⟩
    · exact ⟨x, earlier, hsuffix.trans (List.suffix_cons _ _), hopens, hlose⟩

theorem revived_cons_of_quiet (he : ¬e.Opens) : Revived (e :: h) ↔ h.Revived := by
  rw [revived_cons]
  exact or_iff_right fun hboth => he hboth.1

theorem Revived.asked (hr : h.Revived) : .call .lose ∈ h := by
  obtain ⟨e, earlier, hsuffix, -, hlose⟩ := hr
  exact hsuffix.subset (List.mem_cons_of_mem e hlose)

theorem Extends.revived_iff (hh : h.Extends Entry.Uneventful h') : h'.Revived ↔ h.Revived := by
  obtain ⟨new, rfl, hnew⟩ := hh
  induction new with
  | nil => exact Iff.rfl
  | cons e new ih =>
    obtain ⟨he, hrest⟩ := List.forall_mem_cons.1 hnew
    exact (revived_cons_of_quiet he.1).trans (ih hrest)

theorem Extends.asked_iff (hh : h.Extends Entry.Uneventful h') : .call .lose ∈ h' ↔ .call .lose ∈ h := by
  obtain ⟨new, rfl, hnew⟩ := hh
  rw [List.mem_append]
  exact or_iff_right fun hm => (hnew _ hm).2 rfl

end History

/-- A property of a transport that its connection's calls on it do not change. -/
structure Transport.Keeps {τ : Type} [Wire.Transport τ] (p : τ → Prop) : Prop where
  write : ∀ t bytes, p t → p (Wire.Transport.write t bytes).2
  lose : ∀ t, p t → p (Wire.Transport.lose t).2

namespace Session

variable {κ τ ω σ : Type} {s₀ s s' u : Session κ τ ω σ}

/-! When the deadline of a closing connection runs. -/

/-- The transport is asked to close when the connection begins to close, and not before. From then on the deadline is
stopped, unless the connection was opened again. -/
structure Expiring (s : Session κ τ ω σ) : Prop where
  unasked : s.closing = false → .call .lose ∉ s.history
  asked : s.closing = true → s.lost = false → .call .lose ∈ s.history
  deadline : s.closing = true → (s.idle.active = true ↔ s.lost = false ∧ s.history.Revived)

theorem Created.serving (h : Created s) : s.Serving := by
  obtain ⟨base, codec, loop, options, lossNotice, clock, program, -, hs⟩ := h
  unfold create at hs
  dsimp only at hs
  split at hs
  · cases hs
  · cases hs
    exact ⟨rfl, rfl⟩

theorem Created.expiring (h : Created s) : s.Expiring := by
  obtain ⟨-, -, -, hhistory, -⟩ := h.fields
  have hopen : s.closing ≠ true := Bool.eq_false_iff.1 h.serving.2
  refine ⟨fun _ => ?_, fun hc => absurd hc hopen, fun hc => absurd hc hopen⟩
  rw [hhistory]
  exact List.not_mem_nil

theorem Expiring.of_same (h : s.Expiring) (hlost : s'.lost = s.lost) (hclosing : s'.closing = s.closing)
    (hidle : s'.idle.active = s.idle.active) (hh : s.history.Extends Entry.Uneventful s'.history) : s'.Expiring := by
  constructor
  · rw [hclosing, hh.asked_iff]
    exact h.unasked
  · rw [hclosing, hlost, hh.asked_iff]
    exact h.asked
  · rw [hclosing, hlost, hidle, hh.revived_iff]
    exact h.deadline

variable [Codec κ] [Transport τ]

omit [Codec κ] in
theorem Expiring.ask (h : s.Expiring) (hs : s.Serving) (fault : Fault) (t : τ) :
    (s.asked fault t).Expiring where
  unasked := fun hc => Bool.noConfusion (show true = false from hc)
  asked := fun _ _ => List.mem_cons_self
  deadline := by
    intro _
    refine iff_of_false Bool.false_ne_true fun hrevived => h.unasked hs.2 ?_
    have hopens : ¬(Entry.call .lose).Opens := fun ⟨_, heq⟩ => by cases heq
    exact ((History.revived_cons_of_quiet hopens).1 hrevived.2).asked

omit [Codec κ] in
theorem Expiring.write [Codec κ] (h : s.Expiring) (t : τ) : (s.written t).Expiring := by
  obtain ⟨e, he, hhistory⟩ : ∃ e : Entry, (¬e.Opens ∧ e ≠ .call .lose) ∧ (s.written t).history = e :: s.history := by
    refine ⟨_, ⟨?_, ?_⟩, rfl⟩
    · rintro ⟨_, heq⟩
      cases heq
    · exact nofun
  have hasked : .call .lose ∈ (s.written t).history ↔ .call .lose ∈ s.history := by
    rw [hhistory, List.mem_cons]
    exact or_iff_right fun heq => he.2 heq.symm
  have hidle : (s.written t).idle.active = s.idle.active := by
    change (if _ then s.idle.touch s.clock else s.idle).active = _
    split
    · exact IdleDeadline.active_touch _ _
    · rfl
  constructor
  · rw [hasked]
    exact h.unasked
  · rw [hasked]
    exact h.asked
  · rw [hidle, hhistory, History.revived_cons_of_quiet he.1]
    exact h.deadline

theorem Expiring.open (h : s.Expiring) (t : τ) (hl : s.lost = false) : (s.opening t).Expiring := by
  have hline : (s.opening t).history.Revived ↔ .call .lose ∈ s.history ∨ s.history.Revived := by
    change History.Revived (.call (.initiate _) :: .log _ :: s.history) ↔ _
    rw [History.revived_cons, History.revived_cons_of_quiet fun ⟨_, heq⟩ => by cases heq]
    refine or_congr_left ?_
    rw [and_iff_right ⟨_, rfl⟩, List.mem_cons]
    exact or_iff_right nofun
  have hasked : .call .lose ∈ (s.opening t).history ↔ .call .lose ∈ s.history := by
    change .call .lose ∈ Entry.call (.initiate _) :: .log _ :: s.history ↔ _
    rw [List.mem_cons, List.mem_cons]
    exact (or_iff_right nofun).trans (or_iff_right nofun)
  constructor
  · rw [hasked]
    exact h.unasked
  · rw [hasked]
    exact h.asked
  · intro hc
    rw [hline]
    exact iff_of_true rfl ⟨hl, Or.inl (h.asked hc hl)⟩

section IoSteps

variable {may : Demand τ ω → Prop} {around : Session κ τ ω σ → Drift κ τ ω σ → Prop}

theorem IoStep.expiring (h : IoStep may around s s') (he : s.Expiring) : s'.Expiring := by
  cases h with
  | internal h =>
    exact he.of_same h.lost h.closing (congrArg (·.active) h.idle) (h.history.imp fun _ => Entry.Internal.uneventful)
  | receive data => exact he.of_same rfl rfl (IdleDeadline.active_touch _ _) (.cons (Entry.uneventful_receive data) .refl)
  | drain | drift | stop => exact he.of_same rfl rfl rfl .refl
  | write => exact he.write _
  | establish t _ hl => exact he.open t hl
  | ask fault hs => exact he.ask hs fault _
  | lose =>
    refine ⟨fun hc => Bool.noConfusion (show true = false from hc), fun _ hl => ?_, fun _ => ?_⟩
    · exact Bool.noConfusion (show true = false from hl)
    · exact iff_of_false Bool.false_ne_true fun hboth => Bool.noConfusion (show true = false from hboth.1)

theorem IoSteps.expiring (h : IoSteps may around s s') (he : s.Expiring) : s'.Expiring := by
  induction h with
  | refl => exact he
  | tail _ hstep ih => exact hstep.expiring ih

/-! What never happens but by opening the connection. -/

omit [Codec κ] [Transport τ] in
/-- The connection is not opened, its deadline does not start, and its transport is not changed for another one: it has
all the properties that it had before, those apart that calls on it or drifts may change. -/
structure Unopened (mark : τ → Prop) (s s' : Session κ τ ω σ) : Prop where
  closing : s.closing = true → s'.closing = true
  lost : s.lost = true → s'.lost = true
  deadline : s.idle.active = false → s'.idle = s.idle
  transport : (∀ t ∈ s.transport, mark t) → ∀ t ∈ s'.transport, mark t
  history : s.history.Extends (fun e => ¬e.Opens) s'.history

omit [Codec κ] [Transport τ] in
theorem Unopened.refl (mark : τ → Prop) (s : Session κ τ ω σ) : Unopened mark s s := ⟨id, id, fun _ => rfl, id, .refl⟩

omit [Codec κ] [Transport τ] in
theorem Unopened.trans {mark : τ → Prop} (h : Unopened mark s u) (h' : Unopened mark u s') : Unopened mark s s' where
  closing := fun hc => h'.closing (h.closing hc)
  lost := fun hl => h'.lost (h.lost hl)
  deadline := fun hi => by
    have hsame := h.deadline hi
    rw [h'.deadline (hsame ▸ hi), hsame]
  transport := fun ht => h'.transport (h.transport ht)
  history := h.history.trans h'.history

def KeepsMark (mark : τ → Prop) (_ : Session κ τ ω σ) (d : Drift κ τ ω σ) : Prop := ∀ t, mark t → mark (d.transport t)

omit [Codec κ] [Transport τ] in
theorem touch_of_inactive {d : IdleDeadline} (h : d.active = false) (now : UInt64) : d.touch now = d := by
  unfold IdleDeadline.touch
  rw [h]
  rfl

omit [Codec κ] [Transport τ] in
theorem cancel_of_inactive {d : IdleDeadline} (h : d.active = false) : d.cancel = d := by
  unfold IdleDeadline.cancel
  rw [← h]

theorem IoStep.unopened {mark : τ → Prop} (hmark : Transport.Keeps mark) (h : IoStep may (KeepsMark mark) s s')
    (hdown : s.lost = true ∨ ∀ t, ¬may (.operation (.established (some t)))) : Unopened mark s s' := by
  cases h with
  | internal h =>
    exact ⟨h.closing.trans, h.lost.trans, fun _ => h.idle, fun ht => h.transport ▸ ht,
      h.history.imp fun _ he => he.uneventful.1⟩
  | receive data =>
    exact ⟨id, id, fun hi => touch_of_inactive hi _, id, .cons (Entry.uneventful_receive data).1 .refl⟩
  | drain | stop => exact ⟨id, id, fun _ => rfl, id, .refl⟩
  | @write t hout ht hl =>
    refine ⟨id, id, fun hi => ?_, fun hm x hx => ?_, .cons ?_ .refl⟩
    · change (if _ then s.idle.touch s.clock else s.idle) = s.idle
      rw [touch_of_inactive hi, ite_self]
    · obtain rfl := Option.some.inj hx
      exact hmark.write t _ (hm t ht)
    · rintro ⟨_, heq⟩
      cases heq
  | establish t hd hl => exact absurd hd (hdown.resolve_left (Bool.eq_false_iff.1 hl) t)
  | @ask t fault hs ht =>
    refine ⟨fun _ => rfl, id, fun hi => cancel_of_inactive hi, fun hm x hx => ?_, .cons ?_ .refl⟩
    · obtain rfl := Option.some.inj hx
      exact hmark.lose t (hm t ht)
    · rintro ⟨_, heq⟩
      cases heq
  | lose transport causes ht hl =>
    refine ⟨fun _ => rfl, fun _ => rfl, fun hi => cancel_of_inactive hi, fun hm => ?_, .refl⟩
    rcases ht with rfl | rfl
    · exact hm
    · exact fun t ht => absurd ht (Option.not_mem_none t)
  | drift d hd =>
    refine ⟨id, id, fun _ => rfl, fun hm x hx => ?_, .refl⟩
    obtain ⟨t, ht, rfl⟩ := Option.map_eq_some_iff.1 hx
    exact hd t (hm t ht)

theorem IoSteps.unopened {mark : τ → Prop} (hmark : Transport.Keeps mark) (h : IoSteps may (KeepsMark mark) s s')
    (hdown : s.lost = true ∨ ∀ t, ¬may (.operation (.established (some t)))) : Unopened mark s s' := by
  induction h with
  | refl => exact .refl mark s
  | tail _ hstep ih => exact ih.trans (hstep.unopened hmark (hdown.imp_left ih.lost))

end IoSteps

/-! What undoes it. -/

structure Reopened (t : τ) (s s' : Session κ τ ω σ) : Prop where
  closing : s'.closing = true
  lost : s'.lost = false
  idle : s'.idle = s.idle.start s.clock
  peer : s'.metadata.peer = Transport.peer t
  transport : s'.transport = some t ∨ ∃ bytes, s'.transport = some (Transport.write t bytes).2
  history : ∃ later line, s'.history = later ++ .call (.initiate s.options.settings) :: .log line :: s.history

theorem reopened_established (r : Reaction κ τ ω σ) (t : τ) (hc : s.closing = true) (hl : s.lost = false) :
    s.Reopened t (s.established r (some t)) := by
  rw [established_eq r t hl]
  have hwritten : s.Reopened t ((s.opening t).written t) := by
    refine ⟨hc, hl, ?_, rfl, Or.inr ⟨_, rfl⟩, [_], _, rfl⟩
    change (if _ then (s.idle.start s.clock).touch s.clock else s.idle.start s.clock) = _
    exact ite_self _
  rcases flush_cases r (s.opening t) with ⟨-, h | ⟨message, h⟩⟩ | ⟨x, -, hx, -, h | ⟨message, fault, h⟩⟩
  · rw [h]
    exact ⟨hc, hl, rfl, rfl, Or.inl rfl, [], _, rfl⟩
  · rw [h]
    exact ⟨hc, hl, rfl, rfl, Or.inl rfl, [_], _, rfl⟩
  · obtain rfl := Option.some.inj hx
    rw [h]
    exact hwritten
  · obtain rfl := Option.some.inj hx
    have hopen : (((s.opening t).written t).note .error message).lost = false := hl
    obtain ⟨later, line, hhistory⟩ := hwritten.history
    rw [h, loseWith_again hopen hc]
    exact ⟨hc, hl, hwritten.idle, rfl, hwritten.transport, _ :: later, line, congrArg (_ :: ·) hhistory⟩

def Demand.Closed : Demand τ ω → Prop
  | .operation (.established (some _)) => False
  | _ => True

/-- The deadline of a connection that is closing runs only if it was opened again while it waited to hear of its loss.
No demand but that for another transport opens a connection, starts its deadline or changes its transport, and once it
is lost that one does not either. But a transport that it is given while it waits does all of that. -/
theorem run_revival (h₀ : Created s₀) (h : FreeRun s₀ s) (hc : s.closing = true) :
    (s.idle.active = true ↔ s.lost = false ∧ s.history.Revived) ∧
    (∀ mark : τ → Prop, Transport.Keeps mark → ∀ u u' : Session κ τ ω σ,
      Sheltered Demand.Closed (KeepsMark mark) u u' ∨
        u.lost = true ∧ Sheltered (fun _ => True) (KeepsMark mark) u u' → Unopened mark u u') ∧
    (s.lost = false → ∀ (r : Reaction κ τ ω σ) t,
      s.Reopened t (s.established r (some t)) ∧ (s.established r (some t)).history.Revived) := by
  have hexpiring : s.Expiring := IoSteps.expiring (Sheltered.ioSteps (Activity.sheltered h)) h₀.expiring
  refine ⟨hexpiring.deadline hc, fun mark hmark u u' hu => ?_, fun hl r t => ?_⟩
  · rcases hu with hu | ⟨hl, hu⟩
    · exact IoSteps.unopened hmark hu.ioSteps (Or.inr fun _ hd => hd)
    · exact IoSteps.unopened hmark hu.ioSteps (Or.inl hl)
  · have hreopened := reopened_established r t hc hl
    obtain ⟨later, line, hhistory⟩ := hreopened.history
    have hasked : .call .lose ∈ Entry.log line :: s.history := List.mem_cons_of_mem _ (hexpiring.asked hc hl)
    exact ⟨hreopened, _, _, ⟨later, hhistory.symm⟩, ⟨_, rfl⟩, hasked⟩

/-- The peer says farewell, and the transport takes its time. Meanwhile the connection is asked for this and that, and
then it is lost. -/
theorem run_revival_scripted :
    ∃ (s₀ s u v : Session Scripted.Codec Scripted.Transport Unit Unit)
      (r : Reaction Scripted.Codec Scripted.Transport Unit Unit) (t : Scripted.Transport), Created s₀ ∧ FreeRun s₀ s ∧
        s.closing = true ∧ s.lost = false ∧ s.idle.active = false ∧ ¬s.history.Revived ∧
        Sheltered Demand.Closed (KeepsMark (·.peer = ({} : Scripted.Transport).peer)) s u ∧ u.lost = true ∧
        Unopened (·.peer = ({} : Scripted.Transport).peer) s u ∧
        Sheltered (fun _ => True) (KeepsMark (·.peer = ({} : Scripted.Transport).peer)) u v ∧
        v = u.perform r (.established (some t)) ∧ Unopened (·.peer = ({} : Scripted.Transport).peer) u v ∧
        s.Reopened t (s.established r (some t)) := by
  let r : Reaction Scripted.Codec Scripted.Transport Unit Unit := ⟨fun _ _ s => s⟩
  let t : Scripted.Transport := { peer := ⟨ascii "203.0.113.7", 443⟩ }
  let mark : Scripted.Transport → Prop := (·.peer = ({} : Scripted.Transport).peer)
  have hmark : Transport.Keeps mark := ⟨fun _ _ h => h, fun _ h => h⟩
  let s₀ : Session Scripted.Codec Scripted.Transport Unit Unit :=
    fresh { arrival := .events [{ body := .terminated .noError 0 [] }] }
  let s := s₀.performAll r [.established (some { onLose := .later }), .bytesReceived []]
  let ops : List (Operation Scripted.Transport Unit) :=
    [.submit {}, .established none, .bytesReceived [], .handshakeCompleted, .idleTimeout, .checkIdle, .transportLost none]
  let u := s.performAll r ops
  have hfree : ∀ o news w, FreeRun w (r.run o news w) := fun _ _ w => .refl w
  have hs : FreeRun s₀ s := Activity.performAll hfree (fun _ _ => trivial) s₀
  have hclosed : Sheltered Demand.Closed (KeepsMark mark) s u :=
    Sheltered.performAll (fun _ _ w => .refl w) (by simp [ops, Demand.Closed]) (.refl s)
  have hlate : Sheltered (fun _ => True) (KeepsMark mark) u (u.perform r (.established (some t))) :=
    (Sheltered.refl u).meet r (fun _ _ w => .refl w) (.operation (.established (some t))) trivial
  have hflags : s.closing = true ∧ s.lost = false ∧ s.idle.active = false := by decide +kernel
  have hgone : u.lost = true := by decide +kernel
  obtain ⟨hdeadline, hunopened, hreopened⟩ := run_revival (created_fresh _) hs hflags.1
  have hunrevived : ¬s.history.Revived := fun hrevived =>
    Bool.eq_false_iff.1 hflags.2.2 (hdeadline.2 ⟨hflags.2.1, hrevived⟩)
  exact ⟨s₀, s, u, _, r, t, created_fresh _, hs, hflags.1, hflags.2.1, hflags.2.2, hunrevived, hclosed, hgone,
    hunopened mark hmark s u (Or.inl hclosed), hlate, rfl, hunopened mark hmark u _ (Or.inr ⟨hgone, hlate⟩),
    (hreopened hflags.2.1 r t).1⟩

/-- The transport is replaced by another one while the connection waits to hear of its loss. -/
theorem revival_of_closing :
    ∃ (s₀ s u : Session Scripted.Codec Scripted.Transport Unit Unit) (op : Operation Scripted.Transport Unit)
      (settings : Settings), Created s₀ ∧ FreeRun s₀ s ∧ s.closing = true ∧ s.idle.active = false ∧
        s.transport.map (·.peer.host) = some (ascii "93.184.216.34") ∧ u = s.perform ⟨fun _ _ s => s⟩ op ∧
        u.closing = true ∧ u.idle.active = true ∧ u.transport.map (·.peer.host) = some (ascii "203.0.113.7") ∧
        u.history.calls = s.history.calls ++ [.initiate settings, .write (ascii "PREFACE;") 0] := by
  let r : Reaction Scripted.Codec Scripted.Transport Unit Unit := ⟨fun _ _ s => s⟩
  let s₀ : Session Scripted.Codec Scripted.Transport Unit Unit :=
    fresh { arrival := .events [{ body := .terminated .noError 0 [] }] }
  let s := s₀.performAll r [.established (some { onLose := .later }), .bytesReceived []]
  let op : Operation Scripted.Transport Unit := .established (some { peer := ⟨ascii "203.0.113.7", 443⟩ })
  have hs : FreeRun s₀ s := Activity.performAll (fun _ _ w => .refl w) (fun _ _ => trivial) s₀
  refine ⟨s₀, s, _, op, ({} : Options).settings, created_fresh _, hs, ?_, ?_, ?_, rfl, ?_, ?_, ?_, ?_⟩
  all_goals decide +kernel

end Session

end Multiplex
