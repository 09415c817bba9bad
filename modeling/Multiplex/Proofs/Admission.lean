import Multiplex.Proofs.Execution

/-! No request is stranded. An admission pass ends with nothing left that could start, whatever observers ask for in the
middle of it, and between two passes nothing makes room or makes the connection ready without another pass to follow. -/
namespace Multiplex

open Bytes Wire

/-- Changes of the limit come with received bytes, and are announced among the events of those bytes. -/
structure Codec.Announces (κ : Type) [Wire.Codec κ] : Prop where
  keeps : ∀ n, Codec.Keeps fun c : κ => Wire.Codec.streamLimit c = n
  announced : ∀ (c : κ) bytes, Wire.Codec.streamLimit (Wire.Codec.receive c bytes).2 ≠ Wire.Codec.streamLimit c →
    ∃ events, (Wire.Codec.receive c bytes).1 = .ok events ∧ ∃ e ∈ events, e.body = .remoteSettingsChanged

/-- Writing to a transport that is not connected does not connect it. -/
def Transport.StaysDown (τ : Type) [Wire.Transport τ] : Prop :=
  ∀ (t : τ) bytes, Wire.Transport.isConnected (Wire.Transport.write t bytes).2 = true →
    Wire.Transport.isConnected t = true

namespace Session

variable {κ τ ω σ : Type} {s s' u : Session κ τ ω σ}

def connected [Transport τ] (s : Session κ τ ω σ) : Bool := s.transport.any Transport.isConnected

def backlog (s : Session κ τ ω σ) : Nat := s.registry.pendingCount + s.idsLeft

theorem idsLeft_queued (request : Request) (h : s.refusal = none) : (s.queued request).idsLeft < s.idsLeft := by
  have hopen := nextId_le h
  have hnext : (s.queued request).nextId.toNat = s.nextId.toNat + 2 := toNat_next h
  unfold idsLeft
  omega

variable [Codec κ] [Transport τ] {w : Surroundings κ τ ω σ} {x : Stream} {ticket : Ticket}
  {act : Metadata → Turn κ → Turn κ} {r : Reaction κ τ ω σ}

omit [Codec κ] in
theorem isReady_eq_true_iff : s.isReady = true ↔ s.connected = true ∧ s.Serving ∧ s.acknowledged = true := by
  unfold isReady connected Serving
  simp only [Bool.and_eq_true, Bool.not_eq_true', and_assoc]

/-! The bound of a pass. -/

theorem Takes.backlog_le (h : Takes s x u act) : (u.turned (act u.metadata (u.turnOf x))).backlog ≤ s.backlog := by
  cases h with
  | start _ hp =>
    refine Nat.add_le_add_right ?_ _
    change List.length _ ≤ s.registry.pending.length
    rw [hp]
    exact Nat.le_succ _
  | head | data | window => exact Nat.le_refl _

theorem Transition.backlog_le (h : Transition w s s') : s'.backlog ≤ s.backlog := by
  have hremoved : ∀ id, (s.registry.remove id).2.pendingCount + s.idsLeft ≤ s.backlog := fun id =>
    Nat.add_le_add_right (Registry.pendingCount_remove_le s.registry id) _
  cases h with
  | close h => exact h.backlog_le
  | lose | gate => exact Nat.le_refl _
  | clear => exact Nat.add_le_add_right (Nat.zero_le _) _
  | atomic h =>
    cases h with
    | turn h => exact h.backlog_le
    | queue request _ hopen =>
      have hleft := idsLeft_queued request hopen
      have hqueue : (s.queued request).registry.pendingCount = s.registry.pendingCount + 1 := List.length_append
      unfold backlog
      omega
    | leave id => exact hremoved id
    | conclude => exact hremoved _
    | @report x _ _ hx =>
      have hleft := hremoved x.id
      rw [hx] at hleft
      exact hleft
    | _ => exact Nat.le_refl _

theorem Transitions.backlog_le (h : Transitions w s s') : s'.backlog ≤ s.backlog := by
  induction h with
  | refl => exact Nat.le_refl _
  | tail _ hlast ih => exact Nat.le_trans hlast.backlog_le ih

omit [Codec κ] [Transport τ] in
theorem backlog_release_le (id : UInt32) (s : Session κ τ ω σ) : (s.release id).2.backlog ≤ s.backlog := by
  unfold release
  split
  · exact Nat.le_refl _
  · rename_i y registry hremove
    have hleft : registry.pendingCount ≤ s.registry.pendingCount := by
      rw [← show (s.registry.remove id).2 = registry from congrArg Prod.snd hremove]
      exact Registry.pendingCount_remove_le s.registry id
    dsimp only
    split
    · exact Nat.add_le_add_right hleft _
    · unfold giveUp
      split <;> exact Nat.add_le_add_right hleft _

theorem Intact.next (hi : s.Intact) (hcan : s.canAdmit = true) :
    ∃ e ∈ s.registry.entries, ∃ rest, s.registry.pending = e.id :: rest ∧
      s.registry.admitNext = (some e.item, { s.registry with pending := rest }.markAdmitted e.id) := by
  cases hp : s.registry.pending with
  | nil => exact absurd hp (canAdmit_eq_true_iff.1 hcan).1
  | cons id rest =>
    obtain ⟨e, he, rfl, -, hnext⟩ := hi.ordered.coherent.admitNext_of_cons hp
    exact ⟨e, he, rest, rfl, hnext⟩

theorem backlog_begin (h : s.Conforms w r) (hcan : s.canAdmit = true) {e : Registry.Entry Stream} {rest : List UInt32}
    (hp : s.registry.pending = e.id :: rest) (he : e ∈ s.registry.entries) :
    ((s.popped e rest).turn r e.item.ticket Turn.initiate).2.backlog < s.backlog := by
  let started := (s.popped e rest).turned (Turn.initiate s.metadata ((s.popped e rest).turnOf e.item))
  have hless : started.backlog < s.backlog := by
    refine Nat.add_lt_add_right ?_ _
    change rest.length < s.registry.pending.length
    rw [hp]
    exact Nat.lt_succ_self _
  rcases turn_taken h (.start hcan hp he) with ⟨-, heq⟩ | ⟨e', os, -, -, -, hconforms, heq⟩
  · rw [heq]
    exact hless
  · have htold := (execution_tellAll hconforms os (.settled e.item.ticket e'.outcome)).transitions hconforms.intact
    rw [heq]
    exact Nat.lt_of_le_of_lt (Nat.le_trans (backlog_release_le _ _) htold.backlog_le) hless

/-- A pass that may start as many exchanges as are queued or may still come ends with none left that could start. -/
theorem canAdmit_admitUpTo (h : s.Conforms w r) {n : Nat} (hn : s.backlog ≤ n) :
    (s.admitUpTo r n).canAdmit = false := by
  induction n generalizing s with
  | zero =>
    rw [admitUpTo, Bool.eq_false_iff]
    intro hcan
    have hempty : s.registry.pending = [] :=
      List.length_eq_zero_iff.1 (Nat.le_zero.1 (Nat.le_trans (Nat.le_add_right _ _) hn))
    exact (canAdmit_eq_true_iff.1 hcan).1 hempty
  | succ n ih =>
    unfold admitUpTo
    split
    · rename_i hcan
      obtain ⟨e, he, rest, hp, hnext⟩ := h.intact.next hcan
      rw [hnext]
      -- Every start takes one off the backlog, so the bound outlasts it.
      have hless := backlog_begin h hcan hp he
      exact ih (h.step (execution_turn h (.start hcan hp he))) (Nat.le_of_lt_succ (Nat.lt_of_lt_of_le hless hn))
    · rename_i hcan
      exact Bool.eq_false_iff.2 hcan

/-- More than that changes nothing: it is not the bound that ends a pass. -/
theorem admitUpTo_of_le (h : s.Conforms w r) {n m : Nat} (hn : s.backlog ≤ n) (hm : n ≤ m) :
    s.admitUpTo r m = s.admitUpTo r n := by
  induction m generalizing s n with
  | zero => rw [Nat.le_zero.1 hm]
  | succ m ih =>
    cases n with
    | zero =>
      have hend := canAdmit_admitUpTo h hn
      rw [admitUpTo] at hend
      rw [admitUpTo, admitUpTo, if_neg (Bool.eq_false_iff.1 hend)]
    | succ n =>
      rw [admitUpTo, admitUpTo]
      split
      · rename_i hcan
        obtain ⟨e, he, rest, hp, hnext⟩ := h.intact.next hcan
        rw [hnext]
        have hless := backlog_begin h hcan hp he
        exact ih (h.step (execution_turn h (.start hcan hp he))) (Nat.le_of_lt_succ (Nat.lt_of_lt_of_le hless hn))
          (Nat.le_of_succ_le_succ hm)
      · rfl

/-- An exchange that ends at its start asks for another pass, which the pass under way does not let happen: it starts
as it would without asking. -/
theorem begin_eq_step (h : s.Conforms w r) (hcan : s.canAdmit = true) (hpass : s.admitting = true) :
    ∃ stream registry, s.registry.admitNext = (some stream, registry) ∧
      ({ s with registry } : Session κ τ ω σ).begin r stream =
        (({ s with registry } : Session κ τ ω σ).recordAdmission stream).step r stream.ticket Turn.initiate := by
  obtain ⟨e, he, rest, hp, hnext⟩ := h.intact.next hcan
  have hstill : ((s.popped e rest).turn r e.item.ticket Turn.initiate).2.admitting = true :=
    (execution_turn h (.start hcan hp he)).admitting.trans hpass
  refine ⟨_, _, hnext, ?_⟩
  rw [begin_eq]
  change _ = (s.popped e rest).step r e.item.ticket Turn.initiate
  rw [step_eq]
  split
  · unfold admitQueued
    rw [if_pos hstill]
  · rfl

/-! Outside a pass. -/

/-- No pass is under way. Observers that are told at once leave nothing that could start, if nothing could before. -/
structure OutsidePass (r : Reaction κ τ ω σ) (s : Session κ τ ω σ) : Prop where
  conforms : s.Conforms .any r
  idle : s.admitting = false
  observers : ∀ o news (u : Session κ τ ω σ), u.Intact → u.admitting = false → u.canAdmit = false →
    (r.run o news u).canAdmit = false

theorem OutsidePass.step (h : s.OutsidePass r) (hs : Execution .any nobody s s') : s'.OutsidePass r :=
  ⟨h.conforms.step hs, hs.admitting.trans h.idle, h.observers⟩

theorem canAdmit_of_imp (hf : s.canAdmit = false) (h : s'.canAdmit = true → s.canAdmit = true) : s'.canAdmit = false :=
  Bool.eq_false_iff.2 fun hcan => Bool.eq_false_iff.1 hf (h hcan)

theorem canAdmit_of_gone (h : ¬s.Serving) : s.canAdmit = false :=
  Bool.eq_false_iff.2 fun hcan => h (isReady_eq_true_iff.1 (canAdmit_eq_true_iff.1 hcan).2.2).2.1

theorem canAdmit_turned {t : Turn κ} (h : Codec.streamLimit t.codec = Codec.streamLimit s.codec) :
    (s.turned t).canAdmit = s.canAdmit := by
  have hlimit : (s.turned t).streamLimit = s.streamLimit := congrArg UInt32.toNat h
  unfold canAdmit
  rw [hlimit]
  rfl

theorem canAdmit_foldl {α : Type} {f : Session κ τ ω σ → α → Session κ τ ω σ} {l : List α} (h : s.OutsidePass r)
    (hf : s.canAdmit = false) (hstep : ∀ u, ∀ a ∈ l, Execution .any nobody s u → u.OutsidePass r →
      Execution .any nobody u (f u a) ∧ (u.canAdmit = false → (f u a).canAdmit = false)) :
    (l.foldl f s).canAdmit = false := by
  induction l generalizing s with
  | nil => exact hf
  | cons a l ih =>
    obtain ⟨hfirst, hfull⟩ := hstep s a List.mem_cons_self (.refl s) h
    exact ih (h.step hfirst) (hfull hf) fun u b hb hu => hstep u b (List.mem_cons_of_mem a hb) (hfirst.trans hu)

theorem canAdmit_tell (h : s.OutsidePass r) (hf : s.canAdmit = false) (n : Notice ω) :
    (s.tell r n).canAdmit = false := by
  unfold tell
  split
  · exact hf
  · exact h.observers _ _ _ (h.conforms.intact.of_same rfl rfl rfl rfl) h.idle hf

theorem canAdmit_tellAll (h : s.OutsidePass r) (hf : s.canAdmit = false) (os : List ω) (news : News) :
    (s.tellAll r os news).canAdmit = false :=
  canAdmit_foldl h hf fun _ o _ _ hu => ⟨execution_tell hu.conforms ⟨o, news⟩, fun hf => canAdmit_tell hu hf ⟨o, news⟩⟩

theorem canAdmit_admitQueued (h : s.OutsidePass r) : (s.admitQueued r).canAdmit = false := by
  have hshut : ({ s with admitting := true } : Session κ τ ω σ).Conforms .any r :=
    ⟨h.conforms.intact.of_same rfl rfl rfl rfl, h.conforms.observers⟩
  unfold admitQueued
  rw [if_neg (Bool.eq_false_iff.1 h.idle)]
  exact canAdmit_admitUpTo hshut (Nat.le_refl _)

omit [Codec κ] [Transport τ] in
theorem release_of_absent {id : UInt32} (h : (s.release id).1 = false) :
    ∃ message, (s.release id).2 = s.note .warn message := by
  unfold release at h ⊢
  split
  · exact ⟨_, rfl⟩
  · rename_i hremove
    rw [hremove] at h
    dsimp only at h
    split at h <;> exact Bool.noConfusion h

theorem canAdmit_turn (h : s.OutsidePass r) (ht : Takes s x u act) (hf : s.canAdmit = false)
    (hsame : (u.turned (act u.metadata (u.turnOf x))).canAdmit = s.canAdmit)
    (hstays : (u.turn r x.ticket act).1 = false) : (u.turn r x.ticket act).2.canAdmit = false := by
  rcases turn_taken h.conforms ht with ⟨-, heq⟩ | ⟨e, os, -, -, -, hconforms, heq⟩
  · rw [heq]
    exact hsame.trans hf
  · have hgiven : ((u.turned (act u.metadata (u.turnOf x))).given x.ticket e.outcome).OutsidePass r := by
      refine ⟨hconforms, ?_, h.observers⟩
      rw [ht.before_eq]
      exact h.idle
    rw [heq] at hstays ⊢
    obtain ⟨message, hreleased⟩ := release_of_absent hstays
    rw [hreleased]
    exact canAdmit_tellAll hgiven (hsame.trans hf) os _

theorem canAdmit_step (h : s.OutsidePass r) (ht : Takes s x u act) (hf : s.canAdmit = false)
    (hsame : (u.turned (act u.metadata (u.turnOf x))).canAdmit = s.canAdmit) :
    (u.step r x.ticket act).canAdmit = false := by
  rw [step_eq]
  split
  · exact canAdmit_admitQueued (h.step (execution_turn h.conforms ht))
  · rename_i hstays
    exact canAdmit_turn h ht hf hsame (Bool.eq_false_iff.2 hstays)

theorem canAdmit_streamClosed (h : s.OutsidePass r) (hf : s.canAdmit = false) (id : UInt32) :
    (s.streamClosed r id).canAdmit = false := by
  have hreleased : Execution .any nobody s (s.release id).2 := execution_release h.conforms.intact trivial
  unfold streamClosed
  split
  · rename_i u heq
    rw [heq] at hreleased
    exact canAdmit_admitQueued (h.step hreleased)
  · rename_i u heq
    obtain ⟨message, hsame⟩ := release_of_absent (congrArg Prod.fst heq)
    rw [show u = s.note .warn message from (congrArg Prod.snd heq).symm.trans hsame]
    exact hf

/-! The end of the connection. -/

theorem LossHandled.gone {left : Stream → Prop} {v : Session κ τ ω σ} (h : LossHandled w left s u v) (hi : s.Intact)
    (hl : s.lost = true) : ¬v.Serving := by
  have htold := h.told.transitions hi
  have hdismissed := h.dismissed.transitions (htold.intact hi).cleared
  exact fun hs => Bool.noConfusion (hs.1.symm.trans (Transitions.lost hdismissed (htold.lost hl)))

theorem transportLost_gone (h : s.Conforms w r) (cause : Option Fault) : ¬(s.transportLost r cause).Serving := by
  cases hl : s.lost with
  | true =>
    rw [show s.transportLost r cause = s.note .debug _ from if_pos hl]
    exact fun hs => Bool.noConfusion (hs.1.symm.trans hl)
  | false =>
    obtain ⟨_, hlost⟩ := lossHandled_transportLost h hl cause
    exact hlost.gone (h.intact.of_same rfl rfl rfl rfl) rfl

theorem discard_gone (h : s.Conforms w r) : ¬(s.discard r).Serving := by
  cases hl : s.lost with
  | true =>
    rw [show s.discard r = s from if_pos hl]
    exact fun hs => Bool.noConfusion (hs.1.symm.trans hl)
  | false =>
    obtain ⟨_, hlost⟩ := lossHandled_discard h hl
    exact hlost.gone (h.intact.of_same rfl rfl rfl rfl) rfl

theorem loseWith_gone (h : s.Conforms w r) (fault : Fault) : ¬(s.loseWith r fault).Serving := by
  cases hl : s.lost with
  | true =>
    rw [show s.loseWith r fault = s.note .debug _ from if_pos hl]
    exact fun hs => Bool.noConfusion (hs.1.symm.trans hl)
  | false =>
    cases hc : s.closing with
    | true =>
      rw [loseWith_again hl hc]
      exact fun hs => Bool.noConfusion (hs.2.symm.trans hc)
    | false =>
      cases ht : s.transport with
      | none =>
        obtain ⟨_, hlost⟩ := lossHandled_loseWith h hl hc ht fault
        exact hlost.gone (h.intact.of_same rfl rfl rfl rfl) rfl
      | some t =>
        have hasked : (s.asked fault t).Conforms w r := h.step (.atomic (.ask fault ⟨hl, hc⟩ ht))
        rw [loseWith_asked hl hc ht]
        split
        · exact fun hs => Bool.noConfusion hs.2
        · exact transportLost_gone hasked none
        · exact transportLost_gone hasked _

/-! Output. -/

theorem canAdmit_flush (hκ : Codec.Announces κ) (hτ : Transport.StaysDown τ) (h : s.OutsidePass r)
    (hf : s.canAdmit = false) : (s.flush r).canAdmit = false := by
  have hlimit : (Codec.streamLimit (Codec.takeOutput s.codec).2).toNat = s.streamLimit :=
    congrArg UInt32.toNat ((hκ.keeps _).takeOutput _ rfl)
  have hdrained : s.drained.canAdmit = false := by
    refine Eq.trans ?_ hf
    unfold canAdmit
    rw [show s.drained.streamLimit = s.streamLimit from hlimit]
    rfl
  rcases flush_cases r s with ⟨-, heq | ⟨message, heq⟩⟩ | ⟨t, hsome, ht, hl, heq | ⟨message, cause, heq⟩⟩
  · rw [heq]
    exact hdrained
  · rw [heq]
    exact hdrained
  · rw [heq]
    refine canAdmit_of_imp hf fun hcan => ?_
    obtain ⟨hqueue, hroom, hready⟩ := canAdmit_eq_true_iff.1 hcan
    obtain ⟨hconnected, hserving, hack⟩ := isReady_eq_true_iff.1 hready
    rw [show (s.written t).streamLimit = s.streamLimit from hlimit] at hroom
    refine canAdmit_eq_true_iff.2 ⟨hqueue, hroom, isReady_eq_true_iff.2 ⟨?_, hserving, hack⟩⟩
    rw [connected, ht]
    exact hτ t _ hconnected
  · have hwritten : Execution .any nobody s ((s.written t).note .error message) :=
      (Execution.atomic (.write hsome ht hl)).trans (.note _ _ _)
    rw [heq]
    exact canAdmit_of_gone (loseWith_gone (h.conforms.step hwritten) cause)

/-! Events. -/

theorem canAdmit_withStream (hi : s.Intact) {event : Event} {f : Stream → Session κ τ ω σ → Session κ τ ω σ}
    {otherwise : Session κ τ ω σ → Session κ τ ω σ}
    (hf : ∀ x ∈ s.registry.snapshot, x.id = event.stream → (f x (s.enter (.dispatched event))).canAdmit = false)
    (hother : ∀ message, (otherwise ((s.enter (.dispatched event)).note .warn message)).canAdmit = false) :
    ((s.enter (.dispatched event)).withStream event f otherwise).canAdmit = false := by
  unfold withStream
  split
  · rename_i x hfind
    obtain ⟨e, he, hid, rfl⟩ := mem_of_find hfind
    exact hf _ (List.mem_map_of_mem he) ((hi.ids e he).trans hid)
  · exact hother _

theorem canAdmit_concludeStream (h : s.OutsidePass r) (hf : s.canAdmit = false) (event : Event)
    {f : Stream → Session κ τ ω σ → Session κ τ ω σ} (hact : ∀ e ∈ s.registry.entries, e.id = event.stream →
      Execution .any nobody s (f e.item { s.enter (.dispatched event) with registry := (s.registry.remove e.id).2 })) :
    ((s.enter (.dispatched event)).concludeStream r event f).canAdmit = false := by
  unfold concludeStream
  split
  · rename_i x registry hremove
    obtain ⟨e, he, hid, rfl⟩ := Registry.mem_of_remove hremove
    have hregistry : (s.registry.remove e.id).2 = registry := by
      rw [hid]
      exact congrArg Prod.snd hremove
    have hacted := hact e he hid
    rw [hregistry] at hacted
    exact canAdmit_admitQueued (h.step hacted)
  · exact hf

theorem canAdmit_letGo (ticket : Ticket) (s : Session κ τ ω σ) : (s.letGo ticket).canAdmit = s.canAdmit := by
  unfold letGo
  dsimp only
  split
  · rfl
  · split
    · rfl
    · unfold giveUp
      split <;> rfl

theorem canAdmit_resumeAll (hκ : Codec.Announces κ) (h : s.OutsidePass r) (hl : s.lost = false)
    (hf : s.canAdmit = false) :
    (s.resumeAll r).canAdmit = false := by
  have hheld : Execution .any nobody s (s.hold s.registry.tickets) := .atomic (.hold s _)
  have hemptied : ∀ {u}, Execution .any nobody (s.hold s.registry.tickets) u → u.Emptied := fun hu =>
    (hheld.trans hu).emptied fun hlost => Bool.noConfusion (hl.symm.trans hlost)
  have hresumed := execution_foldl (f := resume r) (l := s.registry.tickets) (h.step hheld).conforms
    fun u ticket _ hu hc => execution_resume hc (hemptied hu) ticket
  have hfull : (s.registry.tickets.foldl (resume r) (s.hold s.registry.tickets)).canAdmit = false := by
    refine canAdmit_foldl (h.step hheld) hf fun u ticket _ hu hc =>
      ⟨execution_resume hc.conforms (hemptied hu) ticket, ?_⟩
    intro hf
    unfold resume
    split
    · exact hf
    · rename_i x hfind
      split
      · exact hf
      · obtain ⟨hwindow, rfl⟩ := (hemptied hu).window hfind
        exact canAdmit_step hc hwindow hf (canAdmit_turned ((Turn.steps_receiveWindowUpdate _).keeps (hκ.keeps _) rfl))
  rw [resumeAll_eq]
  exact canAdmit_foldl ((h.step hheld).step hresumed) hfull fun u ticket _ _ _ =>
    ⟨execution_letGo ticket u, fun hf => (canAdmit_letGo ticket u).trans hf⟩

theorem canAdmit_handle (hκ : Codec.Announces κ) (h : s.OutsidePass r) (hs : s.Serving) (hf : s.canAdmit = false)
    (event : Event) : ((s.enter (.dispatched event)).handle r event).canAdmit = false := by
  have hentered : Execution .any nobody s (s.enter (.dispatched event)) → (s.enter (.dispatched event)).OutsidePass r :=
    fun hpass => h.step hpass
  have hpass : s.Overlooks event → Execution .any nobody s (s.enter (.dispatched event)) :=
    fun hover => .atomic (.pass event hs hover)
  obtain ⟨stream, body⟩ := event
  unfold handle
  cases body with
  | response fields =>
    refine canAdmit_withStream h.conforms.intact (fun x hx hid => ?_) fun _ => hf
    · subst hid
      exact canAdmit_step h (.head fields hs hx) hf
        (canAdmit_turned ((Turn.steps_receiveHeaders _ fields).keeps (hκ.keeps _) rfl))
  | data bytes length =>
    refine canAdmit_withStream h.conforms.intact (fun x hx hid => ?_) fun message => ?_
    · subst hid
      exact canAdmit_step h (.data bytes length hs hx) hf
        (canAdmit_turned ((Turn.steps_receiveData _ bytes length).keeps (hκ.keeps _) rfl))
    · have hlimit : (Codec.streamLimit (Codec.acknowledge s.codec length stream)).toNat = s.streamLimit :=
        congrArg UInt32.toNat ((hκ.keeps _).acknowledge _ _ _ rfl)
      refine Eq.trans ?_ hf
      change (_ && decide (_ < (Codec.streamLimit (Codec.acknowledge s.codec length stream)).toNat) && _) = _
      rw [hlimit]
      rfl
  | ended =>
    refine canAdmit_concludeStream h hf _ fun e he hid => ?_
    subst hid
    exact execution_finish h.conforms hs he .ended .refl
  | reset code =>
    refine canAdmit_concludeStream h hf _ fun e he hid => ?_
    subst hid
    exact execution_finish h.conforms hs he (.reset code) (.cons (Entry.isPlainLine_session _ _) .refl)
  | windowUpdated =>
    have hopened := hentered (hpass trivial)
    dsimp only
    split
    · exact canAdmit_resumeAll hκ hopened hs.1 hf
    · refine canAdmit_withStream h.conforms.intact (fun x hx _ => ?_) fun _ => hf
      have hfree : (s.enter (.dispatched ⟨stream, .windowUpdated⟩)).lost = true → x ∈ s.detached := fun hlost =>
        Bool.noConfusion (hs.1.symm.trans hlost)
      exact canAdmit_step hopened (.window (List.mem_append_left _ hx) hfree) hf
        (canAdmit_turned ((Turn.steps_receiveWindowUpdate _).keeps (hκ.keeps _) rfl))
  | settingsAcknowledged =>
    dsimp only
    rw [settingsAcknowledged_eq]
    exact canAdmit_admitQueued ((hentered (hpass trivial)).step (execution_acknowledgeSettings hs))
  | remoteSettingsChanged => exact canAdmit_admitQueued (hentered (hpass trivial))
  | terminated code last debug =>
    exact canAdmit_of_gone (loseWith_gone ((hentered (hpass trivial)).conforms.step (.note _ _ _)) _)
  | unknownFrame frame => exact hf
  | unlisted kind => exact hf

/-- A batch leaves nothing that could start, if nothing could before it or if it announces a new limit. -/
theorem canAdmit_handleAll (hκ : Codec.Announces κ) {events : List Event} (h : s.OutsidePass r)
    (hf : s.canAdmit = false ∨ ∃ e ∈ events, e.body = .remoteSettingsChanged) :
    (s.handleAll r events).canAdmit = false := by
  unfold handleAll
  induction events generalizing s with
  | nil => exact hf.resolve_right fun ⟨_, he, _⟩ => List.not_mem_nil he
  | cons event rest ih =>
    rw [List.foldl_cons]
    split
    · rename_i hleft
      -- Events that are left over change nothing: the connection does not serve any more, and then nothing can start.
      exact ih h (Or.inl (canAdmit_of_gone fun hs => by simp [hs.1, hs.2] at hleft))
    · rename_i hserving
      rw [Bool.or_eq_true, not_or, Bool.not_eq_true, Bool.not_eq_true] at hserving
      have hhandled := h.step (execution_handle h.conforms hserving event)
      refine ih hhandled ?_
      rcases hf with hf | ⟨e, he, hbody⟩
      · exact Or.inl (canAdmit_handle hκ h hserving hf event)
      · rcases List.mem_cons.1 he with rfl | he
        -- The event that announces a limit ends with a pass of its own.
        · refine Or.inl ?_
          have hopened : (s.enter (.dispatched e)).OutsidePass r := h.step (.atomic (.pass e hserving (by
            unfold Overlooks
            rw [hbody]
            trivial)))
          unfold handle
          rw [hbody]
          exact canAdmit_admitQueued hopened
        · exact Or.inr ⟨e, he, hbody⟩

/-! Operations. -/

theorem canAdmit_submit (hκ : Codec.Announces κ) (hτ : Transport.StaysDown τ) (h : s.OutsidePass r)
    (hf : s.canAdmit = false) (request : Request) : (s.submit r request).2.canAdmit = false := by
  cases hrefusal : s.refusal with
  | some cause =>
    obtain ⟨history, -, heq⟩ := submit_refused r request hrefusal
    rw [heq]
    exact hf
  | none =>
    obtain ⟨message, heq⟩ := submit_of_above r request (fun e he => h.conforms.intact.above he) hrefusal
    have hheld : Execution .any nobody s (((s.queued request).note .debug message).hold [s.completions.length]) :=
      ((Execution.atomic (.queue request trivial hrefusal)).trans (.note _ .debug message)).trans (.atomic (.hold _ _))
    have hpassed := (h.step hheld).step (execution_admitQueued (h.step hheld).conforms)
    rw [heq, canAdmit_letGo]
    exact canAdmit_flush hκ hτ hpassed (canAdmit_admitQueued (h.step hheld))

theorem canAdmit_observe (h : s.OutsidePass r) (hf : s.canAdmit = false) (ticket : Ticket) (o : ω) :
    (s.observe r ticket o).canAdmit = false := by
  unfold observe
  split
  · exact hf
  · split
    · exact hf
    · exact canAdmit_tell h hf _

/-- A transport that is connected when it is given comes before the settings are acknowledged, or in the place of
another that is connected. -/
def Timely (s : Session κ τ ω σ) (d : Demand τ ω) : Prop :=
  ∀ t, d = .operation (.established (some t)) → Transport.isConnected t = true →
    s.acknowledged = false ∨ s.connected = true

theorem canAdmit_established (hκ : Codec.Announces κ) (hτ : Transport.StaysDown τ) (h : s.OutsidePass r)
    (hf : s.canAdmit = false) {transport : Option τ} (hd : s.Timely (.operation (.established transport))) :
    (s.established r transport).canAdmit = false := by
  cases transport with
  | none => exact hf
  | some t =>
    cases hl : s.lost with
    | true =>
      rw [show s.established r (some t) = s.note .warn _ from if_pos hl]
      exact hf
    | false =>
      have hopened : Execution .any nobody s (s.opening t) := .atomic (.establish t trivial hl)
      rw [established_eq r t hl]
      refine canAdmit_flush hκ hτ (h.step hopened) (canAdmit_of_imp hf fun hcan => ?_)
      obtain ⟨hqueue, hroom, hready⟩ := canAdmit_eq_true_iff.1 hcan
      obtain ⟨hconnected, hserving, hack⟩ := isReady_eq_true_iff.1 hready
      have hlimit : (s.opening t).streamLimit = s.streamLimit := congrArg UInt32.toNat ((hκ.keeps _).initiate _ _ rfl)
      rw [hlimit] at hroom
      have hbefore : s.connected = true :=
        (hd t rfl hconnected).resolve_left fun hnot => Bool.noConfusion (hnot.symm.trans hack)
      exact canAdmit_eq_true_iff.2 ⟨hqueue, hroom, isReady_eq_true_iff.2 ⟨hbefore, hserving, hack⟩⟩

theorem canAdmit_handshakeCompleted (h : s.OutsidePass r) (hf : s.canAdmit = false) :
    (s.handshakeCompleted r).canAdmit = false := by
  unfold handshakeCompleted
  split
  · exact hf
  · dsimp only
    split
    · exact hf
    · exact canAdmit_of_gone (loseWith_gone (h.conforms.step (.note _ _ _)) _)

theorem canAdmit_bytesReceived (hκ : Codec.Announces κ) (hτ : Transport.StaysDown τ) (h : s.OutsidePass r)
    (hf : s.canAdmit = false) (data : Bytes) : (s.bytesReceived r data).canAdmit = false := by
  unfold bytesReceived
  split
  · exact hf
  · rename_i hserving
    rw [Bool.or_eq_true, not_or, Bool.not_eq_true, Bool.not_eq_true] at hserving
    have hreceived : Execution .any nobody s (s.received data) := .atomic (.receive data trivial hserving)
    dsimp only
    split
    · rename_i events hevents
      have hfull : (s.received data).canAdmit = false ∨ ∃ e ∈ events, e.body = .remoteSettingsChanged := by
        by_cases hlimit : Codec.streamLimit (Codec.receive s.codec data).2 = Codec.streamLimit s.codec
        · have hsame : (s.received data).streamLimit = s.streamLimit := congrArg UInt32.toNat hlimit
          refine Or.inl (Eq.trans ?_ hf)
          unfold canAdmit
          rw [hsame]
          rfl
        · obtain ⟨_, hannounced, he⟩ := hκ.announced s.codec data hlimit
          cases hevents.symm.trans hannounced
          exact Or.inr he
      have hhandled := (h.step hreceived).step (execution_handleAll (h.step hreceived).conforms events)
      exact canAdmit_flush hκ hτ hhandled (canAdmit_handleAll hκ (h.step hreceived) hfull)
    · have hnoted := fun message => h.conforms.step (hreceived.trans (.note _ .error message))
      exact canAdmit_of_gone (loseWith_gone ((hnoted _).step (execution_flush (hnoted _))) _)

theorem canAdmit_idleTimeout (h : s.OutsidePass r) (hf : s.canAdmit = false) : (s.idleTimeout r).canAdmit = false := by
  unfold idleTimeout
  split
  · exact hf
  · rename_i hserving
    rw [Bool.or_eq_true, not_or, Bool.not_eq_true, Bool.not_eq_true] at hserving
    have hfarewell := fun message code => h.conforms.step
      ((Execution.note s .warn message).trans (.atomic (.farewell code (Or.inl hserving))))
    exact canAdmit_of_gone (loseWith_gone ((hfarewell _ _).step (execution_flush (hfarewell _ _))) _)

/-- Whatever is asked leaves nothing that could start, if nothing could before. -/
theorem canAdmit_meet (hκ : Codec.Announces κ) (hτ : Transport.StaysDown τ) (h : s.OutsidePass r)
    (hf : s.canAdmit = false) {d : Demand τ ω} (hd : s.Timely d) : (s.meet r d).canAdmit = false := by
  cases d with
  | streamClosed id => exact canAdmit_streamClosed h hf id
  | operation op =>
    cases op with
    | submit request => exact canAdmit_submit hκ hτ h hf request
    | observe ticket observer => exact canAdmit_observe h hf ticket observer
    | established transport => exact canAdmit_established hκ hτ h hf hd
    | handshakeCompleted => exact canAdmit_handshakeCompleted h hf
    | bytesReceived data => exact canAdmit_bytesReceived hκ hτ h hf data
    | idleTimeout => exact canAdmit_idleTimeout h hf
    | checkIdle =>
      unfold meet perform checkIdle
      dsimp only
      split
      · exact hf
      · exact canAdmit_idleTimeout h hf
    | transportLost cause => exact canAdmit_of_gone (transportLost_gone h.conforms cause)
    | discard => exact canAdmit_of_gone (discard_gone h.conforms)

/-- A run in which transports are given in time, and nothing makes the connection ready or makes room behind its back.
The loop may stop, and what observers ask when they are told at once is part of the run. -/
inductive OrderlyRun : Session κ τ ω σ → Session κ τ ω σ → Prop
  | refl (s : Session κ τ ω σ) : OrderlyRun s s
  | meet {s s' : Session κ τ ω σ} (h : OrderlyRun s s') (r : Reaction κ τ ω σ)
      (hr : ∀ o news u, OrderlyRun u (r.run o news u)) (d : Demand τ ω) (hd : s'.Timely d) : OrderlyRun s (s'.meet r d)
  | drift {s s' : Session κ τ ω σ} (h : OrderlyRun s s') (d : Drift κ τ ω σ)
      (hlimit : Codec.streamLimit d.codec = Codec.streamLimit s'.codec)
      (hd : (s'.drift d).connected = true → s'.acknowledged = false ∨ s'.connected = true) : OrderlyRun s (s'.drift d)
  | stop {s s' : Session κ τ ω σ} (h : OrderlyRun s s') : OrderlyRun s { s' with loop := s'.loop.stop }

theorem OrderlyRun.activity (h : OrderlyRun s s') : FreeRun s s' := by
  induction h with
  | refl s => exact .refl s
  | meet _ r _ d _ ih ihr => exact ih.meet r ihr d trivial
  | drift _ d _ _ ih => exact ih.drift d
  | stop _ ih => exact ih.stop

theorem OrderlyRun.canAdmit (hκ : Codec.Announces κ) (hτ : Transport.StaysDown τ) (h : OrderlyRun s s') (hi : s.Intact)
    (hidle : s.admitting = false) (hf : s.canAdmit = false) : s'.canAdmit = false := by
  induction h with
  | refl => exact hf
  | @meet s s' h r hr d hd ih ihr =>
    have hbefore := h.activity.execution hi
    refine canAdmit_meet hκ hτ (r := r) ⟨⟨hbefore.intact hi, Or.inr fun o news u hu => ?_⟩, ?_, ?_⟩ (ih hi hidle hf) hd
    · exact (hr o news u).activity.execution hu
    · exact hbefore.admitting.trans hidle
    · exact fun o news u hu hidle hf => ihr o news u hu hidle hf
  | @drift s s' h d hlimit hd ih =>
    refine canAdmit_of_imp (ih hi hidle hf) fun hcan => ?_
    obtain ⟨hqueue, hroom, hready⟩ := canAdmit_eq_true_iff.1 hcan
    obtain ⟨hconnected, hserving, hack⟩ := isReady_eq_true_iff.1 hready
    have hsame : (s'.drift d).streamLimit = s'.streamLimit := congrArg UInt32.toNat hlimit
    have hbefore := (hd hconnected).resolve_left fun hnot => Bool.noConfusion (hnot.symm.trans hack)
    rw [hsame] at hroom
    exact canAdmit_eq_true_iff.2 ⟨hqueue, hroom, isReady_eq_true_iff.2 ⟨hbefore, hserving, hack⟩⟩
  | stop _ ih => exact ih hi hidle hf

/-- No request is stranded: in every state of an orderly run a ready connection with a queue runs as many exchanges as
it may. Every pass comes to its end by itself, whatever bound it is given beyond the requests that wait or can still
come, and with nothing left that could start, although passes that are asked for while it runs do not take place. -/
theorem run_no_stranded_request (hκ : Codec.Announces κ) (hτ : Transport.StaysDown τ) {s₀ : Session κ τ ω σ}
    (h₀ : Created s₀) (h : OrderlyRun s₀ s) :
    (s.isReady = true → 0 < s.registry.pendingCount → s.streamLimit ≤ s.registry.active) ∧
    ∀ u, Transitions .any s u → ∀ r, (∀ o news v, FreeRun v (r.run o news v)) →
      (∀ n, u.registry.pendingCount + u.idsLeft ≤ n → (u.admitUpTo r n).canAdmit = false ∧
        u.admitUpTo r n = u.admitUpTo r (u.registry.pendingCount + u.idsLeft)) ∧
      (u.canAdmit = true → u.admitting = true →
        ∃ stream registry, u.registry.admitNext = (some stream, registry) ∧
          ({ u with registry } : Session κ τ ω σ).begin r stream =
            (({ u with registry } : Session κ τ ω σ).recordAdmission stream).step r stream.ticket Turn.initiate) := by
  obtain ⟨-, hregistry, -, -, -, -, -, -, -, hidle⟩ := h₀.fields
  have hempty : s₀.canAdmit = false := by
    refine Bool.eq_false_iff.2 fun hcan => (canAdmit_eq_true_iff.1 hcan).1 ?_
    rw [hregistry]
  have hfull := h.canAdmit hκ hτ h₀.intact hidle hempty
  have hintact := (h.activity.execution h₀.intact).intact h₀.intact
  refine ⟨fun hready hqueue => ?_, fun u hu r hr => ?_⟩
  · refine Nat.not_lt.1 fun hbelow => ?_
    have hcan := canAdmit_eq_true_iff.2 ⟨List.length_pos_iff.1 hqueue, hbelow, hready⟩
    exact Bool.noConfusion (hfull.symm.trans hcan)
  · have hconforms : u.Conforms .any r := .of_activity (hu.intact hintact) hr
    exact ⟨fun n hn => ⟨canAdmit_admitUpTo hconforms hn, admitUpTo_of_le hconforms (Nat.le_refl _) hn⟩,
      begin_eq_step hconforms⟩

structure Dial where
  limit : UInt32 := 0

instance : Codec Dial where
  receive c bytes :=
    match bytes with
    | [] => (.ok [{ body := .settingsAcknowledged }], c)
    | b :: _ => (.ok [{ body := .remoteSettingsChanged }], { c with limit := b.toUInt32 })
  takeOutput c := ([], c)
  initiate c _ := c
  close c _ := c
  sendHeaders c _ _ _ := (0, c)
  sendData c _ _ _ := (0, c)
  reset c _ _ := (0, c)
  acknowledge c _ _ := c
  window _ _ := 65535
  maxFrame _ := 16384
  localLimit _ := 100
  remoteLimit := Dial.limit
  openOutbound _ := 0
  openInbound _ := 0

theorem announces_dial : Codec.Announces Dial where
  keeps := fun _ => ⟨fun _ h => h, fun _ _ h => h, fun _ _ h => h, fun _ _ _ _ h => h, fun _ _ _ _ h => h,
    fun _ _ _ h => h, fun _ _ _ h => h⟩
  announced := by
    intro c bytes hlimit
    cases bytes with
    | nil => exact absurd rfl hlimit
    | cons b rest => exact ⟨_, rfl, _, List.mem_cons_self, rfl⟩

theorem staysDown_scripted : Transport.StaysDown Scripted.Transport := fun _ _ h => h

/-- The loop has stopped. The first request is for another host and ends at its start, in the middle of a pass, and
whoever is told of it asks for another one, which that pass still starts. -/
theorem run_no_stranded_request_dial :
    ∃ (s u : Session Dial Scripted.Transport Unit Unit) (r : Reaction Dial Scripted.Transport Unit Unit),
      s.loop.stopped = true ∧ s.isReady = true ∧ s.registry.pendingCount = 1 ∧ s.streamLimit = 1 ∧
      s.streamLimit ≤ s.registry.active ∧ (s.completions.map (·.isFulfilled)) = [true, false, false] ∧
      u.canAdmit = true ∧ u.admitting = true ∧ (u.admitUpTo r (u.registry.pendingCount + u.idsLeft)).canAdmit = false ∧
      ∃ stream registry, u.registry.admitNext = (some stream, registry) ∧
        ({ u with registry } : Session Dial Scripted.Transport Unit Unit).begin r stream =
          (({ u with registry } : Session Dial Scripted.Transport Unit Unit).recordAdmission stream).step r stream.ticket
            Turn.initiate := by
  let request : Request := { url := ascii "https://example.com/" }
  let quiet : Reaction Dial Scripted.Transport Unit Unit := ⟨fun _ _ s => s⟩
  let r : Reaction Dial Scripted.Transport Unit Unit := ⟨fun _ _ s => s.perform quiet (.submit request)⟩
  let s₀ : Session Dial Scripted.Transport Unit Unit := fresh {}
  let s₁ : Session Dial Scripted.Transport Unit Unit := { s₀ with loop := s₀.loop.stop }
  let s₂ := s₁.perform r (.established (some {}))
  let s₃ := s₂.perform r (.submit { url := ascii "https://example.org/" })
  let s₄ := s₃.perform r (.observe 0 ())
  let s₅ := s₄.perform r (.bytesReceived [])
  let s₆ := s₅.perform r (.bytesReceived [1])
  let s := s₆.perform r (.submit request)
  let u : Session Dial Scripted.Transport Unit Unit := { s.drift (.scripted { limit := 5 }) with admitting := true }
  have hquiet : ∀ o news v, OrderlyRun v (quiet.run o news v) := fun _ _ v => .refl v
  have hsubmit : ∀ (v : Session Dial Scripted.Transport Unit Unit) request, v.Timely (.operation (.submit request)) :=
    fun _ _ _ h => nomatch h
  have hr : ∀ o news v, OrderlyRun v (r.run o news v) := fun _ _ v =>
    (OrderlyRun.refl v).meet quiet hquiet (.operation (.submit request)) (hsubmit v request)
  have hopened : OrderlyRun s₀ s₂ :=
    (OrderlyRun.refl s₀).stop.meet r hr (.operation (.established (some {}))) fun _ _ _ => Or.inl rfl
  have hasked : OrderlyRun s₀ s₄ :=
    (hopened.meet r hr (.operation (.submit _)) (hsubmit s₂ _)).meet r hr (.operation (.observe 0 ())) nofun
  have hreceived : OrderlyRun s₀ s₆ :=
    (hasked.meet r hr (.operation (.bytesReceived [])) nofun).meet r hr (.operation (.bytesReceived [1])) nofun
  have hrun : OrderlyRun s₀ s := hreceived.meet r hr (.operation (.submit request)) (hsubmit s₆ request)
  have hready : s.isReady = true := by decide
  have hqueue : s.registry.pendingCount = 1 := by decide
  have hcan : u.canAdmit = true := by decide
  have hlater : Transitions .any s u := .tail (.single (.atomic (.drift _ trivial))) (.gate _ true)
  obtain ⟨hfull, hpass⟩ := run_no_stranded_request announces_dial staysDown_scripted (created_fresh {}) hrun
  obtain ⟨hends, hbegun⟩ := hpass u hlater r fun o news v => (hr o news v).activity
  exact ⟨s, u, r, by decide, hready, hqueue, by decide, hfull hready (hqueue ▸ Nat.one_pos), by decide, hcan, rfl,
    (hends _ (Nat.le_refl _)).1, hbegun hcan rfl⟩

end Session

end Multiplex
