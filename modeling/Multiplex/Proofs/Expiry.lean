import Multiplex.Proofs.Blame
import Multiplex.Proofs.Revival

/-! When a connection is closed for being idle, on any loop and with a clock that does not go back. Whatever opens the
connection, brings it bytes or takes its output away is activity, and the deadline runs from the latest. It is found to
have passed once at most: whoever is told of that finds the connection closing. -/
namespace Multiplex

open Bytes Wire

def Entry.isActivity : Entry → Bool
  | .call (.initiate _) | .call (.receive _) => true
  | .call (.write _ ret) => ret == 0
  | _ => false

theorem Entry.Internal.not_activity {e : Entry} (h : e.Internal) : e.isActivity = false := by
  unfold isActivity
  split
  · exact h.elim
  · exact h.elim
  · exact h.elim
  · rfl

def History.Opened (h : History) : Prop := ∃ e ∈ h, e.Opens

theorem History.Extends.opened_iff {h h' : History} (hh : h.Extends (fun e => ¬e.Opens) h') :
    h'.Opened ↔ h.Opened := by
  obtain ⟨new, rfl, hnew⟩ := hh
  unfold Opened
  constructor
  · rintro ⟨e, he, hopens⟩
    rcases List.mem_append.1 he with he | he
    · exact absurd hopens (hnew e he)
    · exact ⟨e, he, hopens⟩
  · rintro ⟨e, he, hopens⟩
    exact ⟨e, List.mem_append_right new he, hopens⟩

theorem IdleDeadline.isExpired_iff {d : IdleDeadline} {now : UInt64} (h : d.last ≤ now) :
    d.isExpired now = true ↔ d.active = true ∧ d.last.toNat + d.timeout.toNat ≤ now.toNat := by
  have hsub : (now - d.last).toNat = now.toNat - d.last.toNat := UInt64.toNat_sub_of_le now d.last h
  have hle : d.last.toNat ≤ now.toNat := h
  simp only [isExpired, elapsed, Bool.and_eq_true, decide_eq_true_eq, UInt64.le_iff_toNat_le, hsub]
  apply and_congr_right
  intro _
  omega

structure Reaction.Concur {κ τ ω σ : Type} (r r' : Reaction κ τ ω σ) : Prop where
  same : ∀ o news (s : Session κ τ ω σ), s.closing = true → r'.run o news s = r.run o news s
  closing : ∀ o news (s : Session κ τ ω σ), s.closing = true → (r.run o news s).closing = true

namespace Session

variable {κ τ ω σ : Type} {s₀ s s' u : Session κ τ ω σ} {r r' : Reaction κ τ ω σ}

/-! Whoever is told that a connection is closing finds it closing. -/

section Concur

theorem concur_foldl {α : Type} {f f' : Session κ τ ω σ → α → Session κ τ ω σ}
    (hf : ∀ u a, u.closing = true → f' u a = f u a ∧ (f u a).closing = true) (as : List α) (hs : s.closing = true) :
    as.foldl f' s = as.foldl f s ∧ (as.foldl f s).closing = true := by
  induction as generalizing s with
  | nil => exact ⟨rfl, hs⟩
  | cons a as ih =>
    obtain ⟨hsame, hclosing⟩ := hf s a hs
    rw [List.foldl_cons, List.foldl_cons, hsame]
    exact ih hclosing

theorem concur_tell (hr : r.Concur r') (n : Notice ω) (hs : s.closing = true) :
    s.tell r' n = s.tell r n ∧ (s.tell r n).closing = true := by
  unfold tell
  split
  · exact ⟨rfl, hs⟩
  · exact ⟨hr.same _ _ _ hs, hr.closing _ _ _ hs⟩

theorem concur_tellAll (hr : r.Concur r') (os : List ω) (news : News) (hs : s.closing = true) :
    s.tellAll r' os news = s.tellAll r os news ∧ (s.tellAll r os news).closing = true :=
  concur_foldl (fun _ o hu => concur_tell hr ⟨o, news⟩ hu) os hs

theorem concur_settle (hr : r.Concur r') (ticket : Ticket) (outcome : Outcome) (hs : s.closing = true) :
    s.settle r' ticket outcome = s.settle r ticket outcome ∧ (s.settle r ticket outcome).closing = true := by
  unfold settle
  split
  · exact ⟨rfl, hs⟩
  · split
    · exact ⟨rfl, hs⟩
    · apply concur_tellAll hr
      exact hs

theorem concur_announceLoss (hr : r.Concur r') (hs : s.closing = true) :
    s.announceLoss r' = s.announceLoss r ∧ (s.announceLoss r).closing = true := by
  unfold announceLoss
  split
  · exact ⟨rfl, hs⟩
  · split
    · exact ⟨rfl, hs⟩
    · apply concur_tellAll hr
      exact hs

theorem concur_finish (hr : r.Concur r') (x : Stream) (reason : CloseReason) (causes : List Fault)
    (hs : s.closing = true) :
    s.finish r' x reason causes = s.finish r x reason causes ∧ (s.finish r x reason causes).closing = true := by
  unfold finish
  dsimp only
  split
  · exact ⟨rfl, hs⟩
  · apply concur_settle hr
    exact hs

variable [Codec κ]

theorem concur_dismissAll (hr : r.Concur r') (hs : s.closing = true) :
    s.dismissAll r' = s.dismissAll r ∧ (s.dismissAll r).closing = true := by
  have hone : ∀ u x, u.closing = true → dismiss r' u x = dismiss r u x ∧ (dismiss r u x).closing = true := by
    intro u x hu
    unfold dismiss
    split
    · exact concur_finish hr x _ _ hu
    · exact concur_finish hr x _ _ hu
  obtain ⟨hsame, hclosing⟩ := concur_foldl (s := { s with registry := s.registry.clear }) hone s.registry.snapshot hs
  exact ⟨congrArg (closeCodec .noError) hsame, hclosing⟩

theorem concur_transportLost (hr : r.Concur r') (cause : Option Fault) (s : Session κ τ ω σ) :
    s.transportLost r' cause = s.transportLost r cause := by
  cases hl : s.lost with
  | true =>
    unfold transportLost
    rw [if_pos hl, if_pos hl]
  | false =>
    have hlosing : ∀ message, ((s.losing cause).note .info message).closing = true := fun _ => rfl
    have htold : ∀ message, (((s.losing cause).note .info message).announceLoss r').dismissAll r' =
        (((s.losing cause).note .info message).announceLoss r).dismissAll r := by
      intro message
      obtain ⟨hsame, hclosing⟩ := concur_announceLoss hr (hlosing message)
      rw [hsame]
      exact (concur_dismissAll hr hclosing).1
    unfold transportLost
    rw [if_neg (Bool.eq_false_iff.1 hl), if_neg (Bool.eq_false_iff.1 hl)]
    exact htold _

variable [Transport τ]

theorem concur_loseWith (hr : r.Concur r') (fault : Fault) (s : Session κ τ ω σ) :
    s.loseWith r' fault = s.loseWith r fault := by
  unfold loseWith
  split
  · rfl
  · dsimp only
    split
    · rfl
    · split
      · exact concur_transportLost hr none _
      · split
        · rfl
        · exact concur_transportLost hr none _
        · exact concur_transportLost hr _ _

theorem concur_flush (hr : r.Concur r') (s : Session κ τ ω σ) : s.flush r' = s.flush r := by
  unfold flush
  dsimp only
  split
  · rfl
  · split
    · rfl
    · split
      · rfl
      · exact concur_loseWith hr _ _

theorem concur_checkIdle (hr : r.Concur r') (s : Session κ τ ω σ) : s.checkIdle r' = s.checkIdle r := by
  unfold checkIdle idleTimeout
  dsimp only
  rw [concur_flush hr, concur_loseWith hr]

end Concur

/-! The time of the last activity. -/

section Timed

variable [Codec κ] [Transport τ]

def Forward (s : Session κ τ ω σ) (d : Drift κ τ ω σ) : Prop := s.clock ≤ d.clock

instance (s : Session κ τ ω σ) (d : Drift κ τ ω σ) : Decidable (s.Forward d) :=
  inferInstanceAs (Decidable (s.clock ≤ d.clock))

/-- A connection, step by step, and the reading of its clock at the last activity on its record. -/
inductive Timed (s₀ : Session κ τ ω σ) : Option UInt64 → Session κ τ ω σ → Prop
  | start : Timed s₀ none s₀
  | step {last : Option UInt64} {s s' : Session κ τ ω σ} {new : History} (h : Timed s₀ last s)
      (hd : IoStep (fun _ => True) Forward s s') (hnew : s'.history = new ++ s.history) :
      Timed s₀ (if new.any Entry.isActivity then some s.clock else last) s'

theorem IoSteps.timed (h : IoSteps (fun _ => True) Forward s₀ s) : ∃ last, s₀.Timed last s := by
  induction h with
  | refl => exact ⟨none, .start⟩
  | tail _ hstep ih =>
    obtain ⟨last, htimed⟩ := ih
    obtain ⟨new, hnew⟩ := hstep.suffix
    exact ⟨_, htimed.step hstep hnew.symm⟩

/-- As long as the connection serves, its deadline runs from the last activity, and from no other time than when it was
opened. -/
structure Ticking (timeout : UInt64) (last : Option UInt64) (s : Session κ τ ω σ) : Prop where
  timeout : s.idle.timeout = timeout
  opened : s.Serving → (s.idle.active = true ↔ s.history.Opened)
  last : s.Serving → s.idle.active = true → last = some s.idle.last
  past : s.Serving → s.idle.active = true → s.idle.last ≤ s.clock

omit [Codec κ] [Transport τ] in
theorem Created.ticking (h : Created s) : s.Ticking s.options.idleTimeout none := by
  obtain ⟨base, codec, loop, options, lossNotice, clock, program, -, hs⟩ := h
  unfold create at hs
  dsimp only at hs
  split at hs
  · cases hs
  · cases hs
    refine ⟨rfl, fun _ => ?_, nofun, nofun⟩
    simp [History.Opened]

namespace Ticking

variable {timeout : UInt64} {last : Option UInt64}

omit [Codec κ] [Transport τ] in
theorem idle (h : s.Ticking timeout last) (hlost : s'.lost = s.lost) (hclosing : s'.closing = s.closing)
    (hidle : s'.idle = s.idle) (hclock : s.clock ≤ s'.clock) (hopened : s'.history.Opened ↔ s.history.Opened) :
    s'.Ticking timeout last := by
  have hserving : s'.Serving → s.Serving := fun hs => ⟨hlost ▸ hs.1, hclosing ▸ hs.2⟩
  constructor
  case timeout => rw [hidle, h.timeout]
  case opened =>
    intro hs
    rw [hidle, hopened]
    exact h.opened (hserving hs)
  case last =>
    intro hs
    rw [hidle]
    exact h.last (hserving hs)
  case past =>
    intro hs
    rw [hidle]
    exact fun ha => UInt64.le_trans (h.past (hserving hs) ha) hclock

omit [Codec κ] [Transport τ] in
theorem touch (h : s.Ticking timeout last) (hlost : s'.lost = s.lost) (hclosing : s'.closing = s.closing)
    (hidle : s'.idle = s.idle.touch s.clock) (hclock : s'.clock = s.clock)
    (hopened : s'.history.Opened ↔ s.history.Opened) : s'.Ticking timeout (some s.clock) := by
  have hserving : s'.Serving → s.Serving := fun hs => ⟨hlost ▸ hs.1, hclosing ▸ hs.2⟩
  have hnow : s'.idle.active = true → s'.idle.last = s.clock := by
    intro ha
    rw [hidle, IdleDeadline.active_touch] at ha
    rw [hidle, IdleDeadline.touch, if_pos ha]
  constructor
  case timeout => rw [hidle, IdleDeadline.timeout_touch, h.timeout]
  case opened =>
    intro hs
    rw [hidle, IdleDeadline.active_touch, hopened]
    exact h.opened (hserving hs)
  case last => exact fun _ ha => congrArg some (hnow ha).symm
  case past =>
    intro _ ha
    rw [hnow ha, hclock]
    exact UInt64.le_refl _

omit [Codec κ] [Transport τ] in
theorem of_closing (ht : s'.idle.timeout = timeout) (hclosing : s'.closing = true) : s'.Ticking timeout last :=
  ⟨ht, fun hs => Bool.noConfusion (hs.2.symm.trans hclosing), fun hs => Bool.noConfusion (hs.2.symm.trans hclosing),
    fun hs => Bool.noConfusion (hs.2.symm.trans hclosing)⟩

end Ticking

theorem IoStep.ticking {timeout : UInt64} {last : Option UInt64} {new : History}
    (h : IoStep (fun _ => True) Forward s s') (hnew : s'.history = new ++ s.history) (ht : s.Ticking timeout last) :
    s'.Ticking timeout (if new.any Entry.isActivity then some s.clock else last) := by
  have honly : ∀ added : History, s'.history = added ++ s.history → new = added := fun _ hadded =>
    List.append_cancel_right (hnew.symm.trans hadded)
  cases h with
  | internal h =>
    obtain ⟨added, hadded, hinternal⟩ := h.history
    obtain rfl := honly added hadded
    have hquiet : new.any Entry.isActivity = false := by
      simp only [List.any_eq_false, Bool.not_eq_true]
      exact fun e he => (hinternal e he).not_activity
    rw [hquiet]
    apply ht.idle h.lost h.closing h.idle
    · rw [h.clock]
      exact UInt64.le_refl _
    · exact (h.history.imp fun _ he => (Entry.Internal.uneventful he).1).opened_iff
  | receive data =>
    obtain rfl := honly [.call (.receive data)] rfl
    have hopened : (s.received data).history.Opened ↔ s.history.Opened := by
      apply History.Extends.opened_iff
      exact .cons (Entry.uneventful_receive data).1 .refl
    have htouch : (s.received data).Ticking timeout (some s.clock) := ht.touch rfl rfl rfl rfl hopened
    exact htouch
  | drain | stop =>
    obtain rfl := honly [] rfl
    exact ht.idle rfl rfl rfl (UInt64.le_refl _) Iff.rfl
  | drift d hforward =>
    obtain rfl := honly [] rfl
    exact ht.idle rfl rfl rfl hforward Iff.rfl
  | @write t =>
    obtain ⟨bytes, ret, hret, hhistory⟩ : ∃ bytes ret,
        (Transport.write t (Codec.takeOutput s.codec).1).1 = ret ∧
          (s.written t).history = [.call (.write bytes ret)] ++ s.history := ⟨_, _, rfl, rfl⟩
    obtain rfl := honly _ hhistory
    have hopened : (s.written t).history.Opened ↔ s.history.Opened := by
      apply History.Extends.opened_iff
      refine .cons ?_ .refl
      rintro ⟨settings, heq⟩
      cases heq
    have hidle : (s.written t).idle = if ret = 0 then s.idle.touch s.clock else s.idle := hret ▸ rfl
    by_cases hzero : ret = 0
    · rw [if_pos hzero] at hidle
      rw [hzero]
      exact ht.touch rfl rfl hidle rfl hopened
    · rw [if_neg hzero] at hidle
      rw [if_neg (by simp [Entry.isActivity, hzero])]
      exact ht.idle rfl rfl hidle (UInt64.le_refl _) hopened
  | establish t =>
    obtain ⟨line, hhistory⟩ : ∃ line, (s.opening t).history =
        [.call (.initiate s.options.settings), .log line] ++ s.history := ⟨_, rfl⟩
    obtain rfl := honly _ hhistory
    refine ⟨ht.timeout, fun _ => ?_, fun _ _ => rfl, fun _ _ => UInt64.le_refl _⟩
    apply iff_of_true rfl
    rw [hhistory]
    exact ⟨_, List.mem_cons_self, _, rfl⟩
  | ask => exact .of_closing ht.timeout rfl
  | lose => exact .of_closing ht.timeout rfl

theorem Timed.ticking {last : Option UInt64} (h₀ : Created s₀) (h : s₀.Timed last s) :
    s.Ticking s₀.options.idleTimeout last := by
  induction h with
  | start => exact h₀.ticking
  | step _ hd hnew ih => exact hd.ticking hnew ih

theorem Timed.ioSteps {last : Option UInt64} (h : s₀.Timed last s) : IoSteps (fun _ => True) Forward s₀ s := by
  induction h with
  | start => exact .refl
  | step _ hd _ ih => exact ih.tail hd

/-! When the deadline is found to have passed. -/

variable {may : Demand τ ω → Prop} {around : Session κ τ ω σ → Drift κ τ ω σ → Prop}

theorem not_serving_loseWith (hr : r.ByIoSteps may around) (fault : Fault) (s : Session κ τ ω σ) :
    ¬(s.loseWith r fault).Serving := by
  intro hs
  obtain ⟨hl, hc⟩ := (ioSteps_loseWith hr fault s).serving hs
  cases ht : s.transport with
  | none =>
    rw [loseWith_absent hl hc ht] at hs
    exact Bool.noConfusion (((ioSteps_transportLost hr none _).serving hs).2)
  | some t =>
    have hasked : ¬(s.asked fault t).Serving := fun hs => Bool.noConfusion (show true = false from hs.2)
    rw [loseWith_asked hl hc ht] at hs
    split at hs
    · exact hasked hs
    · exact hasked ((ioSteps_transportLost hr none _).serving hs)
    · exact hasked ((ioSteps_transportLost hr _ _).serving hs)

theorem checkIdle_iff (r : Reaction κ τ ω σ) (s : Session κ τ ω σ) :
    (s.checkIdle r).1 = true ↔ s.Serving ∧ s.idle.isExpired s.clock = true := by
  unfold checkIdle Serving
  split
  · rename_i h
    simp only [Bool.or_eq_true, Bool.not_eq_true'] at h
    simp only [Bool.false_eq_true, false_iff, not_and, Bool.not_eq_true, and_imp]
    intro hl hc
    simpa [hl, hc] using h
  · rename_i h
    simpa [and_assoc] using h

theorem checkIdle_eq (r : Reaction κ τ ω σ) (h : (s.checkIdle r).1 = true) : (s.checkIdle r).2 = s.idleTimeout r := by
  unfold checkIdle at h ⊢
  split at h
  · exact Bool.noConfusion h
  · rename_i hidle
    rw [if_neg hidle]

omit [Transport τ] in
theorem idleCode_eq (h : s.registry.Coherent) : s.idleCode =
    if s.registry.entries = [] ∧ Codec.openOutbound s.codec = 0 ∧ Codec.openInbound s.codec = 0 then .noError
    else .protocolError := by
  have hbusy : s.isBusy = false ↔
      s.registry.entries = [] ∧ Codec.openOutbound s.codec = 0 ∧ Codec.openInbound s.codec = 0 := by
    have hnone : ∀ n : UInt32, ¬0 < n ↔ n = 0 := fun n => by
      rw [UInt32.not_lt]
      exact UInt32.le_zero_iff
    have hactive : s.registry.entries = [] → s.registry.active = 0 := fun hempty => by
      rw [h.counted, hempty]
      rfl
    simp only [isBusy, Bool.or_eq_false_iff, decide_eq_false_iff_not, hnone, Registry.isEmpty, Bool.not_eq_false',
      List.isEmpty_iff]
    constructor
    · rintro ⟨⟨⟨hout, hin⟩, -⟩, hempty⟩
      exact ⟨hempty, hout, hin⟩
    · rintro ⟨hempty, hout, hin⟩
      exact ⟨⟨⟨hout, hin⟩, by simp [hactive hempty]⟩, hempty⟩
  unfold idleCode
  cases hb : s.isBusy with
  | false => rw [if_pos (hbusy.1 hb)]; rfl
  | true => rw [if_neg fun hidle => Bool.noConfusion ((hbusy.2 hidle).symm.trans hb)]; rfl

/-- On any loop and with a clock that does not go back, the deadline of a connection is found to have passed exactly if
the connection serves, was opened, and the time since the last activity is up. The codec is told then to take its leave,
without complaint if nothing was going on. Observers who are told of it at once find the connection closing, and the
deadline is never found to have passed again. -/
theorem run_expiry (h₀ : Created s₀) :
    (∀ s, Sheltered (fun _ => True) Forward s₀ s → ∃ last, s₀.Timed last s) ∧
    ∀ last s, s₀.Timed last s → ∀ r : Reaction κ τ ω σ,
      ((s.checkIdle r).1 = true ↔ s.Serving ∧ s.history.Opened ∧
        ∃ t, last = some t ∧ t.toNat + s₀.options.idleTimeout.toNat ≤ s.clock.toNat) ∧
      ((s.checkIdle r).1 = true → (∀ o news u, FreeRun u (r.run o news u)) →
        (∃ later line, (s.checkIdle r).2.history = later ++ .call (.close
          (if s.registry.entries = [] ∧ Codec.openOutbound s.codec = 0 ∧ Codec.openInbound s.codec = 0 then .noError
            else .protocolError)) :: .log line :: s.history) ∧
        (∀ r', (∀ o news u, u.closing = true → r'.run o news u = r.run o news u) → s.checkIdle r' = s.checkIdle r) ∧
        ∀ s', IoSteps (fun _ => True) (fun _ _ => True) (s.checkIdle r).2 s' → ∀ r', (s'.checkIdle r').1 = false) := by
  refine ⟨fun s h => IoSteps.timed h.ioSteps, fun last s h r => ⟨?_, fun hpassed hfree => ?_⟩⟩
  · have hticking := h.ticking h₀
    rw [checkIdle_iff]
    apply and_congr_right
    intro hs
    constructor
    · intro hexpired
      have hactive : s.idle.active = true := by
        unfold IdleDeadline.isExpired at hexpired
        exact (Bool.and_eq_true_iff.1 hexpired).1
      obtain ⟨-, hup⟩ := (IdleDeadline.isExpired_iff (hticking.past hs hactive)).1 hexpired
      rw [hticking.timeout] at hup
      exact ⟨(hticking.opened hs).1 hactive, s.idle.last, hticking.last hs hactive, hup⟩
    · rintro ⟨hopened, t, ht, hup⟩
      have hactive := (hticking.opened hs).2 hopened
      obtain rfl : t = s.idle.last := Option.some.inj (ht.symm.trans (hticking.last hs hactive))
      apply (IdleDeadline.isExpired_iff (hticking.past hs hactive)).2
      rw [hticking.timeout]
      exact ⟨hactive, hup⟩
  · have hr : r.ByIoSteps (fun _ => True) (fun _ _ => True) := fun o news u => (hfree o news u).sheltered.ioSteps
    have hs : s.Serving := ((checkIdle_iff r s).1 hpassed).1
    have hcoherent : s.registry.Coherent := by
      apply h.ioSteps.coherent
      rw [h₀.fields.2.1]
      exact Registry.coherent_empty
    obtain ⟨message, hidle⟩ := idleTimeout_eq hs r
    have hstep := (checkIdle_eq r hpassed).trans hidle
    refine ⟨?_, fun r' hsame => ?_, fun s' hlater r' => ?_⟩
    -- The farewell is on record before the output is sent, and nothing is taken off the record.
    · let leaving := (s.note .warn message).closeCodec s.idleCode
      have hsteps : IoSteps (fun _ => True) (fun _ _ => True) leaving (s.checkIdle r).2 := by
        rw [hstep]
        exact (ioSteps_flush hr _).trans (ioSteps_loseWith hr _ _)
      obtain ⟨later, hhistory⟩ := hsteps.suffix
      refine ⟨later, Log.line .warn "Session" message, ?_⟩
      rw [← hhistory, ← idleCode_eq hcoherent]
      rfl
    · apply concur_checkIdle
      refine ⟨hsame, fun o news u hclosing => ?_⟩
      exact (hr o news u).closing hclosing
    · rw [Bool.eq_false_iff, ne_eq, checkIdle_iff]
      intro hagain
      have hafter : (s.checkIdle r).2.Serving := hlater.serving hagain.1
      rw [hstep] at hafter
      exact not_serving_loseWith hr _ _ hafter

end Timed

/-- Bytes arrive some time after the connection was opened, and then nothing more. -/
theorem run_expiry_scripted :
    ∃ (s₀ u s : Session Scripted.Codec Scripted.Transport Unit Unit)
      (r : Reaction Scripted.Codec Scripted.Transport Unit Unit), Created s₀ ∧
        s₀.options.idleTimeout = 240000 ∧ s₀.Timed (some 100000) u ∧ u.clock = 339999 ∧ (u.checkIdle r).1 = false ∧
        s₀.Timed (some 100000) s ∧ s.clock = 340000 ∧ (s.checkIdle r).1 = true ∧
        (∃ later line, (s.checkIdle r).2.history = later ++ .call (.close .noError) :: .log line :: s.history) ∧
        ∀ s', FreeRun (s.checkIdle r).2 s' → (s'.checkIdle r).1 = false := by
  let r : Reaction Scripted.Codec Scripted.Transport Unit Unit := ⟨fun _ _ s => s⟩
  let wait (clock : UInt64) : Drift Scripted.Codec Scripted.Transport Unit Unit :=
    { codec := {}, transport := id, clock, program := (), queue := [], lossObservers := id }
  let s₀ : Session Scripted.Codec Scripted.Transport Unit Unit := fresh ({} : Scripted.Codec)
  let opened := s₀.perform r (.established (some {}))
  let heard := (opened.drift (wait 100000)).perform r (.bytesReceived [])
  let u := heard.drift (wait 339999)
  let s := u.drift (wait 340000)
  have hcreated : Created s₀ := created_fresh _
  have hu : Sheltered (fun _ => True) Forward s₀ u := by
    have hstill : ∀ o news v, Sheltered (fun _ => True) Forward v (r.run o news v) := fun _ _ v => .refl v
    have hopened := (Sheltered.refl s₀).meet r hstill (.operation (.established (some {}))) trivial
    have hheard := (hopened.drift (wait 100000) (by decide)).meet r hstill (.operation (.bytesReceived [])) trivial
    exact hheard.drift (wait 339999) (by decide)
  obtain ⟨htimed, hexpiry⟩ := run_expiry hcreated
  obtain ⟨last, hlast⟩ := htimed u hu
  have hlater : s₀.Timed (if ([] : History).any Entry.isActivity then some u.clock else last) s :=
    hlast.step (.drift (wait 340000) (by decide)) rfl
  have hearly : (u.checkIdle r).1 = false := by decide +kernel
  have hdue : (s.checkIdle r).1 = true := by decide +kernel
  obtain ⟨hserving, hopened, t, rfl, hup⟩ := (hexpiry last s hlater r).1.1 hdue
  have hsoon : ¬t.toNat + s₀.options.idleTimeout.toNat ≤ u.clock.toNat := fun hup =>
    Bool.eq_false_iff.1 hearly ((hexpiry (some t) u hlast r).1.2 ⟨hserving, hopened, t, rfl, hup⟩)
  obtain rfl : t = 100000 := by
    have hclocks : u.clock.toNat = 339999 ∧ s.clock.toNat = 340000 ∧ s₀.options.idleTimeout.toNat = 240000 := by decide
    rw [← UInt64.toNat_inj, show (100000 : UInt64).toNat = 100000 from rfl]
    omega
  obtain ⟨⟨later, line, hhistory⟩, -, hnever⟩ := (hexpiry (some 100000) s hlater r).2 hdue fun _ _ v => .refl v
  refine ⟨s₀, u, s, r, hcreated, by decide, hlast, rfl, hearly, hlater, rfl, hdue, ⟨later, line, ?_⟩, fun s' h => ?_⟩
  · exact hhistory
  · exact hnever s' h.sheltered.ioSteps r

end Session

end Multiplex
