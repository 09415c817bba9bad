import Multiplex.Proofs.Invariant

/-! What moves add to the record, and how many exchanges run after them. More exchanges run only where an admission
is on record, and an admission is made only by a connection that is ready and below its limit. -/
namespace Multiplex

open Bytes Wire

/-- An entry as a connection makes it. A result is given twice only if `doubled`. -/
def Entry.Lawful (doubled : Prop) (admission : Bool → Nat → Nat → Prop) : Entry → Prop
  | .admitted _ ready active limit => admission ready active limit
  | .log l => l.source = ascii "Completion" → doubled
  | _ => True

section Lawful

variable {doubled : Prop} {admission : Bool → Nat → Nat → Prop} {e : Entry}

theorem Entry.lawful_log {l : Log.Line} (h : l.source ≠ ascii "Completion") :
    (Entry.log l).Lawful doubled admission := fun hs => absurd hs h

theorem Entry.lawful_note (level : Log.Level) (message : Bytes) :
    (Entry.log (Log.line level "Session" message)).Lawful doubled admission :=
  lawful_log (show ascii "Session" ≠ ascii "Completion" by decide)

theorem Entry.IsStreamLine.lawful (h : e.IsStreamLine) : e.Lawful doubled admission := by
  obtain ⟨l, rfl, hl⟩ := h
  apply lawful_log
  rw [hl]
  decide

theorem Entry.OfTurn.lawful {id : UInt32} (h : e.OfTurn id) : e.Lawful doubled admission := by
  cases e with
  | log l => exact IsStreamLine.lawful ⟨l, rfl, h⟩
  | admitted => exact h.elim
  | _ => trivial

end Lawful

def Entry.OfTraffic : Entry → Prop
  | .call (.headers ..) | .call (.data ..) | .call (.reset ..) | .call (.acknowledge ..) => True
  | .log _ | .settled .. | .admitted .. => True
  | _ => False

theorem Entry.OfTurn.ofTraffic {id : UInt32} {e : Entry} (h : e.OfTurn id) : e.OfTraffic := by
  unfold Entry.OfTurn at h
  split at h
  · trivial
  · trivial
  · trivial
  · trivial
  · trivial
  · exact h.elim

theorem Entry.IsStreamLine.ofTraffic {e : Entry} (h : e.IsStreamLine) : e.OfTraffic := by
  obtain ⟨l, rfl, -⟩ := h
  trivial

namespace Session

variable {κ τ ω σ : Type} {p : Entry → Prop} {s s' s'' : Session κ τ ω σ}

def Accounted (p : Entry → Prop) (s s' : Session κ τ ω σ) : Prop :=
  ∃ new, s'.history = new ++ s.history ∧ (∀ e ∈ new, p e) ∧
    ∀ most, (∀ ticket ready active limit, .admitted ticket ready active limit ∈ new → active ≤ most) →
      s'.registry.active ≤ max s.registry.active most

namespace Accounted

theorem of_extends (hh : s.history.Extends p s'.history) (ha : s'.registry.active ≤ s.registry.active) :
    Accounted p s s' := by
  obtain ⟨new, hnew, hp⟩ := hh
  exact ⟨new, hnew, hp, fun most _ => Nat.le_trans ha (Nat.le_max_left _ _)⟩

theorem refl (s : Session κ τ ω σ) : Accounted p s s := of_extends .refl (Nat.le_refl _)

theorem trans (h : Accounted p s s') (h' : Accounted p s' s'') : Accounted p s s'' := by
  obtain ⟨new, hnew, hp, hactive⟩ := h
  obtain ⟨new', hnew', hp', hactive'⟩ := h'
  refine ⟨new' ++ new, ?_, ?_, ?_⟩
  · rw [hnew', hnew, List.append_assoc]
  · intro e he
    rcases List.mem_append.1 he with he | he
    · exact hp' e he
    · exact hp e he
  · intro most hmost
    have hfirst := hactive most fun t r a l hm => hmost t r a l (List.mem_append_right _ hm)
    have hsecond := hactive' most fun t r a l hm => hmost t r a l (List.mem_append_left _ hm)
    omega

theorem imp {q : Entry → Prop} (hpq : ∀ e, p e → q e) (h : Accounted p s s') :
    Accounted q s s' := by
  obtain ⟨new, hnew, hp, hactive⟩ := h
  exact ⟨new, hnew, fun e he => hpq e (hp e he), hactive⟩

end Accounted

/-- The notice of a loss was given before the loss, so not by the connection. -/
def Preempted (s : Session κ τ ω σ) : Prop := s.lost = false ∧ ∃ c, s.lossNotice = some c ∧ c.isFulfilled = true

theorem OfLoss.lawful {admission : Bool → Nat → Nat → Prop} (hlost : s.lost = false) {x : Entry} (h : s.OfLoss x) :
    x.Lawful s.Preempted admission := by
  rcases h with h | h | ⟨l, rfl, hl⟩ | rfl
  · cases x with
    | log => exact fun _ => ⟨hlost, h⟩
    | lossAnnounced => trivial
    | _ => exact h.elim
  · rcases h with h | ⟨ticket, outcome, rfl⟩
    · exact h.lawful
    · trivial
  · apply Entry.lawful_log
    rw [hl]
    decide
  · trivial

structure Lasting (s s' : Session κ τ ω σ) : Prop where
  lost : s.lost = true → s'.lost = true
  closing : s.closing = true → s'.closing = true
  transport : s.transport.isSome = true → s'.transport.isSome = true ∨ s'.lost = true
  tickets : s.completions.length ≤ s'.completions.length

theorem Lasting.refl (s : Session κ τ ω σ) : Lasting s s := ⟨id, id, Or.inl, Nat.le_refl _⟩

theorem Lasting.trans (h : Lasting s s') (h' : Lasting s' s'') : Lasting s s'' := by
  refine ⟨fun hl => h'.lost (h.lost hl), fun hc => h'.closing (h.closing hc), ?_, Nat.le_trans h.tickets h'.tickets⟩
  intro ht
  rcases h.transport ht with ht | hl
  · exact h'.transport ht
  · exact Or.inr (h'.lost hl)

variable [Codec κ] [Transport τ] {d : Prop}

structure Admits (s : Session κ τ ω σ) (ready : Bool) (active limit : Nat) : Prop where
  isReady : ready = true ∧ s.isReady = true
  counted : active = s.registry.active + 1
  allowed : limit = (min (Codec.localLimit s.codec) (Codec.remoteLimit s.codec)).toNat
  below : s.registry.active < limit

theorem Admits.active_le {ready : Bool} {active limit : Nat} (h : s.Admits ready active limit) :
    active ≤ limit := by
  rw [h.counted]
  exact h.below

theorem accounted_popped (hcan : s.canAdmit = true) (e : Registry.Entry Stream) (rest : List UInt32) :
    Accounted (Entry.Lawful d s.Admits) s (s.popped e rest) := by
  unfold canAdmit at hcan
  rw [Bool.and_eq_true, Bool.and_eq_true, decide_eq_true_eq] at hcan
  obtain ⟨⟨-, hbelow⟩, hready⟩ := hcan
  refine ⟨[.admitted e.item.ticket s.isReady (s.registry.active + 1) s.streamLimit, .log _], rfl, ?_, ?_⟩
  · intro x hx
    rcases List.mem_cons.1 hx with rfl | hx
    · exact ⟨⟨hready, hready⟩, rfl, rfl, hbelow⟩
    · rw [List.mem_singleton.1 hx]
      exact Entry.lawful_note _ _
  · intro most hmost
    have hcount := hmost _ _ _ _ List.mem_cons_self
    change s.registry.active + 1 ≤ _
    omega

theorem lawful_turn {admission : Bool → Nat → Nat → Prop} {id : UInt32} {ticket : Ticket} {x : Entry}
    (h : x.OfTurn id ∨ ∃ outcome, x = .settled ticket outcome) : x.Lawful d admission := by
  rcases h with h | ⟨outcome, rfl⟩
  · exact h.lawful
  · trivial

theorem Traffic.shape (h : Traffic s s') (hc : s.Coupled none) :
    Accounted (Entry.Lawful d s.Admits) s s' ∧
      ∃ codec registry completions history held admitting notices,
        (∀ p : κ → Prop, Codec.Keeps p → p s.codec → p codec) ∧ completions.length = s.completions.length ∧
        s' = ({ s with codec, registry, completions, history, held, admitting } : Session κ τ ω σ).notify
          notices := by
  cases h with
  | note level message =>
    refine ⟨.of_extends (.cons (Entry.lawful_note level message) .refl) (Nat.le_refl _), ?_⟩
    exact ⟨_, _, _, (s.note level message).history, _, _, [], fun _ _ => id, rfl, (notify_nil _).symm⟩
  | hold held =>
    exact ⟨.of_extends .refl (Nat.le_refl _), _, _, _, _, held, _, [], fun _ _ => id, rfl, (notify_nil _).symm⟩
  | gate admitting =>
    exact ⟨.of_extends .refl (Nat.le_refl _), _, _, _, _, _, admitting, [], fun _ _ => id, rfl, (notify_nil _).symm⟩
  | @start r stream registry hcan hnext =>
    obtain ⟨e, he, rest, hfit, hp, hhead⟩ := hc.head hcan
    rw [hhead, Prod.mk.injEq, Option.some.injEq] at hnext
    obtain ⟨rfl, rfl⟩ := hnext
    obtain ⟨codec, registry, completions, history, notices, hactive, -, hlength, hh, hkeeps, hturn⟩ :=
      hc.begin_shape he hfit hp r
    rw [begin_eq, hturn]
    refine ⟨(accounted_popped hcan e rest).trans (.of_extends (hh.imp fun _ => lawful_turn) hactive), ?_⟩
    exact ⟨codec, registry, completions, history, _, _, notices, hkeeps, hlength, rfl⟩
  | @receive r e act hs he ha =>
    obtain ⟨_, hsteps⟩ := ha.steps s.metadata (s.turnOf e.item)
    obtain ⟨registry, completions, history, notices, hactive, -, hlength, hh, hturn⟩ := (hc.excuse e.id).turn_shape he r
      hsteps.continues (hsteps.sound (Turn.sound_of_fits rfl (hc.fits he)))
    rw [hturn]
    refine ⟨.of_extends (hh.imp fun _ => lawful_turn) hactive, ?_⟩
    exact ⟨_, registry, completions, history, _, _, notices, fun _ hp => hsteps.keeps hp, hlength, rfl⟩
  | @conclude r e reason causes hs he _ =>
    obtain ⟨history, notices, hh, hfinish⟩ := hc.conclude_eq he r reason causes
    rw [hfinish]
    refine ⟨.of_extends (.cons trivial (hh.imp fun _ => Entry.IsStreamLine.lawful))
      (Registry.active_remove_le _ _), ?_⟩
    exact ⟨_, _, s.completions.set e.item.ticket ⟨some _, []⟩, .settled e.item.ticket _ :: history, _, _, notices,
      fun _ _ => id, List.length_set, rfl⟩
  | acknowledge =>
    refine ⟨.of_extends (.cons trivial .refl) (Nat.le_refl _), ?_⟩
    exact ⟨_, _, _, _, _, _, [], fun _ hp => hp.acknowledge _ _ _, rfl, (notify_nil _).symm⟩

theorem Traffic.growth (h : Traffic s s') (hc : s.Coupled none) : s.history.Extends Entry.OfTraffic s'.history := by
  have hturn : ∀ {id : UInt32} {ticket : Ticket} (x : Entry), x.OfTurn id ∨ (∃ outcome, x = .settled ticket outcome) →
      x.OfTraffic := by
    rintro id ticket x (h | ⟨outcome, rfl⟩)
    · exact h.ofTraffic
    · trivial
  cases h with
  | note => exact .cons trivial .refl
  | hold | gate => exact .refl
  | @start r stream registry hcan hnext =>
    obtain ⟨e, he, rest, hfit, hp, hhead⟩ := hc.head hcan
    rw [hhead, Prod.mk.injEq, Option.some.injEq] at hnext
    obtain ⟨rfl, rfl⟩ := hnext
    obtain ⟨codec, registry, completions, history, notices, -, -, -, hh, -, hturned⟩ := hc.begin_shape he hfit hp r
    rw [begin_eq, hturned]
    have hpopped : s.history.Extends Entry.OfTraffic (s.popped e rest).history := .cons trivial (.cons trivial .refl)
    exact hpopped.trans (hh.imp hturn)
  | @receive r e act hs he ha =>
    obtain ⟨_, hsteps⟩ := ha.steps s.metadata (s.turnOf e.item)
    obtain ⟨registry, completions, history, notices, -, -, -, hh, hturned⟩ := (hc.excuse e.id).turn_shape he r
      hsteps.continues (hsteps.sound (Turn.sound_of_fits rfl (hc.fits he)))
    rw [hturned]
    exact hh.imp hturn
  | @conclude r e reason causes hs he _ =>
    obtain ⟨history, notices, hh, hfinish⟩ := hc.conclude_eq he r reason causes
    rw [hfinish]
    exact .cons trivial (hh.imp fun _ => Entry.IsStreamLine.ofTraffic)
  | acknowledge => exact .cons trivial .refl

theorem Traffic.standing (h : Traffic s s') (hc : s.Coupled none) : s'.standing = s.standing := by
  obtain ⟨-, _, _, _, _, _, _, _, -, -, hs⟩ := h.shape (d := False) hc
  rw [hs]
  rfl

theorem Move.accounted (h : Move s s') (hc : s.Coupled none) :
    Accounted (Entry.Lawful s.Preempted s.Admits) s s' := by
  cases h with
  | traffic h => exact (h.shape hc).1
  | queue request h => exact .of_extends .refl (Nat.le_refl _)
  | @refuse r request cause h =>
    obtain ⟨history, notices, hh, hfinish⟩ := hc.refuse_eq r request cause
    rw [hfinish]
    exact .of_extends (.cons trivial (hh.imp fun _ => Entry.IsStreamLine.lawful)) (Nat.le_refl _)
  | lost r cause hl =>
    obtain ⟨completions, history, notices, -, -, hh, hlost⟩ := transportLost_eq hc hl r cause
    rw [hlost]
    exact .of_extends (hh.imp fun _ => OfLoss.lawful hl) (Nat.zero_le _)
  | discard r hl =>
    obtain ⟨completions, history, notices, -, -, hh, hlost⟩ :=
      transportLost_eq hc.withoutTransport hl r none
    rw [hlost]
    exact .of_extends (hh.imp fun _ => OfLoss.lawful hl) (Nat.zero_le _)
  | dispatch | receive | write | initiate | farewell | lose =>
    exact .of_extends (.cons trivial .refl) (Nat.le_refl _)
  | observe | notify | acknowledged | certified | drain | establish | blame | closing =>
    exact .of_extends .refl (Nat.le_refl _)

theorem Move.preempted (h : Move s s') (hc : s.Coupled none) (hp : s'.Preempted) : s.Preempted := by
  cases h with
  | traffic h =>
    obtain ⟨-, _, _, _, _, _, _, _, -, -, rfl⟩ := h.shape (d := False) hc
    exact hp
  | @refuse r request cause h =>
    obtain ⟨_, _, -, hfinish⟩ := hc.refuse_eq r request cause
    rw [hfinish] at hp
    exact hp
  | lost r cause hl =>
    obtain ⟨_, _, _, -, -, -, hlost⟩ := transportLost_eq hc hl r cause
    rw [hlost] at hp
    exact Bool.noConfusion hp.1
  | discard r hl =>
    obtain ⟨_, _, _, -, -, -, hlost⟩ := transportLost_eq hc.withoutTransport hl r none
    rw [hlost] at hp
    exact Bool.noConfusion hp.1
  | _ => exact hp

theorem Move.lasting (h : Move s s') (hc : s.Coupled none) : Lasting s s' := by
  cases h with
  | traffic h =>
    obtain ⟨-, _, _, _, _, _, _, _, -, hlength, rfl⟩ := h.shape (d := False) hc
    exact ⟨id, id, Or.inl, Nat.le_of_eq hlength.symm⟩
  | @refuse r request cause h =>
    obtain ⟨_, _, -, hfinish⟩ := hc.refuse_eq r request cause
    rw [hfinish]
    refine ⟨id, id, Or.inl, ?_⟩
    change s.completions.length ≤ (List.set _ _ _).length
    rw [List.length_set, issueTicket, List.length_append]
    exact Nat.le_add_right _ _
  | queue =>
    refine ⟨id, id, Or.inl, ?_⟩
    rw [queued, List.length_append]
    exact Nat.le_add_right _ _
  | lost r cause hl =>
    obtain ⟨_, _, _, -, hlength, -, hlost⟩ := transportLost_eq hc hl r cause
    rw [hlost]
    exact ⟨fun _ => rfl, fun _ => rfl, Or.inl, Nat.le_of_eq hlength.symm⟩
  | discard r hl =>
    obtain ⟨_, _, _, -, hlength, -, hlost⟩ := transportLost_eq hc.withoutTransport hl r none
    rw [hlost]
    exact ⟨fun _ => rfl, fun _ => rfl, fun _ => Or.inr rfl, Nat.le_of_eq hlength.symm⟩
  | observe => exact ⟨id, id, Or.inl, Nat.le_of_eq List.length_set.symm⟩
  | closing => exact ⟨id, fun _ => rfl, Or.inl, Nat.le_refl _⟩
  | write | establish | lose => exact ⟨id, id, fun _ => Or.inl rfl, Nat.le_refl _⟩
  | dispatch | notify | acknowledged | certified | receive | drain | initiate | farewell | blame =>
    exact ⟨id, id, Or.inl, Nat.le_refl _⟩

theorem Path.lasting (h : Path s s') (hc : s.Coupled none) : Lasting s s' := by
  induction h with
  | refl => exact .refl s
  | tail hpath hmove ih => exact ih.trans (hmove.lasting (Path.coupled hpath hc))

theorem Path.suffix (h : Path s s') (hc : s.Coupled none) : s.history <:+ s'.history := by
  induction h with
  | refl => exact List.suffix_rfl
  | tail hpath hmove ih =>
    obtain ⟨new, hnew, -⟩ := hmove.accounted (Path.coupled hpath hc)
    exact ih.trans ⟨new, hnew.symm⟩

end Session

end Multiplex
