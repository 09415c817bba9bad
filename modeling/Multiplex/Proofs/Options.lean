import Mathlib.Algebra.Group.Nat.Defs
import Multiplex.Proofs.Run

/-! From a configuration to the options of a connection. Validation finds no fault exactly with the configurations whose
numbers can be used as they are, and what follows from one of those is legal for the peer to be told. The options carry
over every number, and a connection keeps what it was opened with: it announces those settings and no others. -/
namespace Multiplex

open Bytes Wire

structure Wire.Settings.Legal (s : Settings) : Prop where
  window : s.initialWindowSize.toNat ≤ 2 ^ 31 - 1
  frame : 2 ^ 14 ≤ s.maxFrameSize.toNat ∧ s.maxFrameSize.toNat ≤ 2 ^ 24 - 1
  streams : 0 < s.maxConcurrentStreams.toNat
  push : s.enablePush = 0 ∨ s.enablePush = 1

namespace Config

variable {c : Config}

/-- A configuration that can be followed. A largest size of zero is no limit, so that any size to warn of goes with
it. -/
structure Valid (c : Config) : Prop where
  idle : 0 < c.idleTimeoutSeconds.toNat
  sizes : 0 ≤ c.maxSize ∧ 0 ≤ c.warnSize
  ordered : c.maxSize ≠ 0 → c.warnSize ≤ c.maxSize
  window : c.initialWindowSize.toNat ≤ 2 ^ 31 - 1
  frame : 16384 ≤ c.maxFrameSize.toNat ∧ c.maxFrameSize.toNat ≤ 16777215
  streams : 0 < c.maxConcurrentStreams.toNat
  level : c.logging.level ∈ ["DEBUG", "INFO", "WARN", "ERROR"].map ascii

def Issue.Concerns (c : Config) : Issue → Prop
  | .idleTimeout => c.idleTimeoutSeconds = 0
  | .negativeSize => c.maxSize < 0 ∨ c.warnSize < 0
  | .warnAboveMax warn max => (warn = c.warnSize ∧ max = c.maxSize) ∧ 0 < max ∧ max < warn
  | .windowSize size => size = c.initialWindowSize ∧ largestWindow < size
  | .frameSize size => size = c.maxFrameSize ∧ (size < smallestFrame ∨ largestFrame < size)
  | .noStreams => c.maxConcurrentStreams = 0
  | .logLevel name => name = c.logging.level ∧ Log.Level.ofName name = none

theorem concerns_of_issue {i : Issue} (h : c.issue = some i) : i.Concerns c := by
  unfold issue at h
  repeat' split at h
  all_goals cases h
  all_goals simp_all [Issue.Concerns]

/-- Nothing is overlooked. -/
theorem not_concerns_of_issue_eq_none (h : c.issue = none) (i : Issue) : ¬i.Concerns c := by
  unfold issue at h
  repeat' split at h
  all_goals cases i <;> simp_all [Issue.Concerns]

theorem issue_eq_none_iff : c.issue = none ↔ ∀ i : Issue, ¬i.Concerns c := by
  refine ⟨not_concerns_of_issue_eq_none, fun h => ?_⟩
  cases hi : c.issue with
  | none => rfl
  | some i => exact absurd (concerns_of_issue hi) (h i)

theorem toNat_ne_zero_iff {n : UInt32} : n ≠ 0 ↔ 0 < n.toNat := by
  rw [Nat.pos_iff_ne_zero, ne_eq, ne_eq, ← UInt32.toNat_inj]
  rfl

theorem Valid.not_concerns (h : c.Valid) (i : Issue) : ¬i.Concerns c := by
  cases i with
  | idleTimeout => exact toNat_ne_zero_iff.2 h.idle
  | negativeSize =>
    rintro (hmax | hwarn)
    · exact Int.not_lt.2 h.sizes.1 hmax
    · exact Int.not_lt.2 h.sizes.2 hwarn
  | warnAboveMax warn max =>
    rintro ⟨⟨rfl, rfl⟩, hpos, hlt⟩
    exact Int.not_lt.2 (h.ordered (Int.ne_of_gt hpos)) hlt
  | windowSize size =>
    rintro ⟨rfl, hlt⟩
    exact Nat.not_lt.2 h.window (UInt32.lt_iff_toNat_lt.1 hlt)
  | frameSize size =>
    rintro ⟨rfl, hlt | hlt⟩
    · exact Nat.not_lt.2 h.frame.1 (UInt32.lt_iff_toNat_lt.1 hlt)
    · exact Nat.not_lt.2 h.frame.2 (UInt32.lt_iff_toNat_lt.1 hlt)
  | noStreams => exact toNat_ne_zero_iff.2 h.streams
  | logLevel name =>
    rintro ⟨rfl, hnone⟩
    exact Option.isSome_iff_ne_none.1 (Log.Level.ofName_isSome_iff.2 h.level) hnone

theorem valid_of_not_concerns (h : ∀ i : Issue, ¬i.Concerns c) : c.Valid where
  idle := toNat_ne_zero_iff.1 (h .idleTimeout)
  sizes := by
    constructor
    · exact Int.not_lt.1 fun hmax => h .negativeSize (.inl hmax)
    · exact Int.not_lt.1 fun hwarn => h .negativeSize (.inr hwarn)
  ordered := by
    intro hne
    have hmax : 0 ≤ c.maxSize := Int.not_lt.1 fun hmax => h .negativeSize (.inl hmax)
    exact Int.not_lt.1 fun hlt => h (.warnAboveMax _ _) ⟨⟨rfl, rfl⟩, by omega, hlt⟩
  window := Nat.not_lt.1 fun hlt => h (.windowSize _) ⟨rfl, UInt32.lt_iff_toNat_lt.2 hlt⟩
  frame := by
    constructor
    · exact Nat.not_lt.1 fun hlt => h (.frameSize _) ⟨rfl, .inl (UInt32.lt_iff_toNat_lt.2 hlt)⟩
    · exact Nat.not_lt.1 fun hlt => h (.frameSize _) ⟨rfl, .inr (UInt32.lt_iff_toNat_lt.2 hlt)⟩
  streams := toNat_ne_zero_iff.1 (h .noStreams)
  level := Log.Level.ofName_isSome_iff.1 (Option.isSome_iff_ne_none.2 fun hnone => h (.logLevel _) ⟨rfl, hnone⟩)

theorem validate_eq_none_iff : c.validate = none ↔ c.Valid := by
  rw [validate, Option.map_eq_none_iff, issue_eq_none_iff]
  exact ⟨valid_of_not_concerns, Valid.not_concerns⟩

end Config

/-! The options that follow. -/

structure Options.Carries (o : Options) (c : Config) : Prop where
  idle : o.idleTimeout.toNat = 1000 * c.idleTimeoutSeconds.toNat
  sizes : o.maxSize = c.maxSize ∧ o.warnSize = c.warnSize
  table : o.settings.headerTableSize = c.headerTableSize
  push : o.settings.enablePush = if c.enablePush then 1 else 0
  streams : o.settings.maxConcurrentStreams = c.maxConcurrentStreams
  window : o.settings.initialWindowSize = c.initialWindowSize
  frame : o.settings.maxFrameSize = c.maxFrameSize

theorem Config.carries_options (c : Config) : c.options.Carries c where
  idle := by
    have hbound : c.idleTimeoutSeconds.toNat < 2 ^ 32 := c.idleTimeoutSeconds.toNat_lt
    have htimes : (c.idleTimeoutSeconds.toUInt64 * 1000).toNat = c.idleTimeoutSeconds.toNat * 1000 % 2 ^ 64 := by
      rw [UInt64.toNat_mul, UInt32.toNat_toUInt64]
      rfl
    rw [options, htimes]
    omega
  sizes := ⟨rfl, rfl⟩
  table := rfl
  push := rfl
  streams := rfl
  window := rfl
  frame := rfl

theorem Config.Valid.legal {c : Config} (h : c.Valid) : c.options.settings.Legal where
  window := h.window
  frame := h.frame
  streams := h.streams
  push := by
    rw [c.carries_options.push]
    split
    · exact .inr rfl
    · exact .inl rfl

/-! What a connection keeps of its options. -/

def Entry.settings : Entry → Option Settings
  | .call (.initiate settings) => some settings
  | _ => none

theorem Entry.OfTraffic.settings {e : Entry} (h : e.OfTraffic) : e.settings = none := by
  unfold Entry.settings
  split
  · exact h.elim
  · rfl

namespace Session

variable {κ τ ω σ : Type} {s₀ s s' : Session κ τ ω σ} {o : Options}

/-- A connection goes by its options: it waits as long, lets responses be as large and announces the settings that they
say. -/
structure Honours (o : Options) (s : Session κ τ ω σ) : Prop where
  options : s.options = o
  timeout : s.idle.timeout = o.idleTimeout
  sizes : s.metadata.maxSize = o.maxSize ∧ s.metadata.warnSize = o.warnSize
  announced : ∀ settings ∈ s.history.select Entry.settings, settings = o.settings

theorem Honours.of_same (h : s.Honours o) (hoptions : s'.options = s.options)
    (htimeout : s'.idle.timeout = s.idle.timeout)
    (hsizes : s'.metadata.maxSize = s.metadata.maxSize ∧ s'.metadata.warnSize = s.metadata.warnSize)
    (hh : s'.history.select Entry.settings = s.history.select Entry.settings) : s'.Honours o where
  options := hoptions.trans h.options
  timeout := htimeout.trans h.timeout
  sizes := ⟨hsizes.1.trans h.sizes.1, hsizes.2.trans h.sizes.2⟩
  announced := hh ▸ h.announced

theorem Created.honours (h : Created s) : s.Honours s.options := by
  obtain ⟨base, codec, loop, options, lossNotice, clock, program, -, hs⟩ := h
  unfold create at hs
  dsimp only at hs
  split at hs
  · cases hs
  · cases hs
    exact ⟨rfl, rfl, ⟨rfl, rfl⟩, nofun⟩

variable [Codec κ]

theorem Honours.transportLost (h : s.Honours o) (hc : s.Coupled none) (hl : s.lost = false) (r : Reaction κ τ ω σ)
    (cause : Option Fault) : (s.transportLost r cause).Honours o := by
  obtain ⟨_, history, _, -, -, hh, hlost⟩ := transportLost_eq hc hl r cause
  rw [hlost]
  refine h.of_same rfl rfl ⟨rfl, rfl⟩ (hh.select_eq fun _ => ?_)
  exact OfLoss.unseen (fun _ => rfl) (fun _ _ => rfl) (fun _ => rfl) rfl

variable [Transport τ]

theorem Move.honours (h : Move s s') (hc : s.Coupled none) (ho : s.Honours o) : s'.Honours o := by
  cases h with
  | traffic h =>
    have hstanding := h.standing hc
    have hmetadata := congrArg Standing.metadata hstanding
    refine ho.of_same (congrArg Standing.options hstanding)
      (congrArg (fun u => u.idle.timeout) hstanding) ?_ ?_
    · exact ⟨congrArg Metadata.maxSize hmetadata, congrArg Metadata.warnSize hmetadata⟩
    · exact (h.growth hc).select_eq fun _ => Entry.OfTraffic.settings
  | @refuse r request cause h =>
    obtain ⟨history, notices, hh, hfinish⟩ := hc.refuse_eq r request cause
    rw [hfinish]
    refine ho.of_same rfl rfl ⟨rfl, rfl⟩ ((History.select_cons _ _ _).trans ((List.append_nil _).trans ?_))
    exact hh.select_eq fun _ => Entry.IsStreamLine.unseen fun _ => rfl
  | lost r cause hl => exact ho.transportLost hc hl r cause
  | discard r hl =>
    have hwithout : ({ s with transport := none } : Session κ τ ω σ).Honours o :=
      ho.of_same rfl rfl ⟨rfl, rfl⟩ rfl
    exact hwithout.transportLost hc.withoutTransport hl r none
  | initiate hl =>
    refine ⟨ho.options, ho.timeout, ho.sizes, fun settings hmem => ?_⟩
    rcases List.mem_append.1 ((History.select_cons _ _ _) ▸ hmem) with hmem | hmem
    · exact ho.announced settings hmem
    · rw [List.mem_singleton.1 hmem, ho.options]
  | receive data hs =>
    exact ho.of_same rfl (IdleDeadline.timeout_touch _ _) ⟨rfl, rfl⟩
      ((History.select_cons _ _ _).trans (List.append_nil _))
  | @write t hout ht hl =>
    refine ho.of_same rfl ?_ ⟨rfl, rfl⟩ ((History.select_cons _ _ _).trans (List.append_nil _))
    change (if (Transport.write t (Codec.takeOutput s.codec).1).1 = 0 then s.idle.touch s.clock else s.idle).timeout = _
    split
    · exact IdleDeadline.timeout_touch _ _
    · rfl
  | dispatch | farewell | lose =>
    exact ho.of_same rfl rfl ⟨rfl, rfl⟩ ((History.select_cons _ _ _).trans (List.append_nil _))
  | queue | observe | notify | acknowledged | certified | drain | establish | blame | closing =>
    exact ho.of_same rfl rfl ⟨rfl, rfl⟩ rfl

theorem Path.honours (h : Path s s') (hc : s.Coupled none) (ho : s.Honours o) : s'.Honours o := by
  induction h with
  | refl => exact ho
  | tail hpath hmove ih => exact hmove.honours (Path.coupled hpath hc) ih

theorem Run.honours (h : Run s s') (hc : s.Coupled none) (ho : s.Honours o) : s'.Honours o := by
  induction h with
  | refl => exact ho
  | tail hrun hstep ih =>
    have hmid := Run.coupled hrun hc
    cases hstep with
    | perform r op => exact (path_perform r op hmid).honours hmid ih
    | drift d => exact ih.of_same rfl rfl ⟨rfl, rfl⟩ rfl

end Session

/-- Validation finds no fault with exactly the valid configurations. The options that follow from a configuration carry
over all that it says, those of a valid one are legal, and a connection opened with them goes by them: each time it is
opened it announces the settings of the configuration. -/
theorem Config.validated_options (c : Config) :
    (c.validate = none ↔ c.Valid) ∧ c.options.Carries c ∧
    (c.validate = none → c.options.settings.Legal) ∧
    ∀ {κ τ ω σ : Type} [Codec κ] [Transport τ] (s₀ s : Session κ τ ω σ), s₀.Created →
      s₀.options = c.options → Session.Run s₀ s → s.Honours c.options := by
  refine ⟨validate_eq_none_iff, c.carries_options, fun h => (validate_eq_none_iff.1 h).legal, ?_⟩
  intro κ τ ω σ _ _ s₀ s h₀ hoptions hrun
  rw [← hoptions]
  exact hrun.honours h₀.coupled h₀.honours

/-- A configuration at its bounds, and a connection that is opened with it. -/
theorem Config.validated_options_bounds :
    let c : Config := {
      idleTimeoutSeconds := 4294967295, maxSize := 0, warnSize := 9223372036854775807, enablePush := true
      maxConcurrentStreams := 1, initialWindowSize := 2147483647, maxFrameSize := 16777215
      logging := { level := ascii "ERROR" } }
    c.validate = none ∧ c.Valid ∧ c.options.Carries c ∧ c.options.idleTimeout = 4294967295000 ∧
      c.options.settings.Legal ∧
      ∃ s₀ s : Session Scripted.Codec Scripted.Transport Unit Unit, s₀.Created ∧ s₀.options = c.options ∧
        Session.Run s₀ s ∧ s.Honours c.options ∧ s.history.select Entry.settings = [c.options.settings] := by
  intro c
  obtain ⟨hvalid, hcarries, hlegal, hhonours⟩ := validated_options c
  have hnone : c.validate = none := by decide
  let s₀ : Session Scripted.Codec Scripted.Transport Unit Unit := {
    codec := {}, program := (), options := c.options, idle := { timeout := c.options.idleTimeout }
    metadata := { baseUrl := Session.exampleUrl, maxSize := c.options.maxSize, warnSize := c.options.warnSize } }
  have hcreated : s₀.Created := by
    refine ⟨ascii "https://example.com", {}, {}, c.options, none, 0, (), rfl, ?_⟩
    have hbase : Url.parse (ascii "https://example.com") = .ok Session.exampleUrl := by decide
    unfold Session.create
    rw [hbase]
  have hrun : Session.Run s₀ (s₀.perform ⟨fun _ _ s => s⟩ (.established (some {}))) := .single (.perform _ _ _)
  exact ⟨hnone, hvalid.1 hnone, hcarries, by decide, hlegal hnone, s₀, _, hcreated, rfl, hrun,
    hhonours s₀ _ hcreated rfl hrun, by decide +kernel⟩

end Multiplex
