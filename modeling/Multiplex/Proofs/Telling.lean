import Multiplex.Proofs.Ledger

/-! Completions without a loop that takes tasks. Whoever sets such a completion tells its observers at once, one after
the other. An exception of one of them leaves the call that sets the completion, and those behind it are not told. -/
namespace Multiplex.Loop.Machine

open Bytes

variable {m m' c : Machine} {below : List Frame} {value : Bytes} {onLoop : Bool} {answer : Value}
  {all told : List Observer} {p : Action → Bool}

def informing (below : List Frame) (value : Bytes) (onLoop : Bool) (answer : Value) (o : Observer)
    (rest : List Observer) (m : Machine) : Machine :=
  { m with stack := below }.push (.telling rest value onLoop answer)
    |>.log .warn "Completion" (ascii "Event loop unavailable, notifying observer inline") |>.inform o value

/-- Observers are told one after the other, each when the one before has come to its end: until all are told, or until
one of them raises an exception or waits for ever. The second list is that of those who are told. -/
inductive Tells (below : List Frame) (value : Bytes) (onLoop : Bool) (answer : Value) :
    List Observer → List Observer → Machine → Machine → Prop
  | all {m : Machine} (hs : m.stack = .telling [] value onLoop answer :: below) (hgo : m.signal = .go) :
      Tells below value onLoop answer [] [] m ({ m with stack := below }.finish answer)
  | next {o : Observer} {rest told : List Observer} {m u v m' : Machine} {x : Value}
      (hs : m.stack = .telling (o :: rest) value onLoop answer :: below) (hgo : m.signal = .go)
      (hone : (m.informing below value onLoop answer o rest).Returns (.telling rest value onLoop answer :: below) u)
      (hdone : u.signal = .done x) (hnext : u.step = some v) (hrest : Tells below value onLoop answer rest told v m') :
      Tells below value onLoop answer (o :: rest) (o :: told) m m'
  | raises {o : Observer} {rest : List Observer} {m u m' : Machine} {text : Bytes}
      (hs : m.stack = .telling (o :: rest) value onLoop answer :: below) (hgo : m.signal = .go)
      (hone : (m.informing below value onLoop answer o rest).Returns (.telling rest value onLoop answer :: below) u)
      (hraised : u.signal = .raised text) (hnext : u.step = some m') :
      Tells below value onLoop answer (o :: rest) [o] m m'
  | waits {o : Observer} {rest : List Observer} {m m' : Machine}
      (hs : m.stack = .telling (o :: rest) value onLoop answer :: below) (hgo : m.signal = .go)
      (hone : (m.informing below value onLoop answer o rest).Works (.telling rest value onLoop answer :: below) m')
      (hsleep : m'.signal = .asleep) :
      Tells below value onLoop answer (o :: rest) [o] m m'

theorem step_informing {o : Observer} {rest : List Observer}
    (hs : m.stack = .telling (o :: rest) value onLoop answer :: below) (hgo : m.signal = .go)
    (hclosed : onLoop = true → m.loop.stopped = true) :
    m.step = some (m.informing below value onLoop answer o rest) := by
  let u : Machine := { m with stack := below }.push (.telling rest value onLoop answer)
  rw [step_of_go hs hgo, resume]
  exact congrArg some (deliver_inline (m := u) o value hclosed)

theorem within_informing (o : Observer) (rest : List Observer) :
    (m.informing below value onLoop answer o rest).Within (.telling rest value onLoop answer :: below) :=
  within_of_stack (f := .script o.andThen) rfl rfl

/-- Nobody starts a stopped loop again while an observer is at work. -/
theorem Works.closed {u v : Machine} {f : Frame} {o : Observer} {rest : List Observer}
    (h : (m.informing below value onLoop answer o rest).Works (f :: below) u) (hnext : u.step = some v)
    (hclosed : onLoop = true → m.loop.stopped = true) : onLoop = true → v.loop.stopped = true := by
  intro hloop
  have hu := Later.stopped (h.later (p := fun _ => true)) (hclosed hloop)
  exact ((stepEffect_of_step hnext).stopped hu).1

namespace Tells

theorem prefix_all (h : Tells below value onLoop answer all told m m') : told <+: all := by
  induction h with
  | all => exact List.prefix_rfl
  | next _ _ _ _ _ _ ih => exact (List.prefix_cons_inj _).2 ih
  | raises | waits => simp

theorem outcome (h : Tells below value onLoop answer all told m m') :
    (m'.stack = below ∧ m'.signal = .done answer ∧ told = all) ∨
      (m'.stack = below ∧ ∃ text, m'.signal = .raised text) ∨ m'.signal = .asleep := by
  induction h with
  | all => exact .inl ⟨rfl, rfl, rfl⟩
  | next _ _ _ _ _ _ ih =>
    obtain ⟨hs, hdone, rfl⟩ | hraised := ih
    · exact .inl ⟨hs, hdone, rfl⟩
    · exact .inr hraised
  | raises hs hgo hone hraised hnext =>
    have hstep := step_of_raised hone.2.1 hraised
    obtain rfl := Option.some.inj (hnext.symm.trans hstep)
    exact .inr (.inl ⟨rfl, _, hraised⟩)
  | waits _ _ _ hsleep => exact .inr (.inr hsleep)

theorem works (h : Tells below value onLoop answer all told m m') (hclosed : onLoop = true → m.loop.stopped = true) :
    m.Works below m' := by
  induction h with
  | all hs hgo => exact .single ⟨within_of_stack hs rfl, step_of_go hs hgo⟩
  | next hs hgo hone hdone hnext hrest ih =>
    apply Works.head (within_of_stack hs rfl) (step_informing hs hgo hclosed)
    apply (hone.1.lower rfl).trans
    exact Works.head (within_of_stack hone.2.1 rfl) hnext (ih (hone.1.closed hnext hclosed))
  | raises hs hgo hone hraised hnext =>
    apply Works.head (within_of_stack hs rfl) (step_informing hs hgo hclosed)
    exact (hone.1.lower rfl).tail ⟨within_of_stack hone.2.1 rfl, hnext⟩
  | waits hs hgo hone =>
    exact Works.head (within_of_stack hs rfl) (step_informing hs hgo hclosed) (hone.lower rfl)

end Tells

theorem exists_tells (hs : m.stack = .telling all value onLoop answer :: below) (hgo : m.signal = .go)
    (hclosed : onLoop = true → m.loop.stopped = true) : ∃ told m', Tells below value onLoop answer all told m m' := by
  induction all generalizing m with
  | nil => exact ⟨[], _, .all hs hgo⟩
  | cons o rest ih =>
    obtain ⟨u, hworks, ⟨hu, hover⟩ | hsleep⟩ := (within_informing (m := m) o rest).returns_or_sleeps
    · cases hsignal : u.signal with
      | done x =>
        have hnext := step_of_done hu hsignal
        obtain ⟨told, m', hrest⟩ := ih rfl rfl (hworks.closed hnext hclosed)
        exact ⟨o :: told, m', .next hs hgo ⟨hworks, hu, hover⟩ hsignal hnext hrest⟩
      | raised text => exact ⟨[o], _, .raises hs hgo ⟨hworks, hu, hover⟩ hsignal (step_of_raised hu hsignal)⟩
      | go | asleep => simp [hsignal, Signal.isOver] at hover
    · exact ⟨[o], u, .waits hs hgo hworks hsleep⟩

/-- Whoever first sets a completion without a loop that takes tasks tells its observers, in their order and each once.
If the call returns, all are told; an exception that leaves it is that of the observer told last, and those behind it
are not told. -/
theorem told_at_once {name : Bytes} {cell : Cell} (h : m.Faces (.fulfil name value) c)
    (hcell : m.cell name = some cell) (hfirst : cell.completion.value = none)
    (hclosed : cell.onLoop = true → m.loop.stopped = true) :
    ∃ told m', Tells c.stack value cell.onLoop (.flag true) cell.completion.observers told
        (c.call (.fulfil name value)) m' ∧
      (c.call (.fulfil name value)).Works c.stack m' ∧ told <+: cell.completion.observers ∧
      ((m'.stack = c.stack ∧ m'.signal = .done (.flag true) ∧ told = cell.completion.observers) ∨
        (m'.stack = c.stack ∧ ∃ text, m'.signal = .raised text) ∨ m'.signal = .asleep) := by
  let u := c.happen (.called (.fulfil name value))
  have hu : u.cell name = some cell := by cases h <;> exact hcell
  have hcall : c.call (.fulfil name value) = (u.store name { cell with completion := ⟨some value, []⟩ }
      |>.push (.telling cell.completion.observers value cell.onLoop (.flag true))) := by
    show u.perform (.fulfil name value) = _
    simp [perform, hu, Completion.fulfil, hfirst]
  have hloop : cell.onLoop = true → (c.call (.fulfil name value)).loop.stopped = true := by
    intro hon
    rw [hcall]
    exact (congrArg Loop.stopped h.loop).trans (hclosed hon)
  obtain ⟨told, m', htells⟩ := exists_tells (by rw [hcall]; rfl) (by rw [hcall]; rfl) hloop
  exact ⟨told, m', htells, htells.works hloop, htells.prefix_all, htells.outcome⟩

def twoObservers : Machine :=
  ({} : Machine).act (.create (ascii "a") true)
    |>.act .stop
    |>.act (.onComplete (ascii "a") (ascii "1") [.raise (ascii "bad observer")])
    |>.act (.onComplete (ascii "a") (ascii "2") [])

theorem told_at_once_raising :
    ∃ (m : Machine) (cell : Cell), m.stack = [] ∧ m.cell (ascii "a") = some cell ∧ cell.completion.value = none ∧
      cell.completion.observers.length = 2 ∧ m.loop.stopped = true ∧
      ∃ told m', Tells [] (ascii "v") cell.onLoop (.flag true) cell.completion.observers told
        ({ m with signal := .go }.call (.fulfil (ascii "a") (ascii "v"))) m' ∧ told <+: cell.completion.observers := by
  have hfaces : twoObservers.Faces (.fulfil (ascii "a") (ascii "v")) { twoObservers with signal := .go } := .caller rfl
  have hcell : twoObservers.cell (ascii "a") =
      some ⟨⟨none, [⟨ascii "1", [.raise (ascii "bad observer")]⟩, ⟨ascii "2", []⟩]⟩, true⟩ := rfl
  obtain ⟨told, m', htells, -, hprefix, -⟩ := told_at_once hfaces hcell rfl fun _ => rfl
  exact ⟨twoObservers, _, rfl, rfl, rfl, rfl, rfl, told, m', htells, hprefix⟩

theorem runFor_of_step_eq_none (h : m.step = none) (n : Nat) : m.runFor n = m := by
  cases n <;> simp [runFor, h]

theorem Within.works_settle (hm : m.Within []) : m.Works [] m.settle := by
  have hrun : ∀ n, ∀ m : Machine, m.Within [] → m.Works [] (m.runFor n) := by
    intro n
    induction n with
    | zero => exact fun _ _ => .refl
    | succ n ih =>
      intro m hm
      unfold runFor
      split
      next => exact .refl
      next u hstep =>
        apply Works.head hm hstep
        obtain hu | ⟨hs, -⟩ | hsleep := (stepEffect_of_step hstep).within hm
        · exact ih u hu
        · rw [runFor_of_step_eq_none (step_eq_none_iff.2 (.inl hs))]
          exact .refl
        · rw [runFor_of_step_eq_none (step_eq_none_iff.2 (.inr hsleep))]
          exact .refl
  exact hrun m.weight m hm

/-- An observer is never told, though the call that set the completion is over. -/
theorem observer_passed_over :
    ∃ (m m' : Machine) (cell : Cell) (o : Observer), Reached (fun a => !a.runs) m ∧ m.stack = [] ∧
      m.loop.stopped = true ∧ m.cell (ascii "a") = some cell ∧ cell.completion.value = none ∧
      o ∈ cell.completion.observers ∧
      ({ m with signal := .go }.call (.fulfil (ascii "a") (ascii "v"))).Returns [] m' ∧
      Happening.told o.label (ascii "v") ∉ m'.history := by
  let u : Machine := { twoObservers with signal := .go }.call (.fulfil (ascii "a") (ascii "v"))
  have hreached : Reached (fun a => !a.runs) twoObservers :=
    .act (.act (.act (.act .refl rfl rfl) rfl rfl) rfl rfl) rfl rfl
  refine ⟨twoObservers, u.settle, _, ⟨ascii "2", []⟩, hreached, rfl, rfl, rfl, rfl, ?_, ⟨?_, rfl, rfl⟩, ?_⟩
  · simp
  · exact (within_of_stack (m := u) rfl rfl).works_settle
  · have hhistory : u.settle.history =
        [.called _, .told (ascii "1") _, .log _, .called _, .called _, .called _, .called _, .called _] := rfl
    have hfirst : ascii "2" ≠ ascii "1" := by decide
    simp [hhistory, hfirst]

end Multiplex.Loop.Machine
