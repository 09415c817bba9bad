import Mathlib.Algebra.BigOperators.Group.List.Basic
import Multiplex.Loop.Machine

/-! Every step of a machine makes the work that is left smaller, so running it for as many steps as it has work
leaves nothing to do. -/
namespace Multiplex.Loop

theorem foldr_add_append (l l' : List Nat) :
    (l ++ l').foldr (· + ·) 0 = l.foldr (· + ·) 0 + l'.foldr (· + ·) 0 := List.sum_append

theorem foldr_add_map_add_const {α : Type} (f : α → Nat) (k : Nat) (l : List α) :
    (l.map fun a => f a + k).foldr (· + ·) 0 = (l.map f).foldr (· + ·) 0 + l.length * k := by
  have hsum : (l.map fun a => f a + k).sum = (l.map f).sum + l.length * k := by
    rw [List.sum_map_add, List.map_const', List.sum_replicate_nat]
  exact hsum

namespace Machine

@[simp] theorem weight_happen (m : Machine) (h : Happening) : (m.happen h).weight = m.weight := rfl

@[simp] theorem weight_log (m : Machine) (level : Log.Level) (source : String) (message : Bytes) :
    (m.log level source message).weight = m.weight := rfl

@[simp] theorem signal_happen (m : Machine) (h : Happening) : (m.happen h).signal = m.signal := rfl

@[simp] theorem signal_log (m : Machine) (level : Log.Level) (source : String) (message : Bytes) :
    (m.log level source message).signal = m.signal := rfl

@[simp] theorem signal_push (m : Machine) (f : Frame) : (m.push f).signal = .go := rfl

@[simp] theorem signal_store (m : Machine) (name : Bytes) (c : Cell) : (m.store name c).signal = m.signal := rfl

theorem weight_finish (m : Machine) (v : Value) : (m.finish v).weight + m.signal.weight = m.weight + 1 := by
  simp only [finish, weight, Signal.weight]
  omega

theorem weight_push (m : Machine) (f : Frame) : (m.push f).weight + m.signal.weight = m.weight + f.weight := by
  simp only [push, weight, Signal.weight, List.map_cons, List.foldr_cons]
  omega

theorem weight_remove_le (m : Machine) (name : Bytes) : (m.remove name).weight ≤ m.weight := by
  have h : ∀ l : List (Bytes × Cell),
      ((l.filter (·.1 != name)).map fun c => c.2.weight).foldr (· + ·) 0 ≤
        (l.map fun c => c.2.weight).foldr (· + ·) 0 := by
    intro l
    induction l with
    | nil => exact Nat.le_refl _
    | cons c l ih =>
      by_cases hc : c.1 = name
      · rw [List.filter_cons_of_neg (by simp [hc]), List.map_cons, List.foldr_cons]
        omega
      · rw [List.filter_cons_of_pos (by simp [hc]), List.map_cons, List.foldr_cons, List.map_cons, List.foldr_cons]
        omega
  have := h m.cells
  simp only [remove, weight]
  omega

theorem weight_remove_of_cell {m : Machine} {name : Bytes} {c : Cell} (h : m.cell name = some c) :
    (m.remove name).weight + c.weight ≤ m.weight := by
  have hl : ∀ l : List (Bytes × Cell), (l.find? (·.1 == name)).map (·.2) = some c →
      ((l.filter (·.1 != name)).map fun c => c.2.weight).foldr (· + ·) 0 + c.weight ≤
        (l.map fun c => c.2.weight).foldr (· + ·) 0 := by
    intro l hf
    induction l with
    | nil => simp at hf
    | cons d l ih =>
      by_cases hd : d.1 = name
      · have hc : d.2 = c := by simpa [hd] using hf
        have := weight_remove_le { cells := l } name
        simp only [remove, weight] at this
        rw [List.filter_cons_of_neg (by simp [hd]), List.map_cons, List.foldr_cons, hc]
        omega
      · have := ih (by simpa [hd] using hf)
        rw [List.filter_cons_of_pos (by simp [hd]), List.map_cons, List.foldr_cons, List.map_cons, List.foldr_cons]
        omega
  have := hl m.cells h
  simp only [remove, weight]
  omega

theorem weight_store (m : Machine) (name : Bytes) (c : Cell) :
    (m.store name c).weight = (m.remove name).weight + c.weight := by
  simp only [store, remove, weight, List.map_cons, List.foldr_cons]
  omega

theorem weight_post {m m' : Machine} {t : Task} (h : m.post t = some m') :
    m'.weight = m.weight + t.weight + 6 ∧ m'.signal = m.signal := by
  obtain ⟨l, hl, rfl⟩ := Option.map_eq_some_iff.1 h
  obtain ⟨-, rfl⟩ := Loop.post_eq_some_iff.1 hl
  refine ⟨?_, rfl⟩
  simp only [weight_happen]
  simp only [weight, List.map_append, foldr_add_append, List.map_cons, List.foldr_cons, List.map_nil, List.foldr_nil]
  omega

theorem weight_beginRound (m : Machine) :
    m.beginRound.weight + 3 * m.loop.queue.length + m.signal.weight = m.weight + 2 := by
  have h₁ := foldr_add_map_add_const Task.weight 6 m.loop.queue
  have h₂ := foldr_add_map_add_const Task.weight 3 m.loop.queue
  simp only [beginRound, push, weight, Signal.weight, Frame.weight, Loop.queue_emptied, List.map_cons,
    List.foldr_cons, List.map_nil, List.foldr_nil, h₁, h₂]
  omega

@[simp] theorem signal_beginRound (m : Machine) : m.beginRound.signal = .go := rfl

theorem weight_beginRunning (m : Machine) (onThread : Bool) :
    (m.beginRunning onThread).weight + m.signal.weight = m.weight + 5 :=
  weight_push m (.running onThread)

theorem weight_inform (m : Machine) (o : Observer) (value : Bytes) :
    (m.inform o value).weight + m.signal.weight = m.weight + o.weight + 2 :=
  weight_push (m.happen (.told o.label value)) (.script o.andThen)

theorem weight_begin (m : Machine) (t : Task) : (m.begin t).weight + m.signal.weight = m.weight + t.weight + 2 := by
  cases t with
  | actions list => exact weight_push (m.happen (.began (.actions list))) (.script list)
  | tell o value => exact weight_inform (m.happen (.began (.tell o value))) o value

theorem weight_deliver_le (m : Machine) (o : Observer) (value : Bytes) (onLoop : Bool) :
    (m.deliver o value onLoop).weight ≤ m.weight + o.weight + 6 := by
  unfold deliver
  split
  next m' h =>
    have h' : m.post (.tell o value) = some m' := by
      by_cases hl : onLoop = true <;> simp_all
    have := (weight_post h').1
    simp only [Task.weight, Task.script, Observer.weight] at *
    omega
  next =>
    have := weight_inform (m.log .warn "Completion"
      (Bytes.ascii "Event loop unavailable, notifying observer inline")) o value
    simp only [weight_log, signal_log] at this
    omega

section Go

variable {m : Machine}

theorem weight_finish_of_go (hgo : m.signal = .go) (v : Value) : (m.finish v).weight = m.weight + 1 := by
  simpa [hgo, Signal.weight] using weight_finish m v

theorem weight_push_of_go (hgo : m.signal = .go) (f : Frame) : (m.push f).weight = m.weight + f.weight := by
  simpa [hgo, Signal.weight] using weight_push m f

theorem weight_beginRound_of_go (hgo : m.signal = .go) :
    m.beginRound.weight + 3 * m.loop.queue.length = m.weight + 2 := by
  simpa [hgo, Signal.weight] using weight_beginRound m

theorem weight_beginRunning_of_go (hgo : m.signal = .go) (onThread : Bool) :
    (m.beginRunning onThread).weight = m.weight + 5 := by
  simpa [hgo, Signal.weight] using weight_beginRunning m onThread

/-! What an action sets off is less than what it was worth. -/

theorem weight_perform_post_lt (hgo : m.signal = .go) (task : List Action) :
    (m.perform (.post task)).weight + 2 < m.weight + (Action.post task).weight := by
  simp only [perform]
  split
  next m' h =>
    obtain ⟨hw, hsignal⟩ := weight_post h
    rw [weight_finish_of_go (hsignal.trans hgo), hw]
    simp only [Task.weight, Task.script, Action.weight]
    omega
  next =>
    rw [weight_finish_of_go hgo]
    simp only [Action.weight]
    omega

theorem weight_observe {c : Cell} {label : Bytes} {andThen : List Action} {completion : Completion Observer Bytes}
    (h : c.completion.observe ⟨label, andThen⟩ = (none, completion)) :
    (Cell.mk completion c.onLoop).weight = c.weight + Action.weightAll andThen + 8 := by
  cases hvalue : c.completion.value with
  | some value => simp [Completion.observe, hvalue] at h
  | none =>
    have hcompletion :
        completion = { c.completion with observers := c.completion.observers ++ [⟨label, andThen⟩] } := by
      simpa [Completion.observe, hvalue, eq_comm] using h
    simp only [hcompletion, Cell.weight, Observer.weight, List.map_append, foldr_add_append, List.map_cons,
      List.foldr_cons, List.map_nil, List.foldr_nil]
    omega

theorem weight_perform_onComplete_lt (hgo : m.signal = .go) (name label : Bytes) (andThen : List Action) :
    (m.perform (.onComplete name label andThen)).weight + 2 <
      m.weight + (Action.onComplete name label andThen).weight := by
  simp only [perform]
  split
  next =>
    rw [weight_finish_of_go hgo]
    simp only [Action.weight]
    omega
  next c hcell =>
    have hremoved := weight_remove_of_cell hcell
    split
    next completion hobserve =>
      rw [weight_finish_of_go (m := m.store name _) hgo, weight_store, weight_observe hobserve]
      simp only [Action.weight]
      omega
    next value completion hobserve =>
      rw [weight_push_of_go hgo]
      simp only [Frame.weight, Observer.weight, Action.weight, List.map_cons, List.foldr_cons, List.map_nil,
        List.foldr_nil]
      omega

theorem weight_perform_fulfil_lt (hgo : m.signal = .go) (name value : Bytes) :
    (m.perform (.fulfil name value)).weight + 2 < m.weight + (Action.fulfil name value).weight := by
  simp only [perform]
  split
  next =>
    rw [weight_finish_of_go hgo]
    simp only [Action.weight]
    omega
  next c hcell =>
    have hremoved := weight_remove_of_cell hcell
    split
    next =>
      rw [weight_finish_of_go (m := m.log .warn "Completion" _) hgo, weight_log]
      simp only [Action.weight]
      omega
    next os completion hfulfil =>
      obtain ⟨-, rfl, rfl⟩ := Completion.fulfil_eq_some_iff.1 hfulfil
      rw [weight_push_of_go (m := m.store name _) hgo, weight_store]
      simp only [Cell.weight, Frame.weight, Action.weight, List.map_nil, List.foldr_nil] at *
      omega

theorem weight_perform_lt (a : Action) (hgo : m.signal = .go) :
    (m.perform a).weight + 2 < m.weight + a.weight := by
  cases a with
  | post task => exact weight_perform_post_lt hgo task
  | onComplete name label andThen => exact weight_perform_onComplete_lt hgo name label andThen
  | fulfil name value => exact weight_perform_fulfil_lt hgo name value
  | note text => simp [perform, weight_finish_of_go (m := m.happen (.note text)) hgo, Action.weight]
  | raise text => simp only [perform, weight, hgo, Signal.weight, Action.weight]; omega
  | stop =>
    have hstopped : (m.perform .stop).weight = m.weight + 1 :=
      weight_finish_of_go (m := { m with loop := m.loop.stop }) hgo .nothing
    rw [hstopped]
    simp only [Action.weight]
    omega
  | runPending =>
    have hround := weight_beginRound_of_go hgo
    simp only [perform, Action.weight]
    omega
  | runUntilIdle rounds => simp [perform, weight_push_of_go hgo, Frame.weight, Action.weight]
  | run | runOnThread => simp [perform, weight_beginRunning_of_go hgo, Action.weight]
  | create name onLoop =>
    have hremoved := weight_remove_le m name
    simp only [perform, weight_finish_of_go (m := m.store name { onLoop }) hgo, weight_store, Action.weight,
      Cell.weight, List.map_nil, List.foldr_nil]
    omega
  | drop name =>
    have hremoved := weight_remove_le m name
    simp only [perform, weight_finish_of_go (m := m.remove name) hgo, Action.weight]
    omega
  | _ => simp [perform, weight_finish_of_go hgo, Action.weight]

theorem weight_call_lt (a : Action) (hgo : m.signal = .go) : (m.call a).weight + 2 < m.weight + a.weight :=
  weight_perform_lt a hgo

/-! A frame that goes on. -/

theorem weight_resume_script_lt (hgo : m.signal = .go) (a : Action) (rest : List Action) :
    (m.resume (.script (a :: rest))).weight < m.weight + (Frame.script (a :: rest)).weight := by
  have hw : (Frame.script (a :: rest)).weight = a.weight + Action.weightAll rest + 2 := rfl
  have hcalled := weight_call_lt (m := m.push (.script rest)) a rfl
  rw [weight_push_of_go hgo] at hcalled
  have hrecorded := weight_call_lt (m := (m.push (.script rest)).push (.recording a.name)) a rfl
  rw [weight_push_of_go rfl, weight_push_of_go hgo] at hrecorded
  simp only [Frame.weight] at hcalled hrecorded
  cases a <;> simp only [resume, hw] <;> omega

theorem weight_resume_round_lt (hgo : m.signal = .go) (t : Task) (rest : List Task) (taken : Nat) :
    (m.resume (.round (t :: rest) taken)).weight < m.weight + (Frame.round (t :: rest) taken).weight := by
  have hbegun := weight_begin (m.push (.round rest (taken + 1))) t
  rw [weight_push_of_go hgo] at hbegun
  simp only [resume, Frame.weight, signal_push, Signal.weight, List.map_cons, List.foldr_cons] at *
  omega

theorem weight_beginRound_push_lt (hgo : m.signal = .go) (hqueue : m.loop.queue ≠ []) (f : Frame) :
    ((m.push f).beginRound).weight < m.weight + f.weight := by
  have hround := weight_beginRound_of_go (m := m.push f) rfl
  have hlength : 0 < (m.push f).loop.queue.length := List.length_pos_iff.2 hqueue
  rw [weight_push_of_go hgo] at hround
  omega

theorem weight_resume_rounds_lt (hgo : m.signal = .go) (left total : Nat) :
    (m.resume (.rounds left total)).weight < m.weight + (Frame.rounds left total).weight := by
  cases left with
  | zero => simp [resume, weight_finish_of_go hgo, Frame.weight]
  | succ left =>
    by_cases hqueue : m.loop.queue = []
    · simp [resume, hqueue, weight_finish_of_go hgo, Frame.weight]
    · have hround := weight_beginRound_push_lt hgo hqueue (.rounds left total)
      simpa [resume, hqueue, Frame.weight] using hround

theorem weight_resume_running_lt (hgo : m.signal = .go) (onThread : Bool) :
    (m.resume (.running onThread)).weight < m.weight + (Frame.running onThread).weight := by
  by_cases hstopped : m.loop.stopped = true
  · have hround := weight_beginRound_of_go (m := m.push (.lastRound onThread)) rfl
    rw [weight_push_of_go hgo] at hround
    simp only [resume, hstopped, Frame.weight, ↓reduceIte] at *
    omega
  · by_cases hqueue : m.loop.queue = []
    · simp only [resume, hstopped, hqueue, weight, Frame.weight, Signal.weight, List.map_nil, List.foldr_nil,
        Bool.false_eq_true, List.isEmpty_nil, ↓reduceIte]
      omega
    · have hround := weight_beginRound_push_lt hgo hqueue (.running onThread)
      simpa [resume, hstopped, hqueue, Frame.weight] using hround

theorem weight_resume_telling_lt (hgo : m.signal = .go) (o : Observer) (rest : List Observer) (value : Bytes)
    (onLoop : Bool) (answer : Value) :
    (m.resume (.telling (o :: rest) value onLoop answer)).weight <
      m.weight + (Frame.telling (o :: rest) value onLoop answer).weight := by
  have hdelivered := weight_deliver_le (m.push (.telling rest value onLoop answer)) o value onLoop
  rw [weight_push_of_go hgo] at hdelivered
  simp only [resume, Frame.weight, List.map_cons, List.foldr_cons] at *
  omega

theorem weight_resume_lt (f : Frame) (hgo : m.signal = .go) : (m.resume f).weight < m.weight + f.weight := by
  have hanswer : ∀ v, (m.finish v).weight < m.weight + 2 := fun v => by simp [weight_finish_of_go hgo]
  cases f with
  | script rest =>
    cases rest with
    | nil => exact hanswer .nothing
    | cons a rest => exact weight_resume_script_lt hgo a rest
  | round rest taken =>
    cases rest with
    | nil => exact hanswer (.count taken)
    | cons t rest => exact weight_resume_round_lt hgo t rest taken
  | telling rest value onLoop answer =>
    cases rest with
    | nil => exact hanswer answer
    | cons o rest => exact weight_resume_telling_lt hgo o rest value onLoop answer
  | rounds left total => exact weight_resume_rounds_lt hgo left total
  | running onThread => exact weight_resume_running_lt hgo onThread
  | recording action => exact hanswer .nothing
  | lastRound onThread => exact hanswer .returned

end Go

theorem weight_accept_lt {m : Machine} {v : Value} (f : Frame) (hs : m.signal = .done v) :
    (m.accept v f).weight < m.weight + f.weight := by
  have hp : ∀ f : Frame, (m.push f).weight + 1 = m.weight + f.weight := fun f => by
    simpa [hs, Signal.weight] using weight_push m f
  cases f with
  | recording action =>
    simp only [accept, weight, happen, Frame.weight, Signal.weight]
    omega
  | rounds left total =>
    cases v <;> simp only [accept, Frame.weight] <;>
      have := hp (.rounds left total) <;> simp only [Frame.weight] at this <;>
        simp only [push, weight, Signal.weight, Frame.weight, List.map_cons, List.foldr_cons] at * <;> omega
  | lastRound onThread =>
    have := weight_finish m .returned
    simp only [accept, hs, Frame.weight, Signal.weight] at *
    omega
  | script rest => have := hp (.script rest); simp only [accept]; omega
  | round rest taken => have := hp (.round rest taken); simp only [accept]; omega
  | running onThread => have := hp (.running onThread); simp only [accept]; omega
  | telling rest value onLoop answer => have := hp (.telling rest value onLoop answer); simp only [accept]; omega

theorem weight_unwind_lt {m : Machine} {text : Bytes} (f : Frame) (hs : m.signal = .raised text) :
    (m.unwind text f).weight < m.weight + f.weight := by
  cases f with
  | round rest taken =>
    have := weight_push (m.log .error "EventLoop" (Bytes.ascii "Task threw exception: " ++ text)) (.round rest taken)
    simp only [signal_log, weight_log, hs, Signal.weight] at this
    simp only [unwind]
    omega
  | _ => simp only [unwind, Frame.weight]; omega

theorem weight_step_lt {m m' : Machine} (h : m.step = some m') : m'.weight < m.weight := by
  unfold step at h
  split at h
  next => simp at h
  next f stack hst =>
    have hw : m.weight = ({ m with stack } : Machine).weight + f.weight := by
      simp only [weight, hst, List.map_cons, List.foldr_cons]
      omega
    rw [hw]
    split at h
    next hs => exact Option.some.inj h ▸ weight_resume_lt f hs
    next v hs => exact Option.some.inj h ▸ weight_accept_lt f hs
    next text hs => exact Option.some.inj h ▸ weight_unwind_lt f hs
    next => simp at h

theorem step_runFor_of_weight_le {n : Nat} {m : Machine} (h : m.weight ≤ n) : (m.runFor n).step = none := by
  induction n generalizing m with
  | zero =>
    cases hs : m.step with
    | none => exact hs
    | some m' => have := weight_step_lt hs; omega
  | succ n ih =>
    unfold runFor
    split
    next hs => exact hs
    next m' hs =>
      have := weight_step_lt hs
      exact ih (by omega)

theorem step_settle (m : Machine) : m.settle.step = none := step_runFor_of_weight_le (Nat.le_refl _)

end Machine

end Multiplex.Loop
