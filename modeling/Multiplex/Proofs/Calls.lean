import Multiplex.Loop.Termination
import Mathlib.Logic.Relation

/-! Calls on a loop at work. What an action does at once and what a step does are listed once, case by case. From
that follows how calls nest: whatever is on top of a stack, the frames below stay as they are until it has answered, has
raised, or waits for ever, which only a loop that is run does. -/
namespace Multiplex.Loop

open Bytes

def Happening.Tacit : Happening → Prop
  | .note _ | .log _ => True
  | _ => False

def Signal.isOver : Signal → Bool
  | .done _ | .raised _ => true
  | _ => false

namespace Frame

def batch : Frame → List Task
  | round rest _ => rest
  | _ => []

def isRecording : Frame → Bool
  | recording _ => true
  | _ => false

def isRunning : Frame → Bool
  | running _ | lastRound _ => true
  | _ => false

def isSpent : Frame → Bool
  | script rest => rest.isEmpty
  | round rest _ => rest.isEmpty
  | telling rest _ _ _ => rest.isEmpty
  | _ => true

def drives : Frame → Bool
  | rounds _ _ | running _ | lastRound _ => true
  | _ => false

theorem batch_of_isSpent {f : Frame} (h : f.isSpent = true) : f.batch = [] := by
  cases f <;> simp_all [isSpent, batch]

theorem batch_of_drives {f : Frame} (h : f.drives = true) : f.batch = [] := by
  cases f <;> first | rfl | cases h

theorem drives_of_isRunning {f : Frame} (h : f.isRunning = true) : f.drives = true := by
  cases f <;> first | rfl | cases h

end Frame

namespace Action

def inner : Action → List Action
  | post task => task
  | onComplete _ _ andThen => andThen
  | _ => []

def runs : Action → Bool
  | run | runOnThread => true
  | _ => false

def drives : Action → Bool
  | runPending | runUntilIdle _ | run | runOnThread => true
  | _ => false

mutual

def every (p : Action → Bool) : Action → Bool
  | post task => p (post task) && everyOf p task
  | onComplete name label andThen => p (onComplete name label andThen) && everyOf p andThen
  | a => p a

def everyOf (p : Action → Bool) : List Action → Bool
  | [] => true
  | a :: as => a.every p && everyOf p as

end

variable {p : Action → Bool}

theorem every_iff {a : Action} : a.every p = true ↔ p a = true ∧ everyOf p a.inner = true := by
  cases a <;> simp [every, inner, everyOf]

theorem everyOf_cons {a : Action} {as : List Action} :
    everyOf p (a :: as) = true ↔ (p a = true ∧ everyOf p a.inner = true) ∧ everyOf p as = true := by
  simp [everyOf, every_iff]

end Action

def Frame.Obeys (p : Action → Bool) : Frame → Prop
  | .script rest => Action.everyOf p rest = true
  | .round rest _ => ∀ t ∈ rest, Action.everyOf p t.script = true
  | .telling rest _ _ _ => ∀ o ∈ rest, Action.everyOf p o.andThen = true
  | _ => True

namespace Machine

variable {m m' : Machine}

def OnlyAnswers (m : Machine) : Action → Prop
  | .post _ => m.loop.stopped = true
  | .onComplete name _ _ => m.cell name = none
  | .fulfil name _ => ∀ c, m.cell name = some c → c.completion.value ≠ none
  | .raise _ | .runPending | .runUntilIdle _ | .run | .runOnThread | .stop | .create _ _ | .drop _ => False
  | _ => True

inductive Effect (m : Machine) : Action → Machine → Prop
  | answer {a : Action} (v : Value) (new : List Happening) (ha : m.OnlyAnswers a) (hnew : ∀ e ∈ new, e.Tacit) :
      Effect m a ({ m with history := new ++ m.history }.finish v)
  | raise (text : Bytes) : Effect m (.raise text) { m with signal := .raised (untilNul text) }
  | post (task : List Action) (hloop : m.loop.stopped = false) :
      Effect m (.post task)
        ({ m with loop := { m.loop with queue := m.loop.queue ++ [Task.actions task] } }
          |>.happen (.accepted (.actions task)) |>.finish (.flag true))
  | stop : Effect m .stop ({ m with loop := m.loop.stop }.finish .nothing)
  | runPending : Effect m .runPending m.beginRound
  | runUntilIdle (rounds : Nat) : Effect m (.runUntilIdle rounds) (m.push (.rounds rounds 0))
  | run : Effect m .run (m.beginRunning false)
  | runOnThread : Effect m .runOnThread (m.beginRunning true)
  | create (name : Bytes) (onLoop : Bool) :
      Effect m (.create name onLoop) (m.store name { onLoop } |>.finish .nothing)
  | drop (name : Bytes) : Effect m (.drop name) (m.remove name |>.finish .nothing)
  | register {name : Bytes} (label : Bytes) (andThen : List Action) {c : Cell} (hcell : m.cell name = some c)
      (hvalue : c.completion.value = none) :
      Effect m (.onComplete name label andThen)
        (m.store name { c with completion := ⟨none, c.completion.observers ++ [⟨label, andThen⟩]⟩ }
          |>.finish .nothing)
  | catchUp {name : Bytes} (label : Bytes) (andThen : List Action) {c : Cell} {value : Bytes}
      (hcell : m.cell name = some c) (hvalue : c.completion.value = some value) :
      Effect m (.onComplete name label andThen) (m.push (.telling [⟨label, andThen⟩] value c.onLoop .nothing))
  | fulfil {name : Bytes} (value : Bytes) {c : Cell} (hcell : m.cell name = some c)
      (hvalue : c.completion.value = none) :
      Effect m (.fulfil name value)
        (m.store name { c with completion := ⟨some value, []⟩ }
          |>.push (.telling c.completion.observers value c.onLoop (.flag true)))

theorem effect_perform (m : Machine) (a : Action) : Effect m a (m.perform a) := by
  have hquiet : ∀ e ∈ ([] : List Happening), e.Tacit := List.forall_mem_nil _
  have hone : ∀ e : Happening, e.Tacit → ∀ e' ∈ [e], e'.Tacit := fun e he e' he' => List.mem_singleton.1 he' ▸ he
  cases a with
  | note text => exact .answer .nothing [.note text] trivial (hone _ trivial)
  | raise text => exact .raise text
  | post task =>
    cases hloop : m.loop.stopped with
    | false => simpa [perform, Machine.post, Loop.post, hloop] using Effect.post task hloop
    | true =>
      have hsame : m.perform (.post task) = m.finish (.flag false) := by
        simp [perform, Machine.post, Loop.post, hloop]
      rw [hsame]
      exact .answer (.flag false) [] hloop hquiet
  | stop => exact .stop
  | runPending => exact .runPending
  | runUntilIdle rounds => exact .runUntilIdle rounds
  | run => exact .run
  | runOnThread => exact .runOnThread
  | create name onLoop => exact .create name onLoop
  | drop name => exact .drop name
  | onComplete name label andThen =>
    simp only [perform]
    split
    next hcell => exact .answer .nothing [] hcell hquiet
    next c hcell =>
      cases hvalue : c.completion.value with
      | none => simpa [Completion.observe, hvalue] using Effect.register label andThen hcell hvalue
      | some value => simpa [Completion.observe, hvalue] using Effect.catchUp label andThen hcell hvalue
  | fulfil name value =>
    simp only [perform]
    split
    next hcell =>
      apply Effect.answer .nothing [] _ hquiet
      intro c hc
      cases hcell.symm.trans hc
    next c hcell =>
      cases hvalue : c.completion.value with
      | none => simpa [Completion.fulfil, hvalue] using Effect.fulfil value hcell hvalue
      | some old =>
        have hvain : m.OnlyAnswers (.fulfil name value) := by
          intro c' hc'
          simp [← Option.some.inj (hcell.symm.trans hc'), hvalue]
        rw [show c.completion.fulfil value = none by simp [Completion.fulfil, hvalue]]
        exact .answer (.flag false) [.log _] hvain (hone _ trivial)
  | _ => exact .answer _ [] trivial hquiet

theorem deliver_posted (o : Observer) (value : Bytes) (hopen : m.loop.stopped = false) :
    m.deliver o value true = ({ m with loop := { m.loop with queue := m.loop.queue ++ [Task.tell o value] } }
      |>.happen (.accepted (.tell o value))) := by
  simp [deliver, Machine.post, Loop.post, hopen]

theorem deliver_inline (o : Observer) (value : Bytes) {onLoop : Bool}
    (hclosed : onLoop = true → m.loop.stopped = true) :
    m.deliver o value onLoop = (m.log .warn "Completion" (ascii "Event loop unavailable, notifying observer inline")
      |>.inform o value) := by
  cases onLoop with
  | false => simp [deliver]
  | true => simp [deliver, Machine.post, Loop.post, hclosed rfl]

inductive StepEffect (m : Machine) : Machine → Prop
  | call {a : Action} {rest : List Action} {below : List Frame} (top : List Frame)
      (hs : m.stack = .script (a :: rest) :: below) (hgo : m.signal = .go) (htop : ∀ f ∈ top, f = .recording a.name) :
      StepEffect m ({ m with stack := top ++ Frame.script rest :: below, signal := .go }.call a)
  | finish {f : Frame} {below : List Frame} (v : Value) (hs : m.stack = f :: below) (hspent : f.isSpent = true) :
      StepEffect m ({ m with stack := below }.finish v)
  | begin {t : Task} {rest : List Task} {taken : Nat} {below : List Frame}
      (hs : m.stack = .round (t :: rest) taken :: below) (hgo : m.signal = .go) :
      StepEffect m ({ m with stack := .round rest (taken + 1) :: below, signal := .go }.begin t)
  | gather {f f' : Frame} {below : List Frame} (hs : m.stack = f :: below) (hf : f.drives = true)
      (hf' : f'.drives = true) (hrunning : f'.isRunning = f.isRunning) :
      StepEffect m ({ m with stack := f' :: below, signal := .go }.beginRound)
  | sleep {onThread : Bool} {below : List Frame} (hs : m.stack = .running onThread :: below)
      (hopen : m.loop.stopped = false) (hempty : m.loop.queue = []) :
      StepEffect m { m with stack := [], signal := .asleep }
  | send {o : Observer} {rest : List Observer} {value : Bytes} {answer : Value} {below : List Frame}
      (hs : m.stack = .telling (o :: rest) value true answer :: below) (hgo : m.signal = .go)
      (hopen : m.loop.stopped = false) :
      StepEffect m ({ m with
        loop := { m.loop with queue := m.loop.queue ++ [Task.tell o value] }
        stack := .telling rest value true answer :: below
        signal := .go } |>.happen (.accepted (.tell o value)))
  | inform {o : Observer} {rest : List Observer} {value : Bytes} {onLoop : Bool} {answer : Value}
      {below : List Frame} (hs : m.stack = .telling (o :: rest) value onLoop answer :: below) (hgo : m.signal = .go)
      (hclosed : onLoop = true → m.loop.stopped = true) (message : Bytes) :
      StepEffect m ({ m with stack := .telling rest value onLoop answer :: below, signal := .go }
        |>.log .warn "Completion" message |>.inform o value)
  | record {action : String} {below : List Frame} {v : Value} (hs : m.stack = .recording action :: below) :
      StepEffect m { m.happen (.nested action v) with stack := below, signal := .go }
  | resume {f : Frame} {below : List Frame} {v : Value} (hs : m.stack = f :: below) (hdone : m.signal = .done v)
      (hf : f.isRecording = false) : StepEffect m ({ m with stack := below }.push f)
  | count {left total : Nat} {below : List Frame} (n : Nat) (hs : m.stack = .rounds left total :: below) :
      StepEffect m ({ m with stack := below }.push (.rounds left (total + n)))
  | contain {rest : List Task} {taken : Nat} {below : List Frame} (hs : m.stack = .round rest taken :: below)
      (message : Bytes) :
      StepEffect m ({ m with stack := below }.log .error "EventLoop" message |>.push (.round rest taken))
  | unwind {f : Frame} {below : List Frame} {text : Bytes} (hs : m.stack = f :: below)
      (hraised : m.signal = .raised text) (hbatch : f.batch = []) : StepEffect m { m with stack := below }

theorem stepEffect_resume {f : Frame} {below : List Frame} (hs : m.stack = f :: below) (hgo : m.signal = .go) :
    StepEffect m ({ m with stack := below }.resume f) := by
  cases f with
  | script rest =>
    cases rest with
    | nil => exact .finish .nothing hs rfl
    | cons a rest =>
      have hrecorded := StepEffect.call [.recording a.name] hs hgo (by simp)
      cases a with
      | note text => exact .call [] hs hgo (by simp)
      | _ => exact hrecorded
  | recording action => exact .finish .nothing hs rfl
  | round rest taken =>
    cases rest with
    | nil => exact .finish (.count taken) hs rfl
    | cons t rest => exact .begin hs hgo
  | rounds left total =>
    simp only [resume]
    split
    next => exact .finish (.count total) hs rfl
    next left =>
      split
      · exact .finish (.count total) hs rfl
      · exact .gather hs rfl rfl rfl
  | running onThread =>
    simp only [resume]
    split
    next => exact .gather hs rfl rfl rfl
    next hopen =>
      split
      next hempty => exact .sleep hs (by simpa using hopen) (by simpa using hempty)
      next => exact .gather hs rfl rfl rfl
  | lastRound onThread => exact .finish .returned hs rfl
  | telling rest value onLoop answer =>
    cases rest with
    | nil => exact .finish answer hs rfl
    | cons o rest =>
      by_cases hlive : onLoop = true ∧ m.loop.stopped = false
      · obtain ⟨rfl, hopen⟩ := hlive
        let u : Machine := { m with stack := below }.push (.telling rest value true answer)
        simp only [resume, deliver_posted (m := u) o value hopen, u]
        exact .send hs hgo hopen
      · have hclosed : onLoop = true → m.loop.stopped = true := by simpa using hlive
        let u : Machine := { m with stack := below }.push (.telling rest value onLoop answer)
        simp only [resume, deliver_inline (m := u) o value hclosed, u]
        exact .inform hs hgo hclosed _

theorem stepEffect_accept {f : Frame} {below : List Frame} {v : Value} (hs : m.stack = f :: below)
    (hdone : m.signal = .done v) : StepEffect m ({ m with stack := below }.accept v f) := by
  cases f with
  | recording action => exact .record hs
  | rounds left total =>
    cases v with
    | count n => exact .count n hs
    | _ => exact .resume hs hdone rfl
  | lastRound onThread => exact .finish .returned hs rfl
  | _ => exact .resume hs hdone rfl

theorem stepEffect_unwind {f : Frame} {below : List Frame} {text : Bytes} (hs : m.stack = f :: below)
    (hraised : m.signal = .raised text) : StepEffect m ({ m with stack := below }.unwind text f) := by
  cases f with
  | round rest taken => exact .contain hs _
  | _ => exact .unwind hs hraised rfl

theorem stepEffect_of_step (h : m.step = some m') : StepEffect m m' := by
  unfold step at h
  split at h
  next => cases h
  next f below hs =>
    dsimp only at h
    split at h
    next hgo => exact Option.some.inj h ▸ stepEffect_resume hs hgo
    next v hdone => exact Option.some.inj h ▸ stepEffect_accept hs hdone
    next text hraised => exact Option.some.inj h ▸ stepEffect_unwind hs hraised
    next => cases h

section Begin

variable (m : Machine) (t : Task)

@[simp] theorem stack_begin : (m.begin t).stack = .script t.script :: m.stack := by cases t <;> rfl

@[simp] theorem signal_begin : (m.begin t).signal = .go := by cases t <;> rfl

@[simp] theorem loop_begin : (m.begin t).loop = m.loop := by cases t <;> rfl

@[simp] theorem cells_begin : (m.begin t).cells = m.cells := by cases t <;> rfl

end Begin

/-! Which frames come and go. -/

/-- What a step puts in the place of the frame on top: nothing, or the frame's successor and what it opened. -/
inductive Becomes (f : Frame) : List Frame → Prop
  | gone : Becomes f []
  | stays {f' : Frame} (top : List Frame) (hrecording : f'.isRecording = false) (hdrives : f'.drives = f.drives)
      (hrunning : f'.isRunning = f.isRunning)
      (htop : ∀ g ∈ top, g.drives = true → ∃ a rest, f = .script (a :: rest) ∧ a.drives = true ∧
        (g.isRunning = true → a.runs = true)) :
      Becomes f (top ++ [f'])

theorem Becomes.single {f f' : Frame} (hrecording : f'.isRecording = false) (hdrives : f'.drives = f.drives)
    (hrunning : f'.isRunning = f.isRunning) : Becomes f [f'] :=
  .stays [] hrecording hdrives hrunning (by simp)

theorem Effect.stack {a : Action} (h : Effect m a m') :
    m'.signal ≠ .asleep ∧ ∃ top : Option Frame, m'.stack = top.toList ++ m.stack ∧
      (top = none → m'.signal.isOver = true) ∧ ∀ g ∈ top, g.isRecording = false ∧
        (g.drives = true → a.drives = true ∧ (g.isRunning = true → a.runs = true)) := by
  cases h with
  | answer | raise | post | stop | create | drop | register => exact ⟨nofun, none, rfl, fun _ => rfl, by simp⟩
  | runPending =>
    refine ⟨nofun, some (.round m.loop.queue 0), rfl, by simp, ?_⟩
    simp [Frame.isRecording, Frame.drives]
  | runUntilIdle rounds =>
    refine ⟨nofun, some (.rounds rounds 0), rfl, by simp, ?_⟩
    simp [Frame.isRecording, Frame.drives, Frame.isRunning, Action.drives]
  | run =>
    refine ⟨nofun, some (.running false), rfl, by simp, ?_⟩
    simp [Frame.isRecording, Action.drives, Action.runs]
  | runOnThread =>
    refine ⟨nofun, some (.running true), rfl, by simp, ?_⟩
    simp [Frame.isRecording, Action.drives, Action.runs]
  | catchUp | fulfil =>
    refine ⟨nofun, some (.telling _ _ _ _), rfl, by simp, ?_⟩
    simp [Frame.isRecording, Frame.drives]

theorem StepEffect.stack (h : StepEffect m m') :
    (m'.signal = .asleep ∧ m'.stack = [] ∧ ∃ onThread below, m.stack = .running onThread :: below) ∨
      m'.signal ≠ .asleep ∧ ∃ f below new, m.stack = f :: below ∧ m'.stack = new ++ below ∧
      Becomes f new ∧ (new = [] → f.isRecording = true ∨ m'.signal.isOver = true) := by
  cases h with
  | sleep hs => exact .inl ⟨rfl, rfl, _, _, hs⟩
  | @call a rest below top hs hgo htop =>
    obtain ⟨hawake, opened, hopened, -, hframes⟩ := (effect_perform _ a).stack
    refine .inr ⟨hawake, _, below, (opened.toList ++ top) ++ [.script rest], hs, ?_, ?_, by simp⟩
    · rw [List.append_assoc, List.append_assoc]
      exact hopened
    · refine .stays (opened.toList ++ top) rfl rfl rfl ?_
      intro g hg hdrives
      rcases List.mem_append.1 hg with hg | hg
      · exact ⟨a, rest, rfl, (hframes g (Option.mem_toList.1 hg)).2 hdrives⟩
      · rw [htop g hg] at hdrives
        cases hdrives
  | finish v hs => exact .inr ⟨nofun, _, _, [], hs, rfl, .gone, fun _ => .inr rfl⟩
  | @begin t rest taken _ hs hgo =>
    refine .inr ⟨?_, _, _, [.script t.script, .round rest (taken + 1)], hs, ?_, ?_, by simp⟩
    · simp
    · simp
    · exact .stays [.script t.script] rfl rfl rfl (by simp [Frame.drives])
  | @gather f f' _ hs hf hf' hrunning =>
    refine .inr ⟨nofun, _, _, [.round m.loop.queue 0, f'], hs, rfl, ?_, by simp⟩
    apply Becomes.stays [.round m.loop.queue 0] _ (hf'.trans hf.symm) hrunning
    · simp [Frame.drives]
    · cases f' <;> first | rfl | cases hf'
  | send hs => exact .inr ⟨nofun, _, _, [.telling _ _ _ _], hs, rfl, .single rfl rfl rfl, by simp⟩
  | @inform o rest value onLoop answer _ hs =>
    refine .inr ⟨nofun, _, _, [.script o.andThen, .telling rest value onLoop answer], hs, rfl, ?_, by simp⟩
    exact .stays [.script o.andThen] rfl rfl rfl (by simp [Frame.drives])
  | record hs => exact .inr ⟨nofun, _, _, [], hs, rfl, .gone, fun _ => .inl rfl⟩
  | @resume f _ _ hs hdone hf => exact .inr ⟨nofun, _, _, [f], hs, rfl, .single hf rfl rfl, by simp⟩
  | @count left total _ n hs =>
    exact .inr ⟨nofun, _, _, [.rounds left (total + n)], hs, rfl, .single rfl rfl rfl, by simp⟩
  | @contain rest taken _ hs =>
    exact .inr ⟨nofun, _, _, [.round rest taken], hs, rfl, .single rfl rfl rfl, by simp⟩
  | unwind hs hraised =>
    refine .inr ⟨?_, _, _, [], hs, rfl, .gone, ?_⟩
    · simp [hraised]
    · simp [hraised, Signal.isOver]

/-! Calls. -/

/-- The machine is at work above these frames. -/
def Within (below : List Frame) (m : Machine) : Prop :=
  ∃ above f, m.stack = above ++ f :: below ∧ f.isRecording = false

def Back (below : List Frame) (m : Machine) : Prop := m.stack = below ∧ m.signal.isOver = true

def Works (below : List Frame) : Machine → Machine → Prop :=
  Relation.ReflTransGen fun u v => u.Within below ∧ u.step = some v

def Returns (below : List Frame) (m m' : Machine) : Prop := m.Works below m' ∧ m'.Back below

variable {below : List Frame}

theorem step_eq_none_iff : m.step = none ↔ m.stack = [] ∨ m.signal = .asleep := by
  unfold step
  cases m.stack with
  | nil => simp
  | cons f below => cases m.signal <;> simp

theorem StepEffect.within (h : StepEffect m m') (hm : m.Within below) :
    m'.Within below ∨ m'.Back below ∨ m'.signal = .asleep := by
  obtain ⟨above, f, hstack, hf⟩ := hm
  obtain ⟨hsleep, -⟩ | ⟨-, g, rest, new, hs, hs', hnew, hover⟩ := h.stack
  · exact .inr (.inr hsleep)
  · cases above with
    | nil =>
      obtain ⟨rfl, rfl⟩ := List.cons.inj (hs.symm.trans hstack)
      cases hnew with
      | gone => exact .inr (.inl ⟨hs', (hover rfl).resolve_left (by simp [hf])⟩)
      | @stays f' top hrecording => exact .inl ⟨top, f', by simpa using hs', hrecording⟩
    | cons g' above =>
      obtain ⟨rfl, rfl⟩ := List.cons.inj (hs.symm.trans hstack)
      exact .inl ⟨new ++ above, f, by simpa using hs', hf⟩

theorem Works.weight_le (h : m.Works below m') : m'.weight ≤ m.weight := by
  induction h with
  | refl => exact Nat.le_refl _
  | tail _ hstep ih => exact Nat.le_trans (Nat.le_of_lt (weight_step_lt hstep.2)) ih

/-- A call comes back, or it waits for ever. -/
theorem Within.returns_or_sleeps (hm : m.Within below) :
    ∃ m', m.Works below m' ∧ (m'.Back below ∨ m'.signal = .asleep) := by
  -- The induction is on the weight of the machine, which every step makes less.
  induction hw : m.weight using Nat.strongRecOn generalizing m with
  | ind w ih =>
    cases hstep : m.step with
    | none =>
      obtain ⟨above, f, hstack, -⟩ := hm
      obtain hempty | hsleep := step_eq_none_iff.1 hstep
      · simp [hstack] at hempty
      · exact ⟨m, .refl, .inr hsleep⟩
    | some u =>
      have hfirst : m.Works below u := .single ⟨hm, hstep⟩
      obtain hu | hover := (stepEffect_of_step hstep).within hm
      · obtain ⟨m', hworks, hend⟩ := ih u.weight (hw ▸ weight_step_lt hstep) hu rfl
        exact ⟨m', hfirst.trans hworks, hend⟩
      · exact ⟨u, hfirst, hover⟩

theorem Works.lower_append {top : List Frame} {f : Frame} (h : m.Works (top ++ f :: below) m')
    (hf : f.isRecording = false) : m.Works below m' := by
  refine Relation.ReflTransGen.mono ?_ _ _ h
  rintro u v ⟨⟨above, g, hstack, -⟩, hstep⟩
  exact ⟨⟨above ++ g :: top, f, by simpa using hstack, hf⟩, hstep⟩

theorem Works.lower {f : Frame} (h : m.Works (f :: below) m') (hf : f.isRecording = false) : m.Works below m' :=
  (show m.Works ([] ++ f :: below) m' from h).lower_append hf

/-! What tasks and observers may do. -/

structure Obeys (p : Action → Bool) (m : Machine) : Prop where
  stack : ∀ f ∈ m.stack, f.Obeys p
  queue : ∀ t ∈ m.loop.queue, Action.everyOf p t.script = true
  cells : ∀ x ∈ m.cells, ∀ o ∈ x.2.completion.observers, Action.everyOf p o.andThen = true

variable {p : Action → Bool}

theorem Obeys.cell {name : Bytes} {c : Cell} (h : m.Obeys p) (hcell : m.cell name = some c) :
    ∀ o ∈ c.completion.observers, Action.everyOf p o.andThen = true := by
  obtain ⟨x, hx, rfl⟩ := Option.map_eq_some_iff.1 hcell
  exact h.cells x (List.mem_of_find?_eq_some hx)

theorem Obeys.same (h : m.Obeys p) (hstack : m'.stack = m.stack) (hqueue : m'.loop.queue = m.loop.queue)
    (hcells : m'.cells = m.cells) : m'.Obeys p := ⟨hstack ▸ h.stack, hqueue ▸ h.queue, hcells ▸ h.cells⟩

theorem Obeys.push {f : Frame} (h : m.Obeys p) (hf : f.Obeys p) : (m.push f).Obeys p :=
  ⟨List.forall_mem_cons.2 ⟨hf, h.stack⟩, h.queue, h.cells⟩

theorem Obeys.enqueue {t : Task} (h : m.Obeys p) (ht : Action.everyOf p t.script = true) :
    ({ m with loop := { m.loop with queue := m.loop.queue ++ [t] } } : Machine).Obeys p := by
  refine ⟨h.stack, ?_, h.cells⟩
  intro t' ht'
  rcases List.mem_append.1 ht' with ht' | ht'
  · exact h.queue t' ht'
  · exact List.mem_singleton.1 ht' ▸ ht

theorem Obeys.remove (h : m.Obeys p) (name : Bytes) : (m.remove name).Obeys p :=
  ⟨h.stack, h.queue, fun x hx => h.cells x ((List.mem_filter.1 hx).1)⟩

theorem Obeys.store {c : Cell} (h : m.Obeys p) (name : Bytes)
    (hc : ∀ o ∈ c.completion.observers, Action.everyOf p o.andThen = true) : (m.store name c).Obeys p :=
  ⟨h.stack, h.queue, List.forall_mem_cons.2 ⟨hc, (h.remove name).cells⟩⟩

theorem Obeys.beginRound (h : m.Obeys p) : m.beginRound.Obeys p :=
  ⟨List.forall_mem_cons.2 ⟨h.queue, h.stack⟩, by simp [Machine.beginRound, Machine.push], h.cells⟩

theorem Effect.obeys {a : Action} (h : Effect m a m') (hm : m.Obeys p) (ha : Action.everyOf p a.inner = true) :
    m'.Obeys p := by
  cases h with
  | answer | raise | stop => exact ⟨hm.stack, hm.queue, hm.cells⟩
  | post task => exact (hm.enqueue (t := .actions task) ha).same rfl rfl rfl
  | runPending => exact hm.beginRound
  | runUntilIdle rounds => exact hm.push (f := .rounds rounds 0) trivial
  | run => exact (hm.push (f := .running false) trivial).same rfl rfl rfl
  | runOnThread => exact (hm.push (f := .running true) trivial).same rfl rfl rfl
  | create name onLoop => exact (hm.store name (c := { onLoop }) (by simp)).same rfl rfl rfl
  | drop name => exact (hm.remove name).same rfl rfl rfl
  | @register name label andThen c hcell =>
    refine (hm.store name (c := ⟨⟨none, c.completion.observers ++ [⟨label, andThen⟩]⟩, c.onLoop⟩) ?_).same rfl rfl rfl
    intro o ho
    rcases List.mem_append.1 ho with ho | ho
    · exact hm.cell hcell o ho
    · exact List.mem_singleton.1 ho ▸ ha
  | catchUp label andThen =>
    apply hm.push
    intro o ho
    exact List.mem_singleton.1 ho ▸ ha
  | @fulfil name value c hcell =>
    exact (hm.store name (c := ⟨⟨some value, []⟩, c.onLoop⟩) (by simp)).push (hm.cell hcell)

theorem Obeys.call {a : Action} (h : m.Obeys p) (ha : Action.everyOf p a.inner = true) : (m.call a).Obeys p :=
  (effect_perform _ a).obeys ⟨h.stack, h.queue, h.cells⟩ ha

theorem StepEffect.obeys (h : StepEffect m m') (hm : m.Obeys p) : m'.Obeys p := by
  have hsplit : ∀ {f : Frame} {below : List Frame}, m.stack = f :: below →
      f.Obeys p ∧ ({ m with stack := below } : Machine).Obeys p := by
    intro f below hs
    have hframes := List.forall_mem_cons.1 (hs ▸ hm.stack)
    exact ⟨hframes.1, hframes.2, hm.queue, hm.cells⟩
  cases h with
  | @call a rest _ top hs hgo htop =>
    obtain ⟨hscript, hbelow⟩ := hsplit hs
    obtain ⟨⟨-, ha⟩, hrest⟩ := Action.everyOf_cons.1 hscript
    apply Obeys.call _ ha
    have hpushed := hbelow.push (f := .script rest) hrest
    refine ⟨?_, hm.queue, hm.cells⟩
    intro f hf
    rcases List.mem_append.1 hf with hf | hf
    · rw [htop f hf]
      trivial
    · exact hpushed.stack f hf
  | finish v hs => exact (hsplit hs).2.same rfl rfl rfl
  | @begin t rest taken _ hs =>
    obtain ⟨hround, hbelow⟩ := hsplit hs
    obtain ⟨ht, hrest⟩ := List.forall_mem_cons.1 hround
    exact ((hbelow.push (f := .round rest (taken + 1)) hrest).push (f := .script t.script) ht).same
      (by simp [Machine.push]) (by simp [Machine.push]) (by simp [Machine.push])
  | @gather f f' _ hs hf hf' =>
    obtain ⟨-, hbelow⟩ := hsplit hs
    apply (hbelow.push (f := f') _).beginRound.same rfl rfl rfl
    cases f' <;> trivial
  | sleep => exact ⟨by simp, hm.queue, hm.cells⟩
  | @send o rest value answer _ hs =>
    obtain ⟨htelling, hbelow⟩ := hsplit hs
    obtain ⟨ho, hrest⟩ := List.forall_mem_cons.1 htelling
    exact ((hbelow.push (f := .telling rest value true answer) hrest).enqueue (t := .tell o value) ho).same rfl rfl rfl
  | @inform o rest value onLoop answer _ hs =>
    obtain ⟨htelling, hbelow⟩ := hsplit hs
    obtain ⟨ho, hrest⟩ := List.forall_mem_cons.1 htelling
    have htold := hbelow.push (f := .telling rest value onLoop answer) hrest
    exact (htold.push (f := .script o.andThen) ho).same rfl rfl rfl
  | record hs => exact (hsplit hs).2.same rfl rfl rfl
  | resume hs => exact (hsplit hs).2.push (hsplit hs).1
  | @count left total _ n hs => exact (hsplit hs).2.push (f := .rounds left (total + n)) trivial
  | @contain rest taken _ hs => exact ((hsplit hs).2.push (f := .round rest taken) (hsplit hs).1).same rfl rfl rfl
  | unwind hs => exact (hsplit hs).2

/-- Nothing above these frames waits for ever: the loop is not run there, and no action that is to come runs it. -/
structure NeverAsleep (below : List Frame) (m : Machine) : Prop where
  obeys : m.Obeys fun a => !a.runs
  frames : ∃ above, m.stack = above ++ below ∧ ∀ f ∈ above, f.isRunning = false
  signal : m.signal ≠ .asleep

/-- Where all actions that are to come meet the condition, no frame of this kind is opened any more. -/
structure Bars (p : Action → Bool) (kind : Frame → Bool) : Prop where
  same : ∀ f f' : Frame, f'.drives = f.drives → f'.isRunning = f.isRunning → kind f' = kind f
  opened : ∀ g : Frame, (g.drives = true → ∃ a : Action, p a = true ∧ a.drives = true ∧
    (g.isRunning = true → a.runs = true)) → kind g = false

theorem bars_running : Bars (fun a => !a.runs) Frame.isRunning where
  same := fun _ _ _ hsame => hsame
  opened := by
    intro g hg
    cases hrunning : g.isRunning with
    | false => rfl
    | true =>
      obtain ⟨a, ha, -, hruns⟩ := hg (Frame.drives_of_isRunning hrunning)
      simp [hruns hrunning] at ha

theorem bars_driving : Bars (fun a => !a.drives) Frame.drives where
  same := fun _ _ hsame _ => hsame
  opened := by
    intro g hg
    cases hdrives : g.drives with
    | false => rfl
    | true =>
      obtain ⟨a, ha, hopens, -⟩ := hg hdrives
      simp [hopens] at ha

theorem Becomes.barred {kind : Frame → Bool} {f : Frame} {new : List Frame} (h : Becomes f new) (hb : Bars p kind)
    (hf : f.Obeys p) : new = [] ∨ ∃ top f', new = top ++ [f'] ∧ kind f' = kind f ∧ ∀ g ∈ top, kind g = false := by
  cases h with
  | gone => exact .inl rfl
  | @stays f' top _ hdrives hrunning htop =>
    refine .inr ⟨top, f', rfl, hb.same f f' hdrives hrunning, ?_⟩
    intro g hg
    apply hb.opened
    intro hopens
    obtain ⟨a, rest, rfl, ha⟩ := htop g hg hopens
    exact ⟨a, (Action.everyOf_cons.1 hf).1.1, ha⟩

theorem Becomes.calm {f : Frame} {new : List Frame} (h : Becomes f new) (hf : f.isRunning = false)
    (hobeys : f.Obeys fun a => !a.runs) : ∀ g ∈ new, g.isRunning = false := by
  obtain rfl | ⟨top, f', rfl, hsame, htop⟩ := h.barred bars_running hobeys
  · simp
  · simpa [hsame, hf, or_imp, forall_and] using htop

theorem StepEffect.neverAsleep (h : StepEffect m m') (hm : m.Within below) (hw : m.NeverAsleep below) :
    m'.NeverAsleep below := by
  obtain ⟨above, hs, hframes⟩ := hw.frames
  have habove : above ≠ [] := by
    rintro rfl
    obtain ⟨above', f', hs', -⟩ := hm
    have hlength := congrArg List.length (hs.symm.trans hs')
    simp at hlength
    omega
  obtain ⟨f, rest, rfl⟩ := List.exists_cons_of_ne_nil habove
  obtain ⟨-, -, onThread, below', hrunning⟩ | ⟨hawake, g, below', new, hg, hs', hnew, -⟩ := h.stack
  · obtain ⟨rfl, -⟩ := List.cons.inj (hs.symm.trans hrunning)
    cases hframes (.running onThread) List.mem_cons_self
  · obtain ⟨rfl, rfl⟩ := List.cons.inj (hs.symm.trans hg)
    obtain ⟨hf, hrest⟩ := List.forall_mem_cons.1 hframes
    have hobeys := hw.obeys.stack f (by simp [hs])
    refine ⟨h.obeys hw.obeys, ⟨new ++ rest, by simpa using hs', ?_⟩, hawake⟩
    exact List.forall_mem_append.2 ⟨hnew.calm hf hobeys, hrest⟩

theorem Works.neverAsleep (h : m.Works below m') (hw : m.NeverAsleep below) : m'.NeverAsleep below := by
  induction h with
  | refl => exact hw
  | tail _ hstep ih => exact (stepEffect_of_step hstep.2).neverAsleep hstep.1 ih

/-- A call that nothing keeps waiting comes back. -/
theorem Within.returns (hm : m.Within below) (hw : m.NeverAsleep below) :
    ∃ m', m.Returns below m' ∧ m'.NeverAsleep below := by
  obtain ⟨m', hworks, hend⟩ := hm.returns_or_sleeps
  have hw' := hworks.neverAsleep hw
  exact ⟨m', ⟨hworks, hend.resolve_right hw'.signal⟩, hw'⟩

/-! What may happen to a loop that someone made. -/

/-- The caller acts, or the machine takes a step. The condition is on what tasks and observers do. -/
inductive Move (p : Action → Bool) (m : Machine) : Machine → Prop
  | act (a : Action) (hs : m.stack = []) (ha : Action.everyOf p a.inner = true) :
      Move p m ({ m with signal := .go }.call a)
  | step {m' : Machine} (h : m.step = some m') : Move p m m'

def Later (p : Action → Bool) : Machine → Machine → Prop := Relation.ReflTransGen (Move p)

def Reached (p : Action → Bool) (m : Machine) : Prop := Later p {} m

theorem Move.obeys (h : Move p m m') (hm : m.Obeys p) : m'.Obeys p := by
  cases h with
  | act a hs ha => exact Obeys.call ⟨hm.stack, hm.queue, hm.cells⟩ ha
  | step h => exact (stepEffect_of_step h).obeys hm

theorem Reached.obeys (h : Reached p m) : m.Obeys p := by
  induction h with
  | refl => exact ⟨by simp, by simp, by simp⟩
  | tail _ hmove ih => exact hmove.obeys ih

theorem Works.later (h : m.Works below m') : Later p m m' := Relation.ReflTransGen.mono (fun _ _ h => .step h.2) _ _ h

inductive Faces (m : Machine) (a : Action) : Machine → Prop
  | caller (hs : m.stack = []) : Faces m a { m with signal := .go }
  | task {rest : List Action} {below : List Frame} (hs : m.stack = .script (a :: rest) :: below)
      (hgo : m.signal = .go) :
      Faces m a { m with stack := .recording a.name :: .script rest :: below }

end Machine

end Multiplex.Loop
