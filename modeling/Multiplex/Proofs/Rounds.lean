import Multiplex.Proofs.Calls

/-! Rounds of a loop. A task goes through its actions until one of them raises an exception. A round takes the tasks
that are queued when it starts and goes through each of them in its turn, however the one before it ended. Rounds follow
one another until the loop is idle, or until it is stopped; then a last one leaves nothing that could be left behind. -/
namespace Multiplex.Loop.Machine

variable {m m' u v : Machine} {below : List Frame} {p : Action → Bool}

def callAbove (m : Machine) (frames : List Frame) (a : Action) : Machine :=
  { m with stack := frames, signal := .go }.call a

/-- A script goes through its actions: each is called in its turn, and has answered before the next one is called, until
one raises an exception or none is left. -/
inductive Script (below : List Frame) : List Action → Machine → Machine → Prop
  | ended {m : Machine} (hs : m.stack = .script [] :: below) (hgo : m.signal = .go) :
      Script below [] m ({ m with stack := below }.finish .nothing)
  | answered {a : Action} {rest : List Action} {top : Option Frame} {value : Value} {m u v m' : Machine}
      (hs : m.stack = .script (a :: rest) :: below) (htop : ∀ f ∈ top, f = .recording a.name)
      (hcall : m.step = some (m.callAbove (top.toList ++ .script rest :: below) a))
      (hone : (m.callAbove (top.toList ++ .script rest :: below) a).Returns (top.toList ++ .script rest :: below) u)
      (hdone : u.signal = .done value) (hnext : u.step = some v) (hrest : Script below rest v m') :
      Script below (a :: rest) m m'
  | raised {a : Action} {rest : List Action} {top : Option Frame} {text : Bytes} {m u : Machine}
      (hs : m.stack = .script (a :: rest) :: below) (htop : ∀ f ∈ top, f = .recording a.name)
      (hcall : m.step = some (m.callAbove (top.toList ++ .script rest :: below) a))
      (hone : (m.callAbove (top.toList ++ .script rest :: below) a).Returns (top.toList ++ .script rest :: below) u)
      (hraised : u.signal = .raised text) : Script below (a :: rest) m { u with stack := below }

/-- A round goes through its tasks: each is begun in its turn, and is over before the next one is begun, whether it
came to its end or raised an exception. -/
inductive Round (below : List Frame) : Nat → List Task → Machine → Machine → Prop
  | ended {taken : Nat} {m : Machine} (hs : m.stack = .round [] taken :: below) (hgo : m.signal = .go) :
      Round below taken [] m ({ m with stack := below }.finish (.count taken))
  | task {taken : Nat} {t : Task} {rest : List Task} {m u v m' : Machine}
      (hs : m.stack = .round (t :: rest) taken :: below) (hgo : m.signal = .go)
      (hone : Script (.round rest (taken + 1) :: below) t.script
        ({ m with stack := below }.push (.round rest (taken + 1)) |>.begin t) u)
      (hnext : u.step = some v) (hrest : Round below (taken + 1) rest v m') :
      Round below taken (t :: rest) m m'

/-- Rounds follow one another, each with the tasks that are queued when it starts, until none is queued or none may
follow. -/
inductive Idling (below : List Frame) : Nat → Nat → List (List Task) → Machine → Machine → Prop
  | ended {left total : Nat} {m : Machine} (hs : m.stack = .rounds left total :: below) (hgo : m.signal = .go)
      (hend : left = 0 ∨ m.loop.queue = []) :
      Idling below left total [] m ({ m with stack := below }.finish (.count total))
  | round {left total : Nat} {batches : List (List Task)} {m u v m' : Machine}
      (hs : m.stack = .rounds (left + 1) total :: below) (hgo : m.signal = .go) (hqueue : m.loop.queue ≠ [])
      (hone : Round (.rounds left total :: below) 0 m.loop.queue
        ({ m with stack := below }.push (.rounds left total) |>.beginRound) u)
      (hnext : u.step = some v) (hrest : Idling below left (total + m.loop.queue.length) batches v m') :
      Idling below (left + 1) total (m.loop.queue :: batches) m m'

theorem within_of_stack {f : Frame} (hs : m.stack = f :: below) (hf : f.isRecording = false) : m.Within below :=
  ⟨[], f, hs, hf⟩

theorem Works.head (hm : m.Within below) (hstep : m.step = some u) (h : u.Works below v) : m.Works below v :=
  Relation.ReflTransGen.head ⟨hm, hstep⟩ h

theorem step_of_go {f : Frame} (hs : m.stack = f :: below) (hgo : m.signal = .go) :
    m.step = some ({ m with stack := below }.resume f) := by
  simp [step, hs, hgo]

theorem step_of_done {f : Frame} {value : Value} (hs : m.stack = f :: below) (hdone : m.signal = .done value) :
    m.step = some ({ m with stack := below }.accept value f) := by
  simp [step, hs, hdone]

theorem step_of_raised {f : Frame} {text : Bytes} (hs : m.stack = f :: below) (hraised : m.signal = .raised text) :
    m.step = some ({ m with stack := below }.unwind text f) := by
  simp [step, hs, hraised]

theorem exists_returns_callAbove {frames : List Frame} {a : Action} (hm : (m.callAbove frames a).Obeys fun a => !a.runs)
    (ha : a.runs = false) : ∃ u, (m.callAbove frames a).Returns frames u ∧ u.Obeys fun a => !a.runs := by
  obtain ⟨hawake, opened, hstack, hover, hframes⟩ :=
    (effect_perform ({ m with stack := frames, signal := .go }.happen (.called a)) a).stack
  cases opened with
  | none => exact ⟨_, ⟨.refl, hstack, hover rfl⟩, hm⟩
  | some f =>
    obtain ⟨hf, hdrives⟩ := hframes f rfl
    have hrunning : f.isRunning = false := by
      cases hrunning : f.isRunning with
      | false => rfl
      | true => exact absurd ((hdrives (Frame.drives_of_isRunning hrunning)).2 hrunning) (by simp [ha])
    have hw : (m.callAbove frames a).NeverAsleep frames := ⟨hm, ⟨[f], hstack, by simpa using hrunning⟩, hawake⟩
    obtain ⟨u, hreturns, hu⟩ := (within_of_stack hstack hf).returns hw
    exact ⟨u, hreturns, hu.obeys⟩

theorem step_script {a : Action} {rest : List Action} (hs : m.stack = .script (a :: rest) :: below)
    (hgo : m.signal = .go) :
    ∃ top : Option Frame, (∀ f ∈ top, f = .recording a.name) ∧
      m.step = some (m.callAbove (top.toList ++ .script rest :: below) a) := by
  rw [step_of_go hs hgo]
  cases a with
  | note text => exact ⟨none, by simp, rfl⟩
  | _ => exact ⟨some (.recording _), by simp [Action.name], rfl⟩

theorem Back.step_script {a : Action} {rest : List Action} {top : Option Frame} {value : Value}
    (h : u.Back (top.toList ++ .script rest :: below)) (htop : ∀ f ∈ top, f = .recording a.name)
    (hdone : u.signal = .done value) : ∃ v, u.step = some v ∧ v.stack = .script rest :: below ∧ v.signal = .go := by
  cases top with
  | none => exact ⟨_, step_of_done h.1 hdone, rfl, rfl⟩
  | some f =>
    obtain rfl := htop f rfl
    exact ⟨_, step_of_done h.1 hdone, rfl, rfl⟩

theorem exists_script {script : List Action} (hs : m.stack = .script script :: below) (hgo : m.signal = .go)
    (hm : m.Obeys fun a => !a.runs) : ∃ m', Script below script m m' ∧ m'.Obeys fun a => !a.runs := by
  induction script generalizing m with
  | nil => exact ⟨_, .ended hs hgo, (stepEffect_of_step (step_of_go hs hgo)).obeys hm⟩
  | cons a rest ih =>
    have hscript : Action.everyOf _ (a :: rest) = true := hm.stack (.script (a :: rest)) (by simp [hs])
    have ha : a.runs = false := by simpa using (Action.everyOf_cons.1 hscript).1.1
    obtain ⟨top, htop, hcall⟩ := step_script hs hgo
    obtain ⟨u, hone, hu⟩ := exists_returns_callAbove ((stepEffect_of_step hcall).obeys hm) ha
    cases hsignal : u.signal with
    | done value =>
      obtain ⟨v, hnext, hv, hgo'⟩ := hone.2.step_script htop hsignal
      obtain ⟨m', hrest, hm'⟩ := ih hv hgo' ((stepEffect_of_step hnext).obeys hu)
      exact ⟨m', .answered hs htop hcall hone hsignal hnext hrest, hm'⟩
    | raised text =>
      have hbelow := (List.forall_mem_append.1 (hone.2.1 ▸ hu.stack)).2
      exact ⟨_, .raised hs htop hcall hone hsignal, (List.forall_mem_cons.1 hbelow).2, hu.queue, hu.cells⟩
    | go | asleep => simpa [hsignal, Signal.isOver] using hone.2.2

namespace Script

variable {script : List Action}

theorem back (h : Script below script m m') : m'.Back below := by
  induction h with
  | ended => exact ⟨rfl, rfl⟩
  | answered _ _ _ _ _ _ _ ih => exact ih
  | raised _ _ _ _ hraised => exact ⟨rfl, by simp [hraised, Signal.isOver]⟩

theorem works (h : Script below script m m') : m.Works below m' := by
  induction h with
  | ended hs hgo => exact .single ⟨within_of_stack hs rfl, step_of_go hs hgo⟩
  | @answered a rest top _ _ _ _ _ hs _ hcall hone _ hnext _ ih =>
    apply Works.head (within_of_stack hs rfl) hcall
    exact (hone.1.lower_append rfl).trans (Works.head ⟨top.toList, _, hone.2.1, rfl⟩ hnext ih)
  | @raised a rest top text _ u hs htop hcall hone hraised =>
    apply Works.head (within_of_stack hs rfl) hcall
    apply (hone.1.lower_append rfl).trans
    cases top with
    | none => exact .single ⟨within_of_stack hone.2.1 rfl, step_of_raised hone.2.1 hraised⟩
    | some f =>
      obtain rfl := htop f rfl
      let v : Machine := { u with stack := .script rest :: below }
      have hlast : v.step = some { u with stack := below } := step_of_raised (m := v) rfl hraised
      apply Works.head ⟨[_], _, hone.2.1, rfl⟩ (step_of_raised hone.2.1 hraised)
      exact .single ⟨within_of_stack (m := v) rfl rfl, hlast⟩

end Script

theorem Back.step_round {rest : List Task} {taken : Nat} (h : u.Back (.round rest taken :: below)) :
    ∃ v, u.step = some v ∧ v.stack = .round rest taken :: below ∧ v.signal = .go := by
  obtain ⟨hs, hover⟩ := h
  cases hsignal : u.signal with
  | done value => exact ⟨_, step_of_done hs hsignal, rfl, rfl⟩
  | raised text => exact ⟨_, step_of_raised hs hsignal, rfl, rfl⟩
  | go | asleep => simp [hsignal, Signal.isOver] at hover

theorem exists_round {ts : List Task} {taken : Nat} (hs : m.stack = .round ts taken :: below) (hgo : m.signal = .go)
    (hm : m.Obeys fun a => !a.runs) : ∃ m', Round below taken ts m m' ∧ m'.Obeys fun a => !a.runs := by
  induction ts generalizing m taken with
  | nil => exact ⟨_, .ended hs hgo, (stepEffect_of_step (step_of_go hs hgo)).obeys hm⟩
  | cons t rest ih =>
    have hbegun := (stepEffect_of_step (step_of_go hs hgo)).obeys hm
    obtain ⟨u, hone, hu⟩ := exists_script (stack_begin _ t) (signal_begin _ t) hbegun
    obtain ⟨v, hnext, hv, hgo'⟩ := hone.back.step_round
    obtain ⟨m', hrest, hm'⟩ := ih hv hgo' ((stepEffect_of_step hnext).obeys hu)
    exact ⟨m', .task hs hgo hone hnext hrest, hm'⟩

theorem Round.answer {ts : List Task} {taken : Nat} (h : Round below taken ts m m') :
    m'.stack = below ∧ m'.signal = .done (.count (taken + ts.length)) := by
  induction h with
  | ended => exact ⟨rfl, rfl⟩
  | task _ _ _ _ _ ih =>
    refine ⟨ih.1, ih.2.trans ?_⟩
    simp only [List.length_cons]
    congr 2
    omega

theorem Round.works {ts : List Task} {taken : Nat} (h : Round below taken ts m m') : m.Works below m' := by
  induction h with
  | ended hs hgo => exact .single ⟨within_of_stack hs rfl, step_of_go hs hgo⟩
  | task hs hgo hone hnext _ ih =>
    apply Works.head (within_of_stack hs rfl) (step_of_go hs hgo)
    apply (hone.works.lower rfl).trans
    exact Works.head (within_of_stack hone.back.1 rfl) hnext ih

theorem exists_beginRound (m : Machine) (hm : m.Obeys fun a => !a.runs) :
    ∃ m', Round m.stack 0 m.loop.queue m.beginRound m' ∧ m'.Obeys fun a => !a.runs :=
  exists_round rfl rfl hm.beginRound

theorem exists_idling {left total : Nat} (hs : m.stack = .rounds left total :: below) (hgo : m.signal = .go)
    (hm : m.Obeys fun a => !a.runs) :
    ∃ batches m', Idling below left total batches m m' ∧ m'.Obeys fun a => !a.runs := by
  induction left generalizing m total with
  | zero => exact ⟨[], _, .ended hs hgo (.inl rfl), ⟨(List.forall_mem_cons.1 (hs ▸ hm.stack)).2, hm.queue, hm.cells⟩⟩
  | succ left ih =>
    have hbelow : ({ m with stack := below } : Machine).Obeys fun a => !a.runs :=
      ⟨(List.forall_mem_cons.1 (hs ▸ hm.stack)).2, hm.queue, hm.cells⟩
    by_cases hqueue : m.loop.queue = []
    · exact ⟨[], _, .ended hs hgo (.inr hqueue), hbelow.same rfl rfl rfl⟩
    · obtain ⟨u, hone, hu⟩ := exists_beginRound _ (hbelow.push (f := .rounds left total) trivial)
      have hanswer : u.signal = .done (.count m.loop.queue.length) := hone.answer.2.trans (by rw [Nat.zero_add]; rfl)
      have hnext := step_of_done hone.answer.1 hanswer
      obtain ⟨batches, m', hrest, hm'⟩ := ih rfl rfl ((stepEffect_of_step hnext).obeys hu)
      exact ⟨_, m', .round hs hgo hqueue hone hnext hrest, hm'⟩

namespace Idling

variable {left total : Nat} {batches : List (List Task)}

theorem answer (h : Idling below left total batches m m') :
    m'.stack = below ∧ m'.signal = .done (.count (total + batches.flatten.length)) := by
  induction h with
  | ended => exact ⟨rfl, rfl⟩
  | round _ _ _ _ _ _ ih =>
    refine ⟨ih.1, ih.2.trans ?_⟩
    simp only [List.flatten_cons, List.length_append]
    congr 2
    omega

theorem works (h : Idling below left total batches m m') : m.Works below m' := by
  induction h with
  | @ended left total m hs hgo hend =>
    have hstep : m.step = some ({ m with stack := below }.finish (.count total)) := by
      rw [step_of_go hs hgo]
      cases left with
      | zero => rfl
      | succ left => simp [resume, hend.resolve_left (Nat.succ_ne_zero left)]
    exact .single ⟨within_of_stack hs rfl, hstep⟩
  | @round left total _ m _ _ _ hs hgo hqueue hone hnext _ ih =>
    have hstep : m.step = some ({ m with stack := below }.push (.rounds left total) |>.beginRound) := by
      rw [step_of_go hs hgo, resume, if_neg]
      simpa using hqueue
    apply Works.head (within_of_stack hs rfl) hstep
    apply (hone.works.lower rfl).trans
    exact Works.head (within_of_stack hone.answer.1 rfl) hnext ih

theorem length_le (h : Idling below left total batches m m') : batches.length ≤ left := by
  induction h with
  | ended => exact Nat.zero_le _
  | round _ _ _ _ _ _ ih => exact Nat.succ_le_succ ih

theorem queue_of_lt (h : Idling below left total batches m m') (hlt : batches.length < left) : m'.loop.queue = [] := by
  induction h with
  | ended _ _ hend => exact hend.resolve_left (by simp at hlt; omega)
  | round _ _ _ _ _ _ ih => exact ih (Nat.lt_of_succ_lt_succ hlt)

theorem ne_nil (h : Idling below left total batches m m') : ∀ ts ∈ batches, ts ≠ [] := by
  induction h with
  | ended => simp
  | round _ _ hqueue _ _ _ ih => exact List.forall_mem_cons.2 ⟨hqueue, ih⟩

end Idling

/-! The end of a loop. -/

structure Closed (m : Machine) : Prop where
  stopped : m.loop.stopped = true
  queue : m.loop.queue = []

theorem Effect.stopped {a : Action} (h : Effect m a m') (hm : m.loop.stopped = true) :
    m'.loop.stopped = true ∧ (m.loop.queue = [] → m'.loop.queue = []) := by
  cases h with
  | post task hopen => simp [hm] at hopen
  | stop => exact ⟨rfl, id⟩
  | runPending => exact ⟨hm, fun _ => rfl⟩
  | _ => exact ⟨hm, id⟩

theorem StepEffect.stopped (h : StepEffect m m') (hm : m.loop.stopped = true) :
    m'.loop.stopped = true ∧ (m.loop.queue = [] → m'.loop.queue = []) := by
  cases h with
  | call => exact (effect_perform _ _).stopped hm
  | begin => simpa using hm
  | gather => exact ⟨hm, fun _ => rfl⟩
  | send _ _ hopen => simp [hm] at hopen
  | _ => exact ⟨hm, id⟩

theorem Move.stopped (h : Move p m m') (hm : m.loop.stopped = true) :
    m'.loop.stopped = true ∧ (m.loop.queue = [] → m'.loop.queue = []) := by
  cases h with
  | act a => exact (effect_perform _ a).stopped hm
  | step h => exact (stepEffect_of_step h).stopped hm

theorem Move.live (h : Move p m m') (hopen : m'.loop.stopped = false) : m.loop.stopped = false := by
  cases hstopped : m.loop.stopped with
  | false => rfl
  | true => exact absurd (h.stopped hstopped).1 (by simp [hopen])

theorem Later.stopped (h : Later p m m') (hm : m.loop.stopped = true) : m'.loop.stopped = true := by
  induction h with
  | refl => exact hm
  | tail _ hmove ih => exact (hmove.stopped ih).1

theorem Later.closed (h : Later p m m') (hm : m.Closed) : m'.Closed := by
  induction h with
  | refl => exact hm
  | tail _ hmove ih => exact ⟨(hmove.stopped ih.stopped).1, (hmove.stopped ih.stopped).2 ih.queue⟩

/-- A loop that is run either waits for a task with none there, or is stopped and returns with nothing left behind. -/
theorem exists_running {onThread : Bool} (hs : m.stack = .running onThread :: below) (hgo : m.signal = .go)
    (hm : m.Obeys fun a => !a.runs) :
    ∃ m', m.Works below m' ∧ ((m'.signal = .asleep ∧ m'.loop.stopped = false ∧ m'.loop.queue = []) ∨
      (m'.stack = below ∧ m'.signal = .done .returned ∧ m'.Closed)) := by
  -- The induction is on the weight: a round that takes something makes the machine lighter.
  induction hw : m.weight using Nat.strongRecOn generalizing m with
  | ind w ih =>
    have hwithin : m.Within below := within_of_stack hs rfl
    have hstep := step_of_go hs hgo
    have hbelow : ({ m with stack := below } : Machine).Obeys fun a => !a.runs :=
      ⟨(List.forall_mem_cons.1 (hs ▸ hm.stack)).2, hm.queue, hm.cells⟩
    by_cases hstopped : m.loop.stopped = true
    · rw [resume, if_pos hstopped] at hstep
      obtain ⟨u, hone, hu⟩ := exists_beginRound _ (hbelow.push (f := .lastRound onThread) trivial)
      have hnext := step_of_done hone.answer.1 hone.answer.2
      have hclosed : u.Closed := (hone.works.later (p := fun _ => true)).closed ⟨hstopped, rfl⟩
      refine ⟨_, (Works.head hwithin hstep (hone.works.lower rfl)).tail ⟨within_of_stack hone.answer.1 rfl, hnext⟩,
        .inr ⟨rfl, rfl, ?_⟩⟩
      exact ⟨hclosed.stopped, hclosed.queue⟩
    · by_cases hqueue : m.loop.queue = []
      · rw [resume, if_neg hstopped, if_pos (by simpa using hqueue)] at hstep
        exact ⟨_, .single ⟨hwithin, hstep⟩, .inl ⟨rfl, by simpa using hstopped, hqueue⟩⟩
      · rw [resume, if_neg hstopped, if_neg (by simpa using hqueue)] at hstep
        obtain ⟨u, hone, hu⟩ := exists_beginRound _ (hbelow.push (f := .running onThread) trivial)
        have hnext := step_of_done hone.answer.1 hone.answer.2
        have hworks := (hone.works.lower rfl).tail ⟨within_of_stack hone.answer.1 rfl, hnext⟩
        have hlt := Nat.lt_of_le_of_lt (Works.weight_le hworks) (weight_step_lt hstep)
        obtain ⟨m', hrest, hend⟩ := ih _ (hw ▸ hlt) rfl rfl ((stepEffect_of_step hnext).obeys hu) rfl
        exact ⟨m', Works.head hwithin hstep (hworks.trans hrest), hend⟩

end Multiplex.Loop.Machine
