import Multiplex.Proofs.Rounds

/-! The tasks of a loop, counted. What the loop took is what it has begun and what still waits, in a round or in the
queue; so nothing is lost and nothing is begun twice. Where only the caller drives the loop, tasks are begun in the
order in which they were posted. -/
namespace Multiplex.Loop

def Happening.taken : Happening → Option Task
  | .accepted t => some t
  | _ => none

def Happening.start : Happening → Option Task
  | .began t => some t
  | _ => none

theorem Happening.Tacit.taken {e : Happening} (h : e.Tacit) : e.taken = none := by
  cases e <;> first | rfl | cases h

theorem Happening.Tacit.start {e : Happening} (h : e.Tacit) : e.start = none := by
  cases e <;> first | rfl | cases h

namespace Machine

variable {m m' u : Machine} {p : Action → Bool} {kind : Frame → Bool}

def accepted (m : Machine) : List Task := m.history.reverse.filterMap Happening.taken

def begun (m : Machine) : List Task := m.history.reverse.filterMap Happening.start

@[simp] theorem accepted_happen (m : Machine) (e : Happening) :
    (m.happen e).accepted = m.accepted ++ e.taken.toList := by
  cases e <;> simp [accepted, happen, Happening.taken]

@[simp] theorem begun_happen (m : Machine) (e : Happening) : (m.happen e).begun = m.begun ++ e.start.toList := by
  cases e <;> simp [begun, happen, Happening.start]

def inRounds (m : Machine) : List Task := m.stack.flatMap Frame.batch

def waiting (m : Machine) : List Task := m.inRounds ++ m.loop.queue

structure Level (m m' : Machine) : Prop where
  accepted : m'.accepted = m.accepted
  begun : m'.begun = m.begun
  inRounds : m'.inRounds = m.inRounds
  queue : m'.loop.queue = m.loop.queue

/-- What the loop has taken in addition has been begun, or waits behind all that was there. -/
def Flows (m m' : Machine) : Prop :=
  ∃ new, m'.accepted = m.accepted ++ new ∧ m'.begun ++ m'.waiting = m.begun ++ m.waiting ++ new

structure Gathers (m m' : Machine) : Prop where
  accepted : m'.accepted = m.accepted
  begun : m'.begun = m.begun
  inRounds : m'.inRounds = m.loop.queue ++ m.inRounds
  queue : m'.loop.queue = []

theorem Level.flows (h : Level m m') : Flows m m' :=
  ⟨[], by simp [h.accepted], by simp [h.begun, waiting, h.inRounds, h.queue]⟩

theorem Flows.after {u : Machine} (h : Flows u m') (hl : Level m u) : Flows m m' := by
  obtain ⟨new, haccepted, hbegun⟩ := h
  refine ⟨new, hl.accepted ▸ haccepted, ?_⟩
  rw [hbegun, hl.begun, waiting, waiting, hl.inRounds, hl.queue]

theorem Gathers.after {u : Machine} (h : Gathers u m') (hl : Level m u) : Gathers m m' :=
  ⟨h.accepted.trans hl.accepted, h.begun.trans hl.begun, by rw [h.inRounds, hl.queue, hl.inRounds], h.queue⟩

theorem inRounds_of_stack {f : Frame} {below : List Frame} (hs : m.stack = f :: below) :
    m.inRounds = f.batch ++ below.flatMap Frame.batch := by
  rw [inRounds, hs, List.flatMap_cons]

theorem filterMap_reverse_append {α β : Type} {f : α → Option β} {new : List α} (hnew : ∀ e ∈ new, f e = none)
    (l : List α) : (new ++ l).reverse.filterMap f = l.reverse.filterMap f := by
  have hnil : new.reverse.filterMap f = [] := List.filterMap_eq_nil_iff.2 fun e he => hnew e (List.mem_reverse.1 he)
  rw [List.reverse_append, List.filterMap_append, hnil, List.append_nil]

theorem Level.of_history (new : List Happening) (hhistory : m'.history = new ++ m.history)
    (hnew : ∀ e ∈ new, e.taken = none ∧ e.start = none) (hrounds : m'.inRounds = m.inRounds)
    (hqueue : m'.loop.queue = m.loop.queue) : Level m m' := by
  refine ⟨?_, ?_, hrounds, hqueue⟩
  · rw [Machine.accepted, hhistory]
    exact filterMap_reverse_append (fun e he => (hnew e he).1) m.history
  · rw [Machine.begun, hhistory]
    exact filterMap_reverse_append (fun e he => (hnew e he).2) m.history

theorem Effect.flows {a : Action} (h : Effect m a m') : Flows m m' ∨ a.drives = true ∧ Gathers m m' := by
  cases h with
  | answer v new ha hnew =>
    exact .inl (Level.flows (.of_history new rfl (fun e he => ⟨(hnew e he).taken, (hnew e he).start⟩) rfl rfl))
  | raise | stop | create | drop | register | runUntilIdle | run | runOnThread | catchUp | fulfil =>
    exact .inl (Level.flows (.mk rfl rfl rfl rfl))
  | post task =>
    refine .inl ⟨[.actions task], ?_, ?_⟩
    · simp [accepted, finish, happen, Happening.taken]
    · simp [begun, waiting, inRounds, finish, happen, Happening.start]
  | runPending => exact .inr ⟨rfl, rfl, rfl, rfl, rfl⟩

theorem begun_begin (m : Machine) (t : Task) : (m.begin t).begun = m.begun ++ [t] := by
  cases t <;> simp [begin, inform, begun, happen, push, Happening.start]

theorem accepted_begin (m : Machine) (t : Task) : (m.begin t).accepted = m.accepted := by
  cases t <;> simp [begin, inform, accepted, happen, push, Happening.taken]

theorem Effect.begun_eq {a : Action} (h : Effect m a m') : m'.begun = m.begun := by
  cases h with
  | answer v new ha hnew => exact filterMap_reverse_append (fun e he => (hnew e he).start) m.history
  | post task =>
    have hnew : ∀ e ∈ [Happening.accepted (.actions task)], e.start = none := by simp [Happening.start]
    exact filterMap_reverse_append hnew m.history
  | _ => rfl

theorem begun_called (m : Machine) (a : Action) : (m.happen (.called a)).begun = m.begun :=
  (begun_happen m _).trans (List.append_nil _)

theorem StepEffect.begun_cases (h : StepEffect m m') : m'.begun = m.begun ∨ ∃ t rest taken below,
    m.stack = .round (t :: rest) taken :: below ∧ m.signal = .go ∧
      m' = ({ m with stack := .round rest (taken + 1) :: below, signal := .go }.begin t) := by
  have hnone : ∀ new : List Happening, (∀ e ∈ new, e.start = none) →
      (new ++ m.history).reverse.filterMap Happening.start = m.begun :=
    fun new hnew => filterMap_reverse_append hnew m.history
  cases h with
  | call top hs hgo htop => exact .inl ((effect_perform _ _).begun_eq.trans (begun_called _ _))
  | begin hs hgo => exact .inr ⟨_, _, _, _, hs, hgo, rfl⟩
  | @send o _ value => exact .inl (hnone [.accepted (.tell o value)] (by simp [Happening.start]))
  | @inform o _ value => exact .inl (hnone [.told o.label value, .log _] (by simp [Happening.start]))
  | @record action _ v => exact .inl (hnone [.nested action v] (by simp [Happening.start]))
  | contain => exact .inl (hnone [.log _] (by simp [Happening.start]))
  | _ => exact .inl rfl

theorem StepEffect.flows (h : StepEffect m m') :
    Flows m m' ∨
    (Gathers m m' ∧ ∃ f below, m.stack = f :: below ∧
      (f.drives = true ∨ ∃ a rest, f = .script (a :: rest) ∧ a.drives = true)) ∨
    (∃ onThread below, m.stack = .running onThread :: below ∧ m' = { m with stack := [], signal := .asleep }) := by
  cases h with
  | @call a rest below top hs hgo htop =>
    have hbatch : top.flatMap Frame.batch = [] := by
      rw [List.flatMap_eq_nil_iff]
      intro f hf
      rw [htop f hf]
      rfl
    have hrounds : (top ++ Frame.script rest :: below).flatMap Frame.batch = m.inRounds := by
      rw [inRounds_of_stack hs, List.flatMap_append, hbatch]
      rfl
    have hlevel : Level m ({ m with stack := top ++ Frame.script rest :: below, signal := .go }.happen (.called a)) :=
      .of_history [.called a] rfl (by simp [Happening.taken, Happening.start]) hrounds rfl
    obtain hflows | ⟨hdrives, hgathers⟩ := (effect_perform _ a).flows
    · exact .inl (hflows.after hlevel)
    · exact .inr (.inl ⟨hgathers.after hlevel, _, _, hs, .inr ⟨a, rest, rfl, hdrives⟩⟩)
  | finish v hs hspent =>
    refine .inl (Level.flows (.mk rfl rfl ?_ rfl))
    rw [inRounds_of_stack hs, Frame.batch_of_isSpent hspent]
    rfl
  | @begin t rest taken below hs hgo =>
    refine .inl ⟨[], ?_, ?_⟩
    · rw [accepted_begin, List.append_nil]
      rfl
    · rw [begun_begin, waiting, waiting, inRounds_of_stack hs, inRounds_of_stack (stack_begin _ t)]
      simp [begun, Frame.batch]
  | @gather f f' below hs hf hf' =>
    refine .inr (.inl ⟨⟨rfl, rfl, ?_, rfl⟩, _, _, hs, .inl hf⟩)
    rw [inRounds_of_stack hs, Frame.batch_of_drives hf]
    show m.loop.queue ++ (f'.batch ++ below.flatMap Frame.batch) = _
    rw [Frame.batch_of_drives hf']
  | sleep hs => exact .inr (.inr ⟨_, _, hs, rfl⟩)
  | @send o rest value answer below hs =>
    refine .inl ⟨[.tell o value], ?_, ?_⟩
    · simp [accepted, happen, Happening.taken]
    · rw [waiting, waiting, inRounds_of_stack hs]
      simp [begun, inRounds, happen, Frame.batch, Happening.start]
  | @inform o rest value onLoop answer below hs hgo hclosed message =>
    refine .inl (Level.flows (.of_history [.told o.label value, .log _] rfl ?_ ?_ rfl))
    · simp [Happening.taken, Happening.start]
    · rw [inRounds_of_stack hs]
      rfl
  | @record action below v hs =>
    refine .inl (Level.flows (.of_history [.nested action v] rfl ?_ ?_ rfl))
    · simp [Happening.taken, Happening.start]
    · rw [inRounds_of_stack hs]
      rfl
  | resume hs =>
    refine .inl (Level.flows (.mk rfl rfl ?_ rfl))
    rw [inRounds_of_stack hs]
    rfl
  | count n hs =>
    refine .inl (Level.flows (.mk rfl rfl ?_ rfl))
    rw [inRounds_of_stack hs]
    rfl
  | contain hs message =>
    refine .inl (Level.flows (.of_history [.log _] rfl ?_ ?_ rfl))
    · simp [Happening.taken, Happening.start]
    · rw [inRounds_of_stack hs]
      rfl
  | unwind hs hraised hbatch =>
    refine .inl (Level.flows (.mk rfl rfl ?_ rfl))
    rw [inRounds_of_stack hs, hbatch]
    rfl

def Clear (kind : Frame → Bool) (m : Machine) : Prop := m.stack.Pairwise fun f g => kind f = true → g.batch = []

theorem Clear.inRounds {f : Frame} {below : List Frame} (hc : m.Clear kind) (hs : m.stack = f :: below)
    (hf : kind f = true) (hbatch : f.batch = []) : m.inRounds = [] := by
  rw [inRounds_of_stack hs, hbatch, List.nil_append, List.flatMap_eq_nil_iff]
  intro g hg
  rw [Clear, hs, List.pairwise_cons] at hc
  exact hc.1 g hg hf

theorem StepEffect.clear (h : StepEffect m m') (hb : Bars p kind) (hm : m.Obeys p) (hc : m.Clear kind) :
    m'.Clear kind := by
  obtain ⟨-, hs, -⟩ | ⟨-, f, below, new, hs, hs', hnew, -⟩ := h.stack
  · rw [Clear, hs]
    exact .nil
  · rw [Clear, hs, List.pairwise_cons] at hc
    obtain rfl | ⟨top, f', rfl, hkind, htop⟩ := hnew.barred hb (hm.stack f (by simp [hs]))
    · rw [Clear, hs']
      exact hc.2
    · rw [Clear, hs', List.append_assoc, List.pairwise_append]
      refine ⟨?_, List.pairwise_cons.2 ⟨fun g hg hf' => hc.1 g hg (hkind ▸ hf'), hc.2⟩, ?_⟩
      · exact List.pairwise_of_forall_mem_list fun g hg _ _ hopen => by simp [htop g hg] at hopen
      · exact fun g hg _ _ hopen => by simp [htop g hg] at hopen

theorem Reached.clear (h : Reached p m) (hb : Bars p kind) : m.Clear kind := by
  induction h with
  | refl => exact .nil
  | @tail m m' hreached hmove ih =>
    cases hmove with
    | act a hs ha =>
      obtain ⟨-, top, htop, -⟩ := (effect_perform ({ m with signal := .go }.happen (.called a)) a).stack
      have hstack : ({ m with signal := .go }.call a).stack = top.toList ++ m.stack := htop
      rw [Clear, hstack, hs]
      cases top with
      | none => exact .nil
      | some g => exact List.pairwise_singleton _ g
    | step h => exact (stepEffect_of_step h).clear hb (Reached.obeys hreached) ih

theorem Level.act (a : Action) : Level m ({ m with signal := .go }.happen (.called a)) :=
  .of_history [.called a] rfl (by simp [Happening.taken, Happening.start]) rfl rfl

theorem Move.flows (h : Move (fun a => !a.runs) m m') (hc : m.Clear Frame.isRunning) : Flows m m' ∨ Gathers m m' := by
  cases h with
  | act a hs ha =>
    obtain hflows | ⟨-, hgathers⟩ := (effect_perform _ a).flows
    · exact .inl (hflows.after (.act a))
    · exact .inr (hgathers.after (.act a))
  | step h =>
    obtain hflows | ⟨hgathers, -⟩ | ⟨onThread, below, hs, rfl⟩ := (stepEffect_of_step h).flows
    · exact .inl hflows
    · exact .inr hgathers
    · exact .inl (Level.flows (.mk rfl rfl (hc.inRounds hs rfl rfl).symm rfl))

/-- Where no task drives the loop, the queue comes into a round only when no other is at work. -/
theorem Move.flows_of_driven (h : Move (fun a => !a.drives) m m') (hm : m.Obeys fun a => !a.drives)
    (hc : m.Clear Frame.drives) : Flows m m' := by
  have hgather : ∀ {u}, Gathers u m' → u.inRounds = [] → Flows u m' := by
    intro u hu hnone
    refine ⟨[], by simp [hu.accepted], ?_⟩
    simp [waiting, hu.begun, hu.inRounds, hu.queue, hnone]
  cases h with
  | act a hs ha =>
    obtain hflows | ⟨-, hgathers⟩ := (effect_perform _ a).flows
    · exact hflows.after (.act a)
    · apply (hgather hgathers _).after (.act a)
      simp [inRounds, happen, hs]
  | step h =>
    obtain hflows | ⟨hgathers, f, below, hs, hdrives | ⟨a, rest, rfl, hdrives⟩⟩ | ⟨onThread, below, hs, rfl⟩ :=
      (stepEffect_of_step h).flows
    · exact hflows
    · exact hgather hgathers (hc.inRounds hs hdrives (Frame.batch_of_drives hdrives))
    · have hscript : Action.everyOf _ (a :: rest) = true := hm.stack (.script (a :: rest)) (by simp [hs])
      simpa [hdrives] using (Action.everyOf_cons.1 hscript).1.1
    · exact Level.flows (.mk rfl rfl (hc.inRounds hs rfl rfl).symm rfl)

theorem Move.begins (h : Move (fun a => !a.runs) m u) (hm : m.Obeys fun a => !a.runs) :
    u.begun = m.begun ∨ ∃ t rest taken below m', m.stack = .round (t :: rest) taken :: below ∧
      u.begun = m.begun ++ [t] ∧ Script (.round rest (taken + 1) :: below) t.script u m' ∧
      u.Works (.round rest (taken + 1) :: below) m' := by
  cases h with
  | act a => exact .inl ((effect_perform _ a).begun_eq.trans (begun_called _ a))
  | step hstep =>
    have hu := (stepEffect_of_step hstep).obeys hm
    obtain hsame | ⟨t, rest, taken, below, hs, -, rfl⟩ := (stepEffect_of_step hstep).begun_cases
    · exact .inl hsame
    · obtain ⟨m', hscript, -⟩ := exists_script (stack_begin _ t) (signal_begin _ t) hu
      exact .inr ⟨t, rest, taken, below, m', hs, begun_begin _ t, hscript, hscript.works⟩

/-- Nothing is lost and nothing is begun twice. -/
theorem Reached.kept (h : Reached (fun a => !a.runs) m) : (m.begun ++ m.waiting).Perm m.accepted := by
  induction h with
  | refl => exact .nil
  | @tail m m' hreached hmove ih =>
    obtain ⟨new, haccepted, hbegun⟩ | hgathers := hmove.flows (Reached.clear hreached bars_running)
    · rw [haccepted, hbegun]
      exact ih.append_right new
    -- The queue comes before what rounds at work have left, so here only the order is lost.
    · rw [hgathers.accepted, hgathers.begun, waiting, hgathers.inRounds, hgathers.queue, List.append_nil]
      exact (List.perm_append_comm.append_left m.begun).trans ih

/-- Tasks are begun in the order in which they were posted. -/
theorem Reached.inOrder (h : Reached (fun a => !a.drives) m) : m.begun ++ m.waiting = m.accepted := by
  induction h with
  | refl => rfl
  | @tail m m' hreached hmove ih =>
    -- No task drives the loop, so no round begins above another one.
    obtain ⟨new, haccepted, hbegun⟩ := hmove.flows_of_driven (Reached.obeys hreached)
      (Reached.clear hreached bars_driving)
    rw [haccepted, hbegun, ih]

theorem later_runFor (n : Nat) (m : Machine) : Later p m (m.runFor n) := by
  induction n generalizing m with
  | zero => exact .refl
  | succ n ih =>
    unfold runFor
    split
    next => exact .refl
    next u hstep => exact .head (.step hstep) (ih u)

def act (m : Machine) (a : Action) : Machine := ({ m with signal := .go }.call a).settle

theorem Reached.act {a : Action} (h : Reached p m) (hs : m.stack = []) (ha : Action.everyOf p a.inner = true) :
    Reached p (m.act a) :=
  (Relation.ReflTransGen.tail h (.act a hs ha)).trans (later_runFor _ _)

theorem Faces.level {a : Action} {c : Machine} (h : m.Faces a c) : Level m (c.happen (.called a)) := by
  refine .of_history [.called a] ?_ (by simp [Happening.taken, Happening.start]) ?_ ?_
  · cases h <;> rfl
  · cases h with
    | caller hs => rfl
    | task hs hgo =>
      rw [inRounds_of_stack hs]
      rfl
  · cases h <;> rfl

theorem Faces.obeys {a : Action} {c : Machine} (h : m.Faces a c) (hm : m.Obeys p) : (c.happen (.called a)).Obeys p := by
  cases h with
  | caller hs => exact ⟨hm.stack, hm.queue, hm.cells⟩
  | @task rest below hs hgo =>
    obtain ⟨hscript, hbelow⟩ := List.forall_mem_cons.1 (hs ▸ hm.stack)
    refine ⟨?_, hm.queue, hm.cells⟩
    apply List.forall_mem_cons.2 ⟨trivial, List.forall_mem_cons.2 ⟨?_, hbelow⟩⟩
    exact (Action.everyOf_cons.1 hscript).2

theorem Faces.loop {a : Action} {c : Machine} (h : m.Faces a c) : c.loop = m.loop := by cases h <;> rfl

theorem Faces.post {task : List Action} {c : Machine} (h : m.Faces (.post task) c) :
    (c.call (.post task)).stack = c.stack ∧ (c.call (.post task)).begun = m.begun ∧
      (c.call (.post task)).signal = .done (.flag !m.loop.stopped) ∧
      (c.call (.post task)).accepted = m.accepted ++ if m.loop.stopped then [] else [.actions task] := by
  have haccepted : (c.happen (.called (.post task))).accepted = m.accepted := h.level.accepted
  have hbegun : (c.happen (.called (.post task))).begun = m.begun := h.level.begun
  cases hstopped : m.loop.stopped with
  | true =>
    have hcall : c.call (.post task) = (c.happen (.called (.post task))).finish (.flag false) := by
      simp [call, perform, Machine.post, Loop.post, happen, h.loop, hstopped]
    rw [hcall]
    exact ⟨rfl, hbegun, rfl, haccepted.trans (by simp)⟩
  | false =>
    let u := c.happen (.called (.post task))
    have hcall : c.call (.post task) =
        ({ u with loop := { c.loop with queue := c.loop.queue ++ [Task.actions task] } }
          |>.happen (.accepted (.actions task)) |>.finish (.flag true)) := by
      simp [u, call, perform, Machine.post, Loop.post, happen, h.loop, hstopped]
    rw [hcall]
    refine ⟨rfl, ?_, rfl, ?_⟩
    · exact (begun_happen _ _).trans ((List.append_nil _).trans hbegun)
    · exact (accepted_happen _ _).trans (congrArg (· ++ [Task.actions task]) haccepted)

theorem Closed.refuses {task : List Action} {c : Machine} (hm : m.Closed) (h : m.Faces (.post task) c) :
    (c.call (.post task)).signal = .done (.flag false) := by
  rw [h.post.2.2.1, hm.stopped]
  rfl

/-- A loop whose tasks do not run it loses and repeats nothing. What it took has been begun or waits, and when no call
is under way and the queue is empty it has all been begun. A task that is begun goes through its actions, to the end or
to the first that raises an exception. A call that posts begins no task. A round goes through all its tasks, however
they end, and takes what is queued when it starts. Rounds until the loop is idle are as many as
allowed, or leave the queue empty. A loop that was run to its end has no task left, and takes none any more. If no task
drives the loop either, the tasks are begun in the order in which they were posted. -/
theorem every_task_once (h : Reached (fun a => !a.runs) m) :
    (m.begun ++ m.waiting).Perm m.accepted ∧
    (m.stack = [] → m.loop.queue = [] → m.begun.Perm m.accepted) ∧
    (∀ u, Move (fun a => !a.runs) m u → u.begun = m.begun ∨
      ∃ t rest taken below m', m.stack = .round (t :: rest) taken :: below ∧ u.begun = m.begun ++ [t] ∧
        Script (.round rest (taken + 1) :: below) t.script u m' ∧ u.Works (.round rest (taken + 1) :: below) m') ∧
    (∀ task c, m.Faces (.post task) c →
      (c.call (.post task)).stack = c.stack ∧ (c.call (.post task)).begun = m.begun ∧
      (c.call (.post task)).signal = .done (.flag !m.loop.stopped) ∧
      (c.call (.post task)).accepted = m.accepted ++ if m.loop.stopped then [] else [.actions task]) ∧
    (∀ below taken ts, m.stack = .round ts taken :: below → m.signal = .go →
      ∃ m', Round below taken ts m m' ∧ m.Works below m') ∧
    (∀ c, m.Faces .runPending c →
      ∃ m', Round c.stack 0 m.loop.queue (c.call .runPending) m' ∧ (c.call .runPending).Works c.stack m' ∧
        m'.stack = c.stack ∧ m'.signal = .done (.count m.loop.queue.length)) ∧
    (∀ rounds c, m.Faces (.runUntilIdle rounds) c →
      ∃ batches m', Idling c.stack rounds 0 batches (c.call (.runUntilIdle rounds)) m' ∧
        (c.call (.runUntilIdle rounds)).Works c.stack m' ∧
        m'.stack = c.stack ∧ m'.signal = .done (.count batches.flatten.length) ∧
        batches.length ≤ rounds ∧ (∀ ts ∈ batches, ts ≠ []) ∧ (batches.length < rounds → m'.loop.queue = [])) ∧
    (∀ c, m.Faces .run c → ∃ m', (c.call .run).Works c.stack m' ∧
      ((m'.signal = .asleep ∧ m'.loop.stopped = false ∧ m'.loop.queue = []) ∨
        (m'.stack = c.stack ∧ m'.signal = .done .returned ∧ m'.loop.stopped = true ∧ m'.loop.queue = [] ∧
          ∀ p u, Later p m' u → u.loop.queue = [] ∧
            ∀ task c, u.Faces (.post task) c → (c.call (.post task)).signal = .done (.flag false)))) ∧
    (Reached (fun a => !a.drives) m → m.begun ++ m.waiting = m.accepted) := by
  have hkept := h.kept
  refine ⟨hkept, ?_, fun _ hmove => hmove.begins h.obeys, fun _ _ hc => hc.post, ?_, ?_, ?_, ?_,
    fun hdriven => hdriven.inOrder⟩
  · intro hs hqueue
    simpa [waiting, inRounds, hs, hqueue] using hkept
  · intro below taken ts hs hgo
    obtain ⟨m', hround, -⟩ := exists_round hs hgo h.obeys
    exact ⟨m', hround, hround.works⟩
  · intro c hc
    obtain ⟨m', hround, -⟩ := exists_beginRound _ (hc.obeys h.obeys)
    rw [← hc.loop]
    refine ⟨m', hround, hround.works, hround.answer.1, hround.answer.2.trans ?_⟩
    rw [Nat.zero_add]
    rfl
  · intro rounds c hc
    have hstack : (c.call (.runUntilIdle rounds)).stack = .rounds rounds 0 :: c.stack := rfl
    obtain ⟨batches, m', hidling, -⟩ := exists_idling hstack rfl
      ((hc.obeys h.obeys).push (f := .rounds rounds 0) trivial)
    have hanswer := hidling.answer
    rw [Nat.zero_add] at hanswer
    exact ⟨batches, m', hidling, hidling.works, hanswer.1, hanswer.2, hidling.length_le, hidling.ne_nil,
      hidling.queue_of_lt⟩
  · intro c hc
    have hobeys : (c.call .run).Obeys fun a => !a.runs :=
      ((hc.obeys h.obeys).push (f := .running false) trivial).same rfl rfl rfl
    obtain ⟨m', hworks, hsleeps | ⟨hs, hreturned, hclosed⟩⟩ := exists_running (m := c.call .run) rfl rfl hobeys
    · exact ⟨m', hworks, .inl hsleeps⟩
    · refine ⟨m', hworks, .inr ⟨hs, hreturned, hclosed.stopped, hclosed.queue, fun p u hlater => ?_⟩⟩
      have hu := Later.closed hlater hclosed
      exact ⟨hu.queue, fun task c hc => hu.refuses hc⟩

def twoTasks : Machine :=
  ({} : Machine).act (.post [.post [.note []], .raise [], .note []]) |>.act (.post [.note []])

theorem every_task_once_raising :
    ∃ m : Machine, Reached (fun a => !a.runs) m ∧ Reached (fun a => !a.drives) m ∧ m.stack = [] ∧
      m.accepted.length = 2 ∧ m.begun ++ m.waiting = m.accepted ∧
      (∃ m', Round [] 0 m.loop.queue ({ m with signal := .go }.call .runPending) m' ∧ m'.signal = .done (.count 2)) ∧
      ∃ batches m', Idling [] 5 0 batches ({ m with signal := .go }.call (.runUntilIdle 5)) m' ∧
        (batches.length < 5 → m'.loop.queue = []) := by
  have hruns : Reached (fun a => !a.runs) twoTasks := .act (.act .refl rfl rfl) rfl rfl
  have hdrives : Reached (fun a => !a.drives) twoTasks := .act (.act .refl rfl rfl) rfl rfl
  have hfaces : ∀ a, twoTasks.Faces a { twoTasks with signal := .go } := fun a => .caller rfl
  obtain ⟨-, -, -, -, -, hpending, hidle, -, horder⟩ := every_task_once hruns
  obtain ⟨m₁, hround, -, -, hcount⟩ := hpending _ (hfaces _)
  obtain ⟨batches, m₂, hidling, -, -, -, -, -, hempty⟩ := hidle 5 _ (hfaces _)
  exact ⟨twoTasks, hruns, hdrives, rfl, rfl, horder hdrives, ⟨m₁, hround, hcount⟩, batches, m₂, hidling, hempty⟩

end Machine

end Multiplex.Loop
