import Multiplex.Proofs.Ledger

/-! Completions on a live loop. What is to be told of a completion can be read off the calls that were made since it was
created: who registered, which value came first, which tasks were posted for it. The loop begins those tasks in that
order, so every observer is told that value, once, in the order of registration, and never within the call that sets
the value or registers. -/
namespace Multiplex.Loop

open Bytes

def Happening.Inert : Happening → Prop
  | .called _ | .accepted _ => False
  | _ => True

def Happening.news : Happening → Option (Bytes × Bytes)
  | .told label value => some (label, value)
  | _ => none

theorem Happening.Tacit.news {e : Happening} (h : e.Tacit) : e.news = none := by cases e <;> trivial

theorem Happening.Tacit.inert {e : Happening} (h : e.Tacit) : e.Inert := by cases e <;> trivial

def Action.target : Action → Option Bytes
  | .create name _ | .drop name | .onComplete name _ _ | .fulfil name _ => some name
  | _ => none

def Action.subject : Action → Option Bytes
  | .onComplete name _ _ | .fulfil name _ => some name
  | _ => none

/-- What is known of a completion from what happened since it was created. -/
structure Record where
  /-- The name still stands for it. -/
  held : Bool := true
  /-- The observers that were registered, in their order. -/
  observers : List Observer := []
  /-- The value that it was set to first. -/
  value : Option Bytes := none
  /-- The last call set it or registered with it. -/
  attended : Bool := false
  /-- The tasks that the loop took, in their order, each with whether it was posted for the completion. -/
  sendings : List (Task × Bool) := []

namespace Record

def call (name : Bytes) (r : Record) (a : Action) : Record :=
  if r.held = true ∧ a.target = some name then
    match a with
    | .onComplete _ label andThen => { r with observers := r.observers ++ [⟨label, andThen⟩], attended := true }
    | .fulfil _ value => { r with value := r.value.or (some value), attended := true }
    | _ => { r with held := false, attended := false }
  else { r with attended := false }

def enter (name : Bytes) (r : Record) : Happening → Record
  | .called a => r.call name a
  | .accepted t => { r with sendings := r.sendings ++ [(t, r.attended)] }
  | _ => r

def after (name : Bytes) (r : Record) (later : List Happening) : Record := later.foldr (fun e r => r.enter name e) r

theorem after_cons (name : Bytes) (r : Record) (e : Happening) (later : List Happening) :
    r.after name (e :: later) = (r.after name later).enter name e := rfl

theorem after_append (name : Bytes) (r : Record) (new later : List Happening) :
    r.after name (new ++ later) = (r.after name later).after name new := List.foldr_append

theorem after_inert (name : Bytes) (r : Record) {new : List Happening} (hnew : ∀ e ∈ new, e.Inert) :
    r.after name new = r := by
  induction new with
  | nil => rfl
  | cons e new ih =>
    obtain ⟨he, hnew⟩ := List.forall_mem_cons.1 hnew
    rw [after_cons, ih hnew]
    cases e <;> first | rfl | exact he.elim

theorem sendings_call (name : Bytes) (r : Record) (a : Action) : (r.call name a).sendings = r.sendings := by
  unfold call
  split
  · split <;> rfl
  · rfl

theorem sendings_after (name : Bytes) (r : Record) (later : List Happening) :
    (r.after name later).sendings.map (·.1) = r.sendings.map (·.1) ++ later.reverse.filterMap Happening.taken := by
  induction later with
  | nil => simp [after]
  | cons e later ih =>
    rw [after_cons, List.reverse_cons, List.filterMap_append, ← List.append_assoc, ← ih]
    cases e <;> simp [enter, sendings_call, Happening.taken]

def own (sendings : List (Task × Bool)) : List Task := (sendings.filter (·.2)).map (·.1)

theorem own_append (sendings : List (Task × Bool)) (t : Task) (b : Bool) :
    own (sendings ++ [(t, b)]) = own sendings ++ if b then [t] else [] := by
  cases b <;> simp [own]

end Record

def record (name : Bytes) (later earlier : List Happening) : Record :=
  ({ sendings := (earlier.reverse.filterMap Happening.taken).map (·, false) } : Record).after name later

def Frame.sends : Frame → Bool
  | .telling _ _ true _ => true
  | _ => false

def Frame.isAside : Frame → Bool
  | .telling _ _ false _ => true
  | _ => false

def Frame.toSend : Frame → List Task
  | .telling rest value true _ => rest.map (Task.tell · value)
  | _ => []

theorem Frame.sends_of_drives {f : Frame} (h : f.drives = true) : f.sends = false := by cases f <;> trivial

theorem Frame.toSend_of_isSpent {f : Frame} (h : f.isSpent = true) : f.toSend = [] := by
  unfold toSend
  split
  · simpa [isSpent] using h
  · rfl

theorem Frame.toSend_of_not_sends {f : Frame} (h : f.sends = false) : f.toSend = [] := by
  unfold sends at h
  split at h
  · cases h
  · unfold toSend
    split <;> simp_all

/-- The cell is that of the completion as the record has it, and what was posted for it, with what is still to be
posted, is the value for each of its observers. -/
structure Delivers (r : Record) (cell : Option Cell) (toSend : List Task) : Prop where
  cell : r.held = true → cell = some ⟨⟨r.value, if r.value.isSome then [] else r.observers⟩, true⟩
  unset : r.value = none → Record.own r.sendings = [] ∧ (r.attended = true → toSend = [])
  sent : ∀ value, r.value = some value →
    Record.own r.sendings ++ (if r.attended then toSend else []) = r.observers.map (Task.tell · value)

namespace Delivers

variable {r : Record} {cell cell' : Option Cell} {toSend toSend' : List Task} {name label value : Bytes} {a : Action}

theorem created (ts : List Task) : Delivers { sendings := ts.map (·, false) } (some ⟨{}, true⟩) [] :=
  ⟨fun _ => rfl, fun _ => ⟨by simp [Record.own], nofun⟩, nofun⟩

theorem elsewhere (h : Delivers r cell []) (ha : ¬(r.held = true ∧ a.target = some name))
    (hcell : r.held = true → cell' = cell) : Delivers (r.call name a) cell' toSend := by
  have hcall : r.call name a = { r with attended := false } := if_neg ha
  rw [hcall]
  refine ⟨fun hheld => (hcell hheld).trans (h.cell hheld), fun hvalue => ⟨(h.unset hvalue).1, nofun⟩, ?_⟩
  intro value hvalue
  simpa using h.sent value hvalue

theorem release (h : Delivers r cell []) (hheld : r.held = true)
    (ha : a = .drop name ∨ ∃ onLoop, a = .create name onLoop) :
    Delivers (r.call name a) cell' toSend := by
  have hcall : r.call name a = { r with held := false, attended := false } := by
    obtain rfl | ⟨onLoop, rfl⟩ := ha <;> exact if_pos ⟨hheld, rfl⟩
  rw [hcall]
  refine ⟨nofun, fun hvalue => ⟨(h.unset hvalue).1, nofun⟩, fun value hvalue => ?_⟩
  simpa using h.sent value hvalue

theorem register {old : Cell} (h : Delivers r (some old) []) (hheld : r.held = true)
    (hunset : old.completion.value = none) (andThen : List Action) :
    Delivers (r.call name (.onComplete name label andThen))
      (some { old with completion := ⟨none, old.completion.observers ++ [⟨label, andThen⟩]⟩ }) [] := by
  obtain rfl := Option.some.inj (h.cell hheld)
  have hvalue : r.value = none := hunset
  have hcall : r.call name (.onComplete name label andThen) =
      { r with observers := r.observers ++ [⟨label, andThen⟩], attended := true } := if_pos ⟨hheld, rfl⟩
  rw [hcall]
  refine ⟨fun _ => by simp [hvalue], fun _ => ⟨(h.unset hvalue).1, fun _ => rfl⟩, ?_⟩
  simp [hvalue]

theorem catchUp {old : Cell} (h : Delivers r (some old) []) (hheld : r.held = true)
    (hset : old.completion.value = some value) (andThen : List Action) :
    Delivers (r.call name (.onComplete name label andThen)) (some old)
      (Frame.toSend (.telling [⟨label, andThen⟩] value old.onLoop .nothing)) := by
  obtain rfl := Option.some.inj (h.cell hheld)
  have hvalue : r.value = some value := hset
  have hcall : r.call name (.onComplete name label andThen) =
      { r with observers := r.observers ++ [⟨label, andThen⟩], attended := true } := if_pos ⟨hheld, rfl⟩
  rw [hcall]
  refine ⟨fun _ => by simp [hvalue], by simp [hvalue], fun value' hvalue' => ?_⟩
  obtain rfl := Option.some.inj (hvalue.symm.trans hvalue')
  have hsent := h.sent value hvalue
  simp only [ite_self, List.append_nil] at hsent
  simp [hsent, Frame.toSend]

theorem fulfil {old : Cell} (h : Delivers r (some old) []) (hheld : r.held = true)
    (hunset : old.completion.value = none) :
    Delivers (r.call name (.fulfil name value)) (some { old with completion := ⟨some value, []⟩ })
      (Frame.toSend (.telling old.completion.observers value old.onLoop (.flag true))) := by
  obtain rfl := Option.some.inj (h.cell hheld)
  have hvalue : r.value = none := hunset
  have hcall : r.call name (.fulfil name value) = { r with value := some value, attended := true } :=
    (if_pos ⟨hheld, rfl⟩).trans (by simp [hvalue])
  rw [hcall]
  refine ⟨fun _ => by simp, by simp, fun value' hvalue' => ?_⟩
  obtain rfl := Option.some.inj hvalue'
  simp [(h.unset hvalue).1, Frame.toSend, hvalue]

theorem again (h : Delivers r cell []) (hheld : r.held = true) (hvalue : r.value = some value) (value' : Bytes) :
    Delivers (r.call name (.fulfil name value')) cell [] := by
  have hcall : r.call name (.fulfil name value') = { r with attended := true } :=
    (if_pos ⟨hheld, rfl⟩).trans (by simp [hvalue])
  rw [hcall]
  refine ⟨fun _ => by simpa using h.cell hheld, by simp [hvalue], fun v hv => ?_⟩
  simpa using h.sent v hv

theorem taken (name : Bytes) {t : Task} (h : Delivers r cell toSend) (ht : r.attended = true → toSend = t :: toSend') :
    Delivers (r.enter name (.accepted t)) cell toSend' := by
  refine ⟨h.cell, fun hvalue => ?_, fun value hvalue => ?_⟩
  · have hidle : r.attended = false := by
      cases hattended : r.attended with
      | false => rfl
      | true => simpa [(h.unset hvalue).2 hattended] using ht hattended
    refine ⟨?_, fun hattended => by simp [Record.enter, hidle] at hattended⟩
    simpa [Record.enter, Record.own_append, hidle] using (h.unset hvalue).1
  · have hsent := h.sent value hvalue
    cases hattended : r.attended with
    | false => simpa [Record.enter, Record.own_append, hattended] using hsent
    | true => simpa [Record.enter, Record.own_append, hattended, ht hattended] using hsent

end Delivers

namespace Machine

variable {m m' u c : Machine} {p : Action → Bool} {name : Bytes}

def toSend (m : Machine) : List Task :=
  match m.stack with
  | [] => []
  | f :: _ => f.toSend

theorem toSend_of_stack {f : Frame} {below : List Frame} (hs : m.stack = f :: below) : m.toSend = f.toSend := by
  rw [toSend, hs]

theorem find?_others (cells : List (Bytes × Cell)) (name name' : Bytes) :
    (cells.filter (·.1 != name')).find? (·.1 == name) =
      if name' = name then none else cells.find? (·.1 == name) := by
  rw [List.find?_filter]
  split
  next hname => simp [hname]
  next hname =>
    congr 1
    funext x
    by_cases hx : x.1 = name <;> simp [hx, Ne.symm hname]

theorem cell_store (m : Machine) (name name' : Bytes) (c : Cell) :
    (m.store name' c).cell name = if name' = name then some c else m.cell name := by
  rw [store, cell, cell, List.find?_cons, find?_others]
  by_cases hname : name' = name
  · simp [hname]
  · simp [hname, beq_false_of_ne hname]

theorem cell_remove (m : Machine) (name name' : Bytes) :
    (m.remove name').cell name = if name' = name then none else m.cell name := by
  rw [remove, cell, cell, find?_others]
  split <;> rfl

structure Prompt (m : Machine) : Prop where
  below : ∀ f ∈ m.stack.tail, f.sends = false
  go : ∀ f ∈ m.stack.head?, f.sends = true → m.signal = .go

def Tracks (m : Machine) : Prop :=
  ∀ name later earlier, m.history = later ++ .called (.create name true) :: earlier →
    Delivers (record name later earlier) (m.cell name) m.toSend

theorem split_of_not_mem {α : Type} {new l later earlier : List α} {x : α} (h : new ++ l = later ++ x :: earlier)
    (hx : x ∉ new) : ∃ before, later = new ++ before ∧ l = before ++ x :: earlier := by
  obtain ⟨before, hlater, hl⟩ | ⟨rest, hnew, hrest⟩ := List.append_eq_append_iff.1 h
  · exact ⟨before, hlater, hl⟩
  · cases rest with
    | nil => exact ⟨[], by simpa using hnew.symm, by simpa using hrest.symm⟩
    | cons y rest =>
      obtain ⟨rfl, -⟩ := List.cons.inj hrest
      simp [hnew] at hx

theorem Tracks.inert (new : List Happening) (hm : m.Tracks) (hhistory : m'.history = new ++ m.history)
    (hnew : ∀ e ∈ new, e.Inert) (hcells : m'.cells = m.cells) (hsend : m'.toSend = m.toSend) : m'.Tracks := by
  intro name later earlier hsplit
  obtain ⟨before, rfl, hbefore⟩ := split_of_not_mem (hhistory.symm.trans hsplit) fun hmem => hnew _ hmem
  rw [record, Record.after_append, Record.after_inert name _ hnew, hsend, cell, hcells]
  exact hm name before earlier hbefore

structure Accounts (u : Machine) (a : Action) (new : List Happening) (m' : Machine) : Prop where
  history : m'.history = new ++ u.history
  quiet : ∀ a', Happening.called a' ∉ new
  delivers : ∀ name r, Delivers r (u.cell name) [] →
    Delivers ((r.call name a).after name new) (m'.cell name) m'.toSend
  created : ∀ name, a = .create name true → new = [] ∧ m'.cell name = some ⟨{}, true⟩ ∧ m'.toSend = []

namespace Accounts

variable {a : Action} {label value : Bytes} {andThen : List Action} {old : Cell}

theorem elsewhere (ha : a.target = none) (hhistory : m'.history = u.history) (hcells : m'.cells = u.cells) :
    Accounts u a [] m' := by
  refine ⟨hhistory, fun _ => List.not_mem_nil, fun name r hr => ?_, ?_⟩
  · exact hr.elsewhere (by simp [ha]) fun _ => congrArg (fun cells => (cells.find? (·.1 == name)).map (·.2)) hcells
  · rintro name rfl
    cases ha

theorem answer {new : List Happening} {v : Value} (ha : u.OnlyAnswers a) (hnew : ∀ e ∈ new, e.Tacit)
    (hsend : u.toSend = []) :
    Accounts u a new ({ u with history := new ++ u.history }.finish v) := by
  have hinert : ∀ e ∈ new, e.Inert := fun e he => (hnew e he).inert
  refine ⟨rfl, fun a' hmem => hinert _ hmem, fun name r hr => ?_, ?_⟩
  · have hsend' : ({ u with history := new ++ u.history }.finish v).toSend = [] := hsend
    rw [Record.after_inert name _ hinert, hsend']
    by_cases hown : r.held = true ∧ a.target = some name
    · obtain ⟨hheld, hname⟩ := hown
      cases a with
      | create | drop => exact ha.elim
      | onComplete name' label andThen =>
        obtain rfl := Option.some.inj hname
        cases (show u.cell name' = none from ha).symm.trans (hr.cell hheld)
      | fulfil name' value' =>
        obtain rfl := Option.some.inj hname
        cases hvalue : r.value with
        | none => cases ha _ (hr.cell hheld) hvalue
        | some value => exact hr.again hheld hvalue value'
      | _ => cases hname
    · exact hr.elsewhere hown fun _ => rfl
  · rintro name rfl
    exact ha.elim

theorem post (task : List Action) (hhistory : m'.history = .accepted (.actions task) :: u.history)
    (hcells : m'.cells = u.cells) (hsend : m'.toSend = []) :
    Accounts u (.post task) [.accepted (.actions task)] m' := by
  refine ⟨hhistory, by simp, fun name r hr => ?_, nofun⟩
  have hcall : (r.call name (.post task)).attended = false := by simp [Record.call, Action.target]
  have helsewhere : Delivers (r.call name (.post task)) (u.cell name) [] :=
    hr.elsewhere (by simp [Action.target]) fun _ => rfl
  rw [hsend, show m'.cell name = u.cell name by rw [cell, cell, hcells]]
  exact helsewhere.taken name (by simp [hcall])

theorem create (name' : Bytes) (onLoop : Bool) (hsend : u.toSend = []) :
    Accounts u (.create name' onLoop) [] (u.store name' { onLoop } |>.finish .nothing) := by
  have hcell : ∀ name, ((u.store name' { onLoop }).finish .nothing).cell name =
      if name' = name then some { onLoop } else u.cell name := fun name => cell_store u name name' _
  refine ⟨rfl, by simp, fun name r hr => ?_, ?_⟩
  · by_cases hown : r.held = true ∧ name' = name
    · obtain ⟨hheld, rfl⟩ := hown
      exact hr.release hheld (.inr ⟨onLoop, rfl⟩)
    · refine hr.elsewhere (by simpa [Action.target] using hown) fun hheld => ?_
      rw [hcell, if_neg (not_and.1 hown hheld)]
  · rintro _ ⟨⟩
    exact ⟨rfl, (hcell name').trans (if_pos rfl), hsend⟩

theorem drop (name' : Bytes) : Accounts u (.drop name') [] (u.remove name' |>.finish .nothing) := by
  refine ⟨rfl, by simp, fun name r hr => ?_, nofun⟩
  have hcell : ((u.remove name').finish .nothing).cell name = if name' = name then none else u.cell name :=
    cell_remove u name name'
  by_cases hown : r.held = true ∧ name' = name
  · obtain ⟨hheld, rfl⟩ := hown
    exact hr.release hheld (.inl rfl)
  · refine hr.elsewhere (by simpa [Action.target] using hown) fun hheld => ?_
    rw [hcell, if_neg (not_and.1 hown hheld)]

theorem register {name' : Bytes} (hcell : u.cell name' = some old) (hunset : old.completion.value = none)
    (hsend : u.toSend = []) :
    Accounts u (.onComplete name' label andThen) []
      (u.store name' { old with completion := ⟨none, old.completion.observers ++ [⟨label, andThen⟩]⟩ }
        |>.finish .nothing) := by
  refine ⟨rfl, by simp, fun name r hr => ?_, nofun⟩
  let new : Cell := { old with completion := ⟨none, old.completion.observers ++ [⟨label, andThen⟩]⟩ }
  have hstored : ((u.store name' new).finish .nothing).cell name = if name' = name then some new else u.cell name :=
    cell_store u name name' new
  rw [show ((u.store name' new).finish .nothing).toSend = [] from hsend, hstored]
  by_cases hown : r.held = true ∧ name' = name
  · obtain ⟨hheld, rfl⟩ := hown
    rw [if_pos rfl]
    exact (hcell ▸ hr).register hheld hunset andThen
  · exact hr.elsewhere (by simpa [Action.target] using hown) fun hheld => if_neg (not_and.1 hown hheld)

theorem catchUp {name' : Bytes} (hcell : u.cell name' = some old) (hset : old.completion.value = some value) :
    Accounts u (.onComplete name' label andThen) []
      (u.push (.telling [⟨label, andThen⟩] value old.onLoop .nothing)) := by
  refine ⟨rfl, by simp, fun name r hr => ?_, nofun⟩
  by_cases hown : r.held = true ∧ name' = name
  · obtain ⟨hheld, rfl⟩ := hown
    rw [show (u.push (.telling [⟨label, andThen⟩] value old.onLoop .nothing)).cell name' = some old from hcell]
    exact (hcell ▸ hr).catchUp hheld hset andThen
  · exact hr.elsewhere (by simpa [Action.target] using hown) fun _ => rfl

theorem fulfil {name' : Bytes} (hcell : u.cell name' = some old) (hunset : old.completion.value = none) :
    Accounts u (.fulfil name' value) []
      (u.store name' { old with completion := ⟨some value, []⟩ }
        |>.push (.telling old.completion.observers value old.onLoop (.flag true))) := by
  refine ⟨rfl, by simp, fun name r hr => ?_, nofun⟩
  let new : Cell := { old with completion := ⟨some value, []⟩ }
  let f : Frame := .telling old.completion.observers value old.onLoop (.flag true)
  have hstored : ((u.store name' new).push f).cell name = if name' = name then some new else u.cell name :=
    cell_store u name name' new
  by_cases hown : r.held = true ∧ name' = name
  · obtain ⟨hheld, rfl⟩ := hown
    rw [hstored, if_pos rfl]
    exact (hcell ▸ hr).fulfil hheld hunset
  · refine hr.elsewhere (by simpa [Action.target] using hown) fun hheld => ?_
    exact hstored.trans (if_neg (not_and.1 hown hheld))

end Accounts

theorem Effect.accounts {a : Action} (h : Effect u a m') (hsend : u.toSend = []) : ∃ new, Accounts u a new m' := by
  cases h with
  | answer v new ha hnew => exact ⟨new, .answer ha hnew hsend⟩
  | post task => exact ⟨_, .post task rfl rfl hsend⟩
  | raise | stop | runUntilIdle | run | runOnThread | runPending => exact ⟨[], .elsewhere rfl rfl rfl⟩
  | create name onLoop => exact ⟨[], .create name onLoop hsend⟩
  | drop name => exact ⟨[], .drop name⟩
  | register label andThen hcell hunset => exact ⟨[], .register hcell hunset hsend⟩
  | catchUp label andThen hcell hset => exact ⟨[], .catchUp hcell hset⟩
  | fulfil value hcell hunset => exact ⟨[], .fulfil hcell hunset⟩

theorem Effect.prompt {a : Action} (h : Effect u a m') (hu : ∀ f ∈ u.stack, f.sends = false) : m'.Prompt := by
  have hstill : m'.stack = u.stack → m'.Prompt := by
    intro hs
    refine ⟨fun f hf => hu f (List.mem_of_mem_tail (hs ▸ hf)), fun f hf hsends => ?_⟩
    rw [hu f (List.mem_of_mem_head? (hs ▸ hf))] at hsends
    cases hsends
  have hpush : ∀ f, m'.stack = f :: u.stack → m'.signal = .go → m'.Prompt := by
    intro f hs hgo
    exact ⟨by simpa [hs] using hu, fun _ _ _ => hgo⟩
  cases h with
  | answer | raise | post | stop | create | drop | register => exact hstill rfl
  | _ => exact hpush _ rfl rfl

theorem Tracks.call {a : Action} (hm : m.Tracks) (h : Effect u a m') (hsend : m.toSend = []) (husend : u.toSend = [])
    (hhistory : u.history = .called a :: m.history) (hcells : u.cells = m.cells) : m'.Tracks := by
  intro name later earlier hsplit
  obtain ⟨new, hnew, hquiet, hdelivers, hcreated⟩ := h.accounts husend
  rw [hnew, hhistory] at hsplit
  obtain ⟨before, rfl, hbefore⟩ := split_of_not_mem hsplit (hquiet _)
  cases before with
  | nil =>
    obtain ⟨hcall, rfl⟩ := List.cons.inj hbefore
    obtain ⟨rfl, hcell, hsent⟩ := hcreated name (Happening.called.inj hcall)
    rw [hcell, hsent]
    exact .created _
  | cons e before =>
    obtain ⟨rfl, hold⟩ := List.cons.inj hbefore
    have hr := hm name before earlier hold
    rw [hsend, cell, ← hcells] at hr
    rw [record, Record.after_append]
    exact hdelivers name _ hr

theorem StepEffect.prompt (h : StepEffect m m') (hopen : m.loop.stopped = false) (hp : m.Prompt) : m'.Prompt := by
  have hbelow : ∀ {f below}, m.stack = f :: below → ∀ g ∈ below, g.sends = false := by
    intro f below hs
    simpa [hs] using hp.below
  have hquiet : ∀ (top : List Frame) {f : Frame} {below : List Frame}, m.stack = f :: below →
      m'.stack = top ++ below → (∀ g ∈ top, g.sends = false) → m'.Prompt := by
    intro top f below hs hs' htop
    have hall : ∀ g ∈ m'.stack, g.sends = false := by
      rw [hs']
      exact List.forall_mem_append.2 ⟨htop, hbelow hs⟩
    refine ⟨fun g hg => hall g (List.mem_of_mem_tail hg), fun g hg hsends => ?_⟩
    rw [hall g (List.mem_of_mem_head? hg)] at hsends
    cases hsends
  have hidle : ∀ {f below}, m.stack = f :: below → m.signal ≠ .go → f.sends = false := by
    intro f below hs hsignal
    cases hsends : f.sends with
    | false => rfl
    | true => exact absurd (hp.go f (by simp [hs]) hsends) hsignal
  cases h with
  | @call a rest below top hs hgo htop =>
    apply (effect_perform _ a).prompt
    refine List.forall_mem_append.2 ⟨fun f hf => htop f hf ▸ rfl, List.forall_mem_cons.2 ⟨rfl, hbelow hs⟩⟩
  | finish v hs => exact hquiet [] hs rfl nofun
  | @begin t rest taken below hs =>
    exact hquiet [.script t.script, .round rest (taken + 1)] hs (by simp) (by simp [Frame.sends])
  | @gather f f' below hs hf hf' =>
    refine hquiet [.round m.loop.queue 0, f'] hs rfl (List.forall_mem_cons.2 ⟨rfl, ?_⟩)
    simpa using Frame.sends_of_drives hf'
  | sleep => exact ⟨nofun, nofun⟩
  | @send o rest value answer below hs => exact ⟨hbelow hs, fun _ _ _ => rfl⟩
  | @inform o rest value onLoop answer below hs hgo hclosed message =>
    obtain rfl : onLoop = false := by
      cases onLoop with
      | false => rfl
      | true => simp [hclosed rfl] at hopen
    exact hquiet [.script o.andThen, .telling rest value false answer] hs rfl (by simp [Frame.sends])
  | record hs => exact hquiet [] hs rfl nofun
  | @resume f below v hs hdone => exact hquiet [f] hs rfl (by simpa using hidle hs (by simp [hdone]))
  | @count left total below n hs => exact hquiet [.rounds left (total + n)] hs rfl (by simp [Frame.sends])
  | @contain rest taken below hs => exact hquiet [.round rest taken] hs rfl (by simp [Frame.sends])
  | unwind hs hraised => exact hquiet [] hs rfl nofun

theorem Prompt.toSend_below {f : Frame} {below : List Frame} (hp : m.Prompt) (hs : m.stack = f :: below)
    (hs' : m'.stack = below) : m'.toSend = [] := by
  cases below with
  | nil => rw [toSend, hs']
  | cons g below =>
    rw [toSend_of_stack hs']
    exact Frame.toSend_of_not_sends (hp.below g (by simp [hs]))

theorem history_begin (m : Machine) (t : Task) :
    ∃ new, (m.begin t).history = new ++ m.history ∧ ∀ e ∈ new, e.Inert := by
  cases t with
  | actions list => exact ⟨[.began (.actions list)], rfl, by simp [Happening.Inert]⟩
  | tell o value => exact ⟨[.told o.label value, .began (.tell o value)], rfl, by simp [Happening.Inert]⟩

theorem StepEffect.tracks (h : StepEffect m m') (hopen : m.loop.stopped = false) (hp : m.Prompt) (hm : m.Tracks) :
    m'.Tracks := by
  cases h with
  | @call a rest below top hs hgo htop =>
    refine hm.call (effect_perform _ a) (toSend_of_stack hs) ?_ rfl rfl
    cases top with
    | nil => rfl
    | cons f top =>
      have hf : f = .recording a.name := htop f List.mem_cons_self
      subst hf
      rfl
  | @finish f below v hs hspent =>
    have hsend : m.toSend = [] := (toSend_of_stack hs).trans (Frame.toSend_of_isSpent hspent)
    exact hm.inert [] rfl nofun rfl ((hp.toSend_below hs rfl).trans hsend.symm)
  | @begin t rest taken below hs =>
    obtain ⟨new, hnew, hinert⟩ := history_begin { m with stack := .round rest (taken + 1) :: below, signal := .go } t
    refine hm.inert new hnew hinert (by simp) ?_
    rw [toSend_of_stack hs, toSend_of_stack (stack_begin _ t)]
    rfl
  | @gather f f' below hs hf =>
    have hsend : m.toSend = [] :=
      (toSend_of_stack hs).trans (Frame.toSend_of_not_sends (Frame.sends_of_drives hf))
    exact hm.inert [] rfl nofun rfl hsend.symm
  | sleep hs => exact hm.inert [] rfl nofun rfl (toSend_of_stack hs).symm
  | @send o rest value answer below hs =>
    intro name later earlier hsplit
    have hnew : [Happening.accepted (.tell o value)] ++ m.history =
        later ++ .called (.create name true) :: earlier := hsplit
    obtain ⟨before, rfl, hbefore⟩ := split_of_not_mem hnew (by simp)
    have hr := hm name before earlier hbefore
    rw [toSend_of_stack hs] at hr
    exact hr.taken name fun _ => rfl
  | @inform o rest value onLoop answer below hs hgo hclosed message =>
    have hsend : m.toSend = [] := by
      apply (toSend_of_stack hs).trans
      cases onLoop with
      | false => rfl
      | true => simp [hclosed rfl] at hopen
    exact hm.inert [.told o.label value, .log _] rfl (by simp [Happening.Inert]) rfl hsend.symm
  | @record action below v hs =>
    have hsend : m.toSend = [] := toSend_of_stack hs
    exact hm.inert [.nested action v] rfl (by simp [Happening.Inert]) rfl ((hp.toSend_below hs rfl).trans hsend.symm)
  | resume hs => exact hm.inert [] rfl nofun rfl (toSend_of_stack hs).symm
  | count n hs => exact hm.inert [] rfl nofun rfl (toSend_of_stack hs).symm
  | contain hs => exact hm.inert [.log _] rfl (by simp [Happening.Inert]) rfl (toSend_of_stack hs).symm
  | @unwind f below text hs hraised =>
    have hsends : f.sends = false := by
      cases hsends : f.sends with
      | false => rfl
      | true => simpa [hraised] using hp.go f (by simp [hs]) hsends
    have hsend : m.toSend = [] := (toSend_of_stack hs).trans (Frame.toSend_of_not_sends hsends)
    exact hm.inert [] rfl nofun rfl ((hp.toSend_below hs rfl).trans hsend.symm)

theorem Reached.tracks (h : Reached p m) (hopen : m.loop.stopped = false) : m.Prompt ∧ m.Tracks := by
  induction h with
  | refl => exact ⟨⟨nofun, nofun⟩, fun name later earlier hsplit => by simp at hsplit⟩
  | @tail m m' _ hmove ih =>
    have hbefore := hmove.live hopen
    obtain ⟨hp, hm⟩ := ih hbefore
    cases hmove with
    | act a hs ha =>
      have hsend : m.toSend = [] := by rw [toSend, hs]
      refine ⟨(effect_perform _ a).prompt ?_, hm.call (effect_perform _ a) hsend hsend rfl rfl⟩
      simp [happen, hs]
    | step h => exact ⟨(stepEffect_of_step h).prompt hbefore hp, (stepEffect_of_step h).tracks hbefore hp hm⟩

/-! What is posted within a call that sets a completion, and what is not done there. -/

def told (m : Machine) : List (Bytes × Bytes) := m.history.reverse.filterMap Happening.news

@[simp] theorem told_happen (m : Machine) (e : Happening) : (m.happen e).told = m.told ++ e.news.toList := by
  cases e <;> simp [told, happen, Happening.news]

/-- A call that posts the news of a value is under way, or it is over; in neither case has any task been begun or any
observer been told since. -/
structure Posting (below : List Frame) (m m' : Machine) : Prop where
  begun : m'.begun = m.begun
  told : m'.told = m.told
  loop : m'.loop.stopped = false
  stack : m'.Back below ∨ ∃ rest value answer, m'.stack = .telling rest value true answer :: below ∧ m'.signal = .go

theorem Posting.works {below : List Frame} (hu : Posting below m u) (h : u.Works below m') : Posting below m m' := by
  induction h with
  | refl => exact hu
  | @tail v w _ hstep ih =>
    obtain ⟨⟨above, f, habove, -⟩, hnext⟩ := hstep
    obtain ⟨hs, -⟩ | ⟨rest, value, answer, hs, hgo⟩ := ih.stack
    · have hlength := congrArg List.length (hs.symm.trans habove)
      simp at hlength
      omega
    · have hgoes := step_of_go hs hgo
      cases rest with
      | nil =>
        obtain rfl := Option.some.inj (hnext.symm.trans hgoes)
        exact ⟨ih.begun, ih.told, ih.loop, .inl ⟨rfl, rfl⟩⟩
      | cons o rest =>
        let w : Machine := { v with stack := below }.push (.telling rest value true answer)
        rw [resume, deliver_posted (m := w) o value ih.loop] at hgoes
        obtain rfl := Option.some.inj (hnext.symm.trans hgoes)
        refine ⟨?_, ?_, ih.loop, .inr ⟨rest, value, answer, rfl, rfl⟩⟩
        · exact (begun_happen _ _).trans ((List.append_nil _).trans ih.begun)
        · exact (told_happen _ _).trans ((List.append_nil _).trans ih.told)

theorem Posting.returns {below : List Frame} (hu : Posting below m u) : ∃ m', u.Returns below m' := by
  obtain hback | ⟨rest, value, answer, hs, hgo⟩ := hu.stack
  · exact ⟨u, .refl, hback⟩
  · obtain ⟨m', hworks, hback | hsleep⟩ := (within_of_stack hs rfl).returns_or_sleeps
    · exact ⟨m', hworks, hback⟩
    · obtain hback | ⟨-, -, -, -, hgo'⟩ := (hu.works hworks).stack
      · exact ⟨m', hworks, hback⟩
      · simp [hsleep] at hgo'

theorem Faces.cells {a : Action} (h : m.Faces a c) : c.cells = m.cells := by cases h <;> rfl

theorem Faces.told {a : Action} (h : m.Faces a c) : c.told = m.told := by cases h <;> rfl

theorem Faces.posting {a : Action} {old : Cell} (h : m.Faces a c) (hcell : m.cell name = some old)
    (hon : old.onLoop = true) (hopen : m.loop.stopped = false)
    (ha : a.subject = some name) :
    Posting c.stack m (c.call a) := by
  let u := c.happen (.called a)
  have hu : u.cell name = some old := by
    show c.cell name = some old
    rw [cell, h.cells]
    exact hcell
  have hbegun : u.begun = m.begun := h.level.begun
  have htold : u.told = m.told := by
    rw [← h.told]
    simp [u, Happening.news]
  have hloop : u.loop.stopped = false := h.loop ▸ hopen
  have heffect := effect_perform u a
  show Posting c.stack m (u.perform a)
  generalize u.perform a = m' at heffect ⊢
  cases heffect with
  | answer v new hvain hnew =>
    refine ⟨Eq.trans ?_ hbegun, Eq.trans ?_ htold, hloop, .inl ⟨rfl, rfl⟩⟩
    · exact filterMap_reverse_append (fun e he => (hnew e he).start) u.history
    · exact filterMap_reverse_append (fun e he => (hnew e he).news) u.history
  | register => exact ⟨hbegun, htold, hloop, .inl ⟨rfl, rfl⟩⟩
  | catchUp label andThen hcell' =>
    obtain rfl := Option.some.inj ha
    obtain rfl := Option.some.inj (hu.symm.trans hcell')
    exact ⟨hbegun, htold, hloop, .inr ⟨_, _, _, by rw [← hon]; rfl, rfl⟩⟩
  | fulfil value hcell' =>
    obtain rfl := Option.some.inj ha
    obtain rfl := Option.some.inj (hu.symm.trans hcell')
    exact ⟨hbegun, htold, hloop, .inr ⟨_, _, _, by rw [← hon]; rfl, rfl⟩⟩
  | _ => cases ha

def shown : Task → Option (Bytes × Bytes)
  | .tell o value => some (o.label, value)
  | .actions _ => none

def Informs (m : Machine) : Prop := (m.begun.filterMap shown).Sublist m.told

theorem Informs.same (h : m.Informs) (new : List Happening) (hhistory : m'.history = new ++ m.history)
    (hnew : ∀ e ∈ new, e.start = none) : m'.Informs := by
  have hbegun : m'.begun = m.begun := by
    rw [begun, hhistory]
    exact filterMap_reverse_append hnew m.history
  have htold : m'.told = m.told ++ new.reverse.filterMap Happening.news := by
    rw [told, hhistory, List.reverse_append, List.filterMap_append]
    rfl
  rw [Informs, hbegun, htold]
  exact h.trans (List.sublist_append_left _ _)

theorem told_begin (m : Machine) (t : Task) : (m.begin t).told = m.told ++ (shown t).toList := by
  cases t with
  | actions list => exact told_happen m (.began (.actions list))
  | tell o value =>
    apply (told_happen _ (.told o.label value)).trans
    rw [told_happen m (.began (.tell o value))]
    simp [Happening.news, shown]

theorem shown_begin (m : Machine) (t : Task) :
    (m.begin t).begun.filterMap shown = m.begun.filterMap shown ++ (shown t).toList := by
  rw [begun_begin, List.filterMap_append]
  cases t <;> rfl

theorem Informs.begin (h : m.Informs) (t : Task) : (m.begin t).Informs := by
  rw [Informs, shown_begin, told_begin]
  exact List.Sublist.append_right h _

theorem Informs.effect {a : Action} (hm : m.Informs) (h : Effect m a m') : m'.Informs := by
  cases h with
  | answer v new ha hnew => exact hm.same new rfl fun e he => (hnew e he).start
  | post task => exact hm.same [.accepted (.actions task)] rfl (by simp [Happening.start])
  | _ => exact hm.same [] rfl (List.forall_mem_nil _)

theorem Informs.stepEffect (hm : m.Informs) (h : StepEffect m m') : m'.Informs := by
  cases h with
  | @call a => exact Informs.effect (hm.same [.called a] rfl (by simp [Happening.start])) (effect_perform _ a)
  | @begin t rest taken below =>
    have hround : ({ m with stack := .round rest (taken + 1) :: below, signal := .go } : Machine).Informs :=
      hm.same [] rfl (List.forall_mem_nil _)
    exact hround.begin t
  | @send o rest value => exact hm.same [.accepted (.tell o value)] rfl (by simp [Happening.start])
  | @inform o rest value => exact hm.same [.told o.label value, .log _] rfl (by simp [Happening.start])
  | @record action below v => exact hm.same [.nested action v] rfl (by simp [Happening.start])
  | contain => exact hm.same [.log _] rfl (by simp [Happening.start])
  | _ => exact hm.same [] rfl (List.forall_mem_nil _)

theorem Reached.informs (h : Reached p m) : m.Informs := by
  induction h with
  | refl => exact .refl _
  | tail _ hmove ih =>
    cases hmove with
    | act a => exact Informs.effect (ih.same [.called a] rfl (by simp [Happening.start])) (effect_perform _ a)
    | step h => exact ih.stepEffect (stepEffect_of_step h)

theorem Effect.history {a : Action} (h : Effect m a m') : m.history <:+ m'.history := by
  cases h with
  | answer v new => exact List.suffix_append new m.history
  | post task => exact List.suffix_cons _ m.history
  | _ => exact List.suffix_rfl

theorem history_call (m : Machine) (a : Action) : .called a :: m.history <:+ (m.call a).history :=
  (effect_perform (m.happen (.called a)) a).history

/-- All completions are on the loop, and nobody was told anything but by a task that was begun. -/
structure Looped (m : Machine) : Prop where
  cells : ∀ x ∈ m.cells, x.2.onLoop = true
  frames : ∀ f ∈ m.stack, f.isAside = false
  told : m.told = m.begun.filterMap shown

namespace Looped

theorem cell {c : Cell} (h : m.Looped) (hcell : m.cell name = some c) : c.onLoop = true := by
  obtain ⟨x, hx, rfl⟩ := Option.map_eq_some_iff.1 hcell
  exact h.cells x (List.mem_of_find?_eq_some hx)

theorem same (h : m.Looped) (new : List Happening) (hhistory : m'.history = new ++ m.history)
    (hnew : ∀ e ∈ new, e.start = none ∧ e.news = none) (hcells : ∀ x ∈ m'.cells, x.2.onLoop = true)
    (hframes : ∀ f ∈ m'.stack, f.isAside = false) : m'.Looped := by
  have hbegun : m'.begun = m.begun := by
    rw [begun, hhistory]
    exact filterMap_reverse_append (fun e he => (hnew e he).1) m.history
  have htold : m'.told = m.told := by
    rw [Machine.told, hhistory]
    exact filterMap_reverse_append (fun e he => (hnew e he).2) m.history
  exact ⟨hcells, hframes, by rw [htold, hbegun, h.told]⟩

theorem store {c : Cell} (h : m.Looped) (hc : c.onLoop = true) :
    ∀ x ∈ (m.store name c).cells, x.2.onLoop = true :=
  List.forall_mem_cons.2 ⟨hc, fun x hx => h.cells x (List.mem_filter.1 hx).1⟩

theorem push {f : Frame} (h : m.Looped) (hf : f.isAside = false) : ∀ g ∈ f :: m.stack, g.isAside = false :=
  List.forall_mem_cons.2 ⟨hf, h.frames⟩

theorem effect {a : Action} (hm : m.Looped) (h : Effect m a m') (ha : ∀ name, a ≠ .create name false) :
    m'.Looped := by
  cases h with
  | answer v new _ hnew => exact hm.same new rfl (fun e he => ⟨(hnew e he).start, (hnew e he).news⟩) hm.cells hm.frames
  | raise | stop => exact hm.same [] rfl (List.forall_mem_nil _) hm.cells hm.frames
  | post task =>
    exact hm.same [.accepted (.actions task)] rfl (by simp [Happening.start, Happening.news]) hm.cells hm.frames
  | runPending | runUntilIdle | run | runOnThread => exact hm.same [] rfl (List.forall_mem_nil _) hm.cells (hm.push rfl)
  | create name onLoop =>
    cases onLoop with
    | false => exact (ha name rfl).elim
    | true => exact hm.same [] rfl (List.forall_mem_nil _) (hm.store rfl) hm.frames
  | drop => exact hm.same [] rfl (List.forall_mem_nil _) (fun x hx => hm.cells x (List.mem_filter.1 hx).1) hm.frames
  | register label andThen hcell =>
    have hon := hm.cell hcell
    exact hm.same [] rfl (List.forall_mem_nil _) (hm.store hon) hm.frames
  | catchUp label andThen hcell =>
    refine hm.same [] rfl (List.forall_mem_nil _) hm.cells (hm.push ?_)
    rw [hm.cell hcell]
    rfl
  | fulfil value hcell =>
    have hon := hm.cell hcell
    refine hm.same [] rfl (List.forall_mem_nil _) (hm.store hon) (hm.push ?_)
    rw [hon]
    rfl

theorem begin (hm : m.Looped) (t : Task) : (m.begin t).Looped := by
  refine ⟨by simpa using hm.cells, ?_, ?_⟩
  · rw [stack_begin]
    exact hm.push rfl
  · rw [shown_begin, told_begin, hm.told]

/-- On a live loop nobody is told anything aside. -/
theorem stepEffect (hm : m.Looped) (h : StepEffect m m') (hopen : m.loop.stopped = false)
    (hmade : ∀ name, Happening.called (.create name false) ∉ m'.history) : m'.Looped := by
  have hbelow : ∀ {f : Frame} {below : List Frame}, m.stack = f :: below →
      f.isAside = false ∧ ∀ g ∈ below, g.isAside = false := fun hs => List.forall_mem_cons.1 (hs ▸ hm.frames)
  cases h with
  | @call a rest below top hs hgo htop =>
    obtain ⟨-, hframes⟩ := hbelow hs
    let u : Machine := { m with stack := top ++ Frame.script rest :: below, signal := .go }
    have hu : (u.happen (.called a)).Looped := by
      refine hm.same [.called a] rfl (by simp [Happening.start, Happening.news]) hm.cells ?_
      refine List.forall_mem_append.2 ⟨fun f hf => ?_, List.forall_mem_cons.2 ⟨rfl, hframes⟩⟩
      rw [htop f hf]
      rfl
    apply hu.effect (effect_perform _ a)
    rintro name rfl
    exact hmade name ((history_call _ _).mem List.mem_cons_self)
  | finish v hs => exact hm.same [] rfl (List.forall_mem_nil _) hm.cells (hbelow hs).2
  | @begin t rest taken below hs =>
    have hround : ({ m with stack := .round rest (taken + 1) :: below, signal := .go } : Machine).Looped :=
      hm.same [] rfl (List.forall_mem_nil _) hm.cells (List.forall_mem_cons.2 ⟨rfl, (hbelow hs).2⟩)
    exact hround.begin t
  | @gather f f' _ hs hf hf' =>
    refine hm.same [] rfl (List.forall_mem_nil _) hm.cells ?_
    refine List.forall_mem_cons.2 ⟨rfl, List.forall_mem_cons.2 ⟨?_, (hbelow hs).2⟩⟩
    cases f' <;> first | rfl | cases hf'
  | sleep => exact hm.same [] rfl (List.forall_mem_nil _) hm.cells (List.forall_mem_nil _)
  | @send o rest value answer _ hs =>
    refine hm.same [.accepted (.tell o value)] rfl (by simp [Happening.start, Happening.news]) hm.cells ?_
    exact List.forall_mem_cons.2 ⟨rfl, (hbelow hs).2⟩
  | @inform o rest value onLoop _ _ hs _ hclosed =>
    have hloop : onLoop = true := by
      cases onLoop with
      | false => cases (hbelow hs).1
      | true => rfl
    simp [hclosed hloop] at hopen
  | @record action _ v hs =>
    exact hm.same [.nested action v] rfl (by simp [Happening.start, Happening.news]) hm.cells (hbelow hs).2
  | resume hs => exact hm.same [] rfl (List.forall_mem_nil _) hm.cells (List.forall_mem_cons.2 (hbelow hs))
  | count n hs => exact hm.same [] rfl (List.forall_mem_nil _) hm.cells (List.forall_mem_cons.2 ⟨rfl, (hbelow hs).2⟩)
  | contain hs message =>
    refine hm.same [.log _] rfl (by simp [Happening.start, Happening.news]) hm.cells ?_
    exact List.forall_mem_cons.2 (hbelow hs)
  | unwind hs => exact hm.same [] rfl (List.forall_mem_nil _) hm.cells (hbelow hs).2

end Looped

theorem StepEffect.history (h : StepEffect m m') : m.history <:+ m'.history := by
  cases h with
  | @call a rest below top =>
    let u : Machine := { m with stack := top ++ Frame.script rest :: below, signal := .go }
    exact (List.suffix_cons (.called a) u.history).trans (history_call u a)
  | @begin t rest taken below =>
    let u : Machine := { m with stack := .round rest (taken + 1) :: below, signal := .go }
    obtain ⟨new, hnew, -⟩ := history_begin u t
    exact ⟨new, hnew.symm⟩
  | send | contain | record => exact List.suffix_cons _ m.history
  | inform => exact (List.suffix_cons _ m.history).trans (List.suffix_cons _ _)
  | _ => exact List.suffix_rfl

theorem Move.history (h : Move p m m') : m.history <:+ m'.history := by
  cases h with
  | act a =>
    let u : Machine := { m with signal := .go }
    exact (List.suffix_cons (.called a) u.history).trans (history_call u a)
  | step h => exact (stepEffect_of_step h).history

theorem Reached.looped (h : Reached p m) (hopen : m.loop.stopped = false)
    (hmade : ∀ name, Happening.called (.create name false) ∉ m.history) : m.Looped := by
  induction h with
  | refl => exact ⟨nofun, nofun, rfl⟩
  | @tail m m' _ hmove ih =>
    have hbefore := hmove.live hopen
    have hm := ih hbefore fun name hmem => hmade name (hmove.history.mem hmem)
    cases hmove with
    | act a hs ha =>
      have hcalled : ({ m with signal := .go }.happen (.called a)).Looped :=
        hm.same [.called a] rfl (by simp [Happening.start, Happening.news]) hm.cells hm.frames
      apply hcalled.effect (effect_perform _ a)
      rintro name rfl
      exact hmade name ((history_call _ _).mem List.mem_cons_self)
    | step h => exact hm.stepEffect (stepEffect_of_step h) hbefore hmade

def news (m : Machine) (r : Record) : List Task := Record.own (r.sendings.take m.begun.length)

variable {later earlier : List Happening} {r : Record}

theorem sendings_record (hmade : m.history = later ++ .called (.create name true) :: earlier)
    (hr : record name later earlier = r) : r.sendings.map (·.1) = m.accepted := by
  have hcall : [Happening.called (.create name true)].filterMap Happening.taken = [] := rfl
  rw [← hr, record, Record.sendings_after, accepted, hmade, List.reverse_append, List.reverse_cons,
    List.filterMap_append, List.filterMap_append, hcall, List.append_nil]
  simp [Function.comp_def]

/-- On a loop that is not stopped and that only its caller drives, a completion keeps the value that it was set to
first, and a call that sets it again is refused and changes nothing. No call that sets it or registers with it begins a
task or tells an observer. The news that are told of it are that value for its observers, each once, in the order of
registration: none before it is set, and all of them when no call is under way and the queue is empty. Nothing else is
told unless there was a completion without a loop. -/
theorem each_observer_once (h : Reached (fun a => !a.drives) m) (hopen : m.loop.stopped = false)
    (hmade : m.history = later ++ .called (.create name true) :: earlier) (hr : record name later earlier = r) :
    (r.held = true → ∀ c, m.Faces (.peek name) c →
      (c.call (.peek name)).signal = .done (r.value.elim .nothing .text)) ∧
    (r.held = true → r.value ≠ none → ∀ value c, m.Faces (.fulfil name value) c → ∃ line,
      c.call (.fulfil name value) =
        (c.happen (.called (.fulfil name value)) |>.happen (.log line) |>.finish (.flag false))) ∧
    (r.held = true → ∀ a c, a.subject = some name → m.Faces a c → (∃ m', (c.call a).Returns c.stack m') ∧
      ∀ u, (c.call a).Works c.stack u → u.begun = m.begun ∧ u.told = m.told) ∧
    m.begun = (r.sendings.take m.begun.length).map (·.1) ∧ ((m.news r).filterMap shown).Sublist m.told ∧
    ((∀ name', Happening.called (.create name' false) ∉ m.history) → m.told = m.begun.filterMap shown) ∧
    (r.value = none → m.news r = []) ∧
    (∀ value, r.value = some value → m.news r <+: r.observers.map (Task.tell · value)) ∧
    (∀ value, r.value = some value → m.stack = [] → m.loop.queue = [] →
      m.news r = r.observers.map (Task.tell · value)) := by
  obtain ⟨-, htracks⟩ := h.tracks hopen
  have hdelivers : Delivers r (m.cell name) m.toSend := hr ▸ htracks name later earlier hmade
  have hsendings := sendings_record hmade hr
  have horder := h.inOrder
  have hprefix : m.news r <+: Record.own r.sendings := ((List.take_prefix _ _).filter _).map _
  have hbegun : m.begun = (r.sendings.take m.begun.length).map (·.1) := by
    rw [List.map_take, hsendings, ← horder, List.take_left]
  refine ⟨?_, ?_, ?_, hbegun, ?_, fun hmade => (h.looped hopen hmade).told, ?_, ?_, ?_⟩
  · intro hheld c hc
    have hcell : (c.happen (.called (.peek name))).cell name = m.cell name := by
      rw [cell, cell, ← hc.cells]
      rfl
    show Signal.done ((((c.happen (.called (.peek name))).cell name).bind (·.completion.value)).elim .nothing .text) = _
    rw [hcell, hdelivers.cell hheld]
    rfl
  · intro hheld hvalue value c hc
    have hcell : (c.happen (.called (.fulfil name value))).cell name = m.cell name := by
      rw [cell, cell, ← hc.cells]
      rfl
    obtain ⟨old, hold⟩ := Option.ne_none_iff_exists'.1 hvalue
    refine ⟨Log.line .warn "Completion" (ascii "Completion fulfilled more than once, ignoring"), ?_⟩
    simp [call, perform, hcell, hdelivers.cell hheld, Completion.fulfil, hold, log]
  · intro hheld a c ha hc
    have hposting := hc.posting (hdelivers.cell hheld) rfl hopen ha
    exact ⟨hposting.returns, fun u hworks => ⟨(hposting.works hworks).begun, (hposting.works hworks).told⟩⟩
  · have hsublist : (m.news r).Sublist m.begun := hbegun ▸ List.filter_sublist.map _
    exact (hsublist.filterMap _).trans h.informs
  · intro hvalue
    rw [(hdelivers.unset hvalue).1] at hprefix
    exact List.prefix_nil.1 hprefix
  · intro value hvalue
    exact hprefix.trans ⟨_, hdelivers.sent value hvalue⟩
  · intro value hvalue hs hqueue
    have hall : r.sendings.length ≤ m.begun.length := by
      rw [← List.length_map (·.1), hsendings, ← horder]
      simp [waiting, inRounds, hs, hqueue]
    have hsend : m.toSend = [] := by rw [toSend, hs]
    have hsent := hdelivers.sent value hvalue
    simp only [hsend, ite_self, List.append_nil] at hsent
    rw [news, List.take_of_length_le hall, hsent]

/-- A completion was set when two observers waited for it, and the loop was driven. The first observer raises an
exception, and the second registers a third. -/
def threeObservers : Machine :=
  ({} : Machine).act (.create (ascii "a") true)
    |>.act (.onComplete (ascii "a") (ascii "1") [.raise []])
    |>.act (.onComplete (ascii "a") (ascii "2") [.onComplete (ascii "a") (ascii "3") []])
    |>.act (.fulfil (ascii "a") (ascii "v"))
    |>.act (.runUntilIdle 9)

theorem each_observer_once_raising :
    ∃ (m : Machine) (later : List Happening), Reached (fun a => !a.drives) m ∧ m.loop.stopped = false ∧
      m.history = later ++ [.called (.create (ascii "a") true)] ∧ m.stack = [] ∧ m.loop.queue = [] ∧
      (record (ascii "a") later []).observers.length = 3 ∧
      m.news (record (ascii "a") later []) = (record (ascii "a") later []).observers.map (Task.tell · (ascii "v")) := by
  have hreached : Reached (fun a => !a.drives) threeObservers :=
    .act (.act (.act (.act (.act .refl rfl rfl) rfl rfl) rfl rfl) rfl rfl) rfl rfl
  have hmade : threeObservers.history =
      threeObservers.history.dropLast ++ [.called (.create (ascii "a") true)] := rfl
  obtain ⟨-, -, -, -, -, -, -, -, hall⟩ := each_observer_once hreached rfl hmade rfl
  exact ⟨threeObservers, _, hreached, rfl, hmade, rfl, rfl, rfl, hall _ rfl rfl rfl⟩

end Machine

end Multiplex.Loop
