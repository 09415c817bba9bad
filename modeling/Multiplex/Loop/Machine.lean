import Multiplex.Completion
import Multiplex.Log.Line
import Multiplex.Loop
import Multiplex.Loop.Action

/-! A loop at work, one step at a time. Actions that take effect at once answer at once; those that run other
actions put a frame on the stack. An exception takes frames off the stack until it meets a round of the loop, which
notes it and goes on. Every step makes the work that is left smaller, so every action comes to an end. -/
namespace Multiplex.Loop

open Bytes

inductive Frame where
  /-- The rest of a task or observer. -/
  | script (rest : List Action)
  /-- An action inside a task, whose answer is written down. -/
  | recording (action : String)
  /-- A round: the tasks it has still to run, and how many it has begun. -/
  | round (rest : List Task) (taken : Nat)
  /-- Rounds until the loop is idle: how many may follow, and the tasks so far. -/
  | rounds (left total : Nat)
  /-- The loop running until it is stopped, perhaps on a thread of its own. -/
  | running (onThread : Bool)
  /-- The last round of a loop that was running. -/
  | lastRound (onThread : Bool)
  /-- Observers still to be told a value, and the answer when all are. -/
  | telling (rest : List Observer) (value : Bytes) (onLoop : Bool) (answer : Value)

inductive Signal where
  | go
  | done (v : Value)
  | raised (text : Bytes)
  /-- Waiting for a task that no one will post. -/
  | asleep

/-- What happened, in terms of the tasks of the loop and of what they show. -/
inductive Happening where
  | note (text : Bytes)
  /-- An action is taken up, by the caller or by a task. -/
  | called (action : Action)
  | told (label value : Bytes)
  | nested (action : String) (answer : Value)
  | accepted (task : Task)
  | began (task : Task)
  | log (line : Log.Line)

structure Cell where
  completion : Completion Observer Bytes := {}
  onLoop : Bool

structure Machine where
  loop : Loop Task := {}
  started : Bool := false
  /-- The thread that the loop belongs to, as a depth of threads started within each other. -/
  owner : Nat := 0
  cells : List (Bytes × Cell) := []
  stack : List Frame := []
  signal : Signal := .go
  /-- The newest first. -/
  history : List Happening := []

namespace Machine

def happen (m : Machine) (h : Happening) : Machine := { m with history := h :: m.history }

def log (m : Machine) (level : Log.Level) (source : String) (message : Bytes) : Machine :=
  m.happen (.log (Log.line level source message))

def push (m : Machine) (f : Frame) : Machine := { m with stack := f :: m.stack, signal := .go }

def finish (m : Machine) (v : Value) : Machine := { m with signal := .done v }

def thread (m : Machine) : Nat :=
  m.stack.countP fun
    | .running true | .lastRound true => true
    | _ => false

def cell (m : Machine) (name : Bytes) : Option Cell := (m.cells.find? (·.1 == name)).map (·.2)

def remove (m : Machine) (name : Bytes) : Machine := { m with cells := m.cells.filter (·.1 != name) }

def store (m : Machine) (name : Bytes) (c : Cell) : Machine :=
  { m with cells := (name, c) :: m.cells.filter (·.1 != name) }

def beginRound (m : Machine) : Machine :=
  { m with loop := m.loop.emptied }.push (.round m.loop.queue 0)

def beginRunning (m : Machine) (onThread : Bool) : Machine :=
  let m := m.push (.running onThread)
  { m with owner := m.thread, started := true }

def post (m : Machine) (t : Task) : Option Machine :=
  (m.loop.post t).map fun loop => { m with loop }.happen (.accepted t)

def perform (m : Machine) : Action → Machine
  | .note text => m.happen (.note text) |>.finish .nothing
  | .raise text => { m with signal := .raised (untilNul text) }
  | .post task =>
    match m.post (.actions task) with
    | some m => m.finish (.flag true)
    | none => m.finish (.flag false)
  | .postNothing => m.finish (.flag true)
  | .runPending => m.beginRound
  | .runUntilIdle rounds => m.push (.rounds rounds 0)
  | .run => m.beginRunning false
  | .runOnThread => m.beginRunning true
  | .stop => { m with loop := m.loop.stop }.finish .nothing
  | .isStopped => m.finish (.flag m.loop.stopped)
  | .pendingCount => m.finish (.count m.loop.queue.length)
  | .inLoopThread => m.finish (.flag (m.thread == m.owner))
  | .inLoopThreadFromOther => m.finish (.flag (m.thread + 1 == m.owner))
  | .waitForStarted => m.finish (.flag m.started)
  | .create name onLoop => m.store name { onLoop } |>.finish .nothing
  | .drop name => m.remove name |>.finish .nothing
  | .onComplete name label andThen =>
    match m.cell name with
    | none => m.finish .nothing
    | some c =>
      match c.completion.observe ⟨label, andThen⟩ with
      | (none, completion) => m.store name { c with completion } |>.finish .nothing
      | (some value, _) => m.push (.telling [⟨label, andThen⟩] value c.onLoop .nothing)
  | .onCompleteNothing _ => m.finish .nothing
  | .fulfil name value =>
    match m.cell name with
    | none => m.finish .nothing
    | some c =>
      match c.completion.fulfil value with
      | none =>
        m.log .warn "Completion" (ascii "Completion fulfilled more than once, ignoring") |>.finish (.flag false)
      | some (os, completion) =>
        m.store name { c with completion } |>.push (.telling os value c.onLoop (.flag true))
  | .isFulfilled name => m.finish ((m.cell name).elim .nothing fun c => .flag c.completion.isFulfilled)
  | .peek name => m.finish (((m.cell name).bind (·.completion.value)).elim .nothing .text)
  | .observerCount name => m.finish ((m.cell name).elim .nothing fun c => .count c.completion.observers.length)

def call (m : Machine) (a : Action) : Machine := m.happen (.called a) |>.perform a

def inform (m : Machine) (o : Observer) (value : Bytes) : Machine :=
  m.happen (.told o.label value) |>.push (.script o.andThen)

def begin (m : Machine) (t : Task) : Machine :=
  match t with
  | .actions list => m.happen (.began t) |>.push (.script list)
  | .tell o value => m.happen (.began t) |>.inform o value

/-- Tells an observer through the loop, or now if there is no loop to do it. -/
def deliver (m : Machine) (o : Observer) (value : Bytes) (onLoop : Bool) : Machine :=
  match if onLoop then m.post (.tell o value) else none with
  | some m => m
  | none =>
    m.log .warn "Completion" (ascii "Event loop unavailable, notifying observer inline") |>.inform o value

def resume (m : Machine) : Frame → Machine
  | .script [] => m.finish .nothing
  | .script (.note text :: rest) => m.push (.script rest) |>.call (.note text)
  | .script (a :: rest) => m.push (.script rest) |>.push (.recording a.name) |>.call a
  | .recording _ => m.finish .nothing
  | .round [] taken => m.finish (.count taken)
  | .round (t :: rest) taken => m.push (.round rest (taken + 1)) |>.begin t
  | .rounds left total =>
    match left with
    | 0 => m.finish (.count total)
    | left + 1 =>
      if m.loop.queue.isEmpty then m.finish (.count total)
      else m.push (.rounds left total) |>.beginRound
  | .running onThread =>
    if m.loop.stopped then m.push (.lastRound onThread) |>.beginRound
    else if m.loop.queue.isEmpty then { m with stack := [], signal := .asleep }
    else m.push (.running onThread) |>.beginRound
  | .lastRound _ => m.finish .returned
  | .telling [] _ _ answer => m.finish answer
  | .telling (o :: rest) value onLoop answer =>
    m.push (.telling rest value onLoop answer) |>.deliver o value onLoop

def accept (m : Machine) (v : Value) : Frame → Machine
  | .recording action => { m.happen (.nested action v) with signal := .go }
  | .rounds left total =>
    match v with
    | .count n => m.push (.rounds left (total + n))
    | _ => m.push (.rounds left total)
  | .lastRound _ => m.finish .returned
  | f => m.push f

def unwind (m : Machine) (text : Bytes) : Frame → Machine
  | .round rest taken =>
    m.log .error "EventLoop" (ascii "Task threw exception: " ++ text) |>.push (.round rest taken)
  | _ => m

def step (m : Machine) : Option Machine :=
  match m.stack with
  | [] => none
  | f :: stack =>
    let m' : Machine := { m with stack }
    match m.signal with
    | .go => some (m'.resume f)
    | .done v => some (m'.accept v f)
    | .raised text => some (m'.unwind text f)
    | .asleep => none

def runFor : Nat → Machine → Machine
  | 0, m => m
  | n + 1, m =>
    match m.step with
    | none => m
    | some m => runFor n m

end Machine

def Observer.weight (o : Observer) : Nat := Action.weightAll o.andThen

def Task.weight (t : Task) : Nat := Action.weightAll t.script

def Frame.weight : Frame → Nat
  | script rest => Action.weightAll rest + 2
  | recording _ => 2
  | round rest _ => (rest.map fun t => t.weight + 3).foldr (· + ·) 0 + 2
  | rounds _ _ => 2
  | running _ => 5
  | lastRound _ => 2
  | telling rest _ _ _ => (rest.map fun o => o.weight + 8).foldr (· + ·) 0 + 2

def Signal.weight : Signal → Nat
  | done _ | raised _ => 1
  | go | asleep => 0

def Cell.weight (c : Cell) : Nat := (c.completion.observers.map fun o => o.weight + 8).foldr (· + ·) 0

namespace Machine

/-- A bound on the number of steps that a machine takes. -/
def weight (m : Machine) : Nat :=
  m.signal.weight + (m.stack.map Frame.weight).foldr (· + ·) 0
    + (m.loop.queue.map fun t => t.weight + 6).foldr (· + ·) 0 + (m.cells.map fun c => c.2.weight).foldr (· + ·) 0

def settle (m : Machine) : Machine := m.runFor m.weight

end Machine

end Multiplex.Loop
