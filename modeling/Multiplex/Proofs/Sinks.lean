import Mathlib.Data.List.Basic
import Multiplex.Log.Operation

/-! What the log receives. Threshold, console and open file are each what the last call that sets them has set, whatever
was called in between. A line reaches the file that is open and the console that is on if the threshold of that moment
admits it, behind all that was there before. A flush or the end of the log shows the files as they are. -/
namespace Multiplex.Log

open Bytes

namespace Disk

variable {d : Disk} {name other : Bytes}

theorem lines_edit (d : Disk) (name other : Bytes) (change : List Line → List Line) :
    (d.edit name change).lines other = if name = other then (d.lines other).map change else d.lines other := by
  have hfind : (d.edit name change).files.find? (·.1 == other) =
      (d.files.find? (·.1 == other)).map fun f => if f.1 == name then (f.1, change f.2) else f := by
    rw [edit, List.find?_map]
    congr 2
    funext f
    exact congrArg (· == other) (show (if f.1 == name then (f.1, change f.2) else f).1 = f.1 by split <;> rfl)
  unfold lines
  rw [hfind]
  cases h : d.files.find? (·.1 == other) with
  | none => split <;> rfl
  | some f =>
    have hfound := List.find?_some h
    obtain rfl : f.1 = other := by simpa using hfound
    simp only [Option.map_some, beq_iff_eq, eq_comm (a := name)]
    split <;> rfl

theorem lines_touch (d : Disk) (name other : Bytes) :
    (d.touch name).lines other = if name = other then some ((d.lines other).getD []) else d.lines other := by
  unfold touch
  split
  · rename_i h
    obtain ⟨ls, hls⟩ := Option.isSome_iff_exists.1 h
    split
    · rename_i hname
      rw [← hname, hls]
      rfl
    · rfl
  · rename_i h
    have hmissing : d.files.find? (·.1 == name) = none := by
      rwa [Bool.not_eq_true, lines, Option.isSome_map, Option.isSome_eq_false_iff, Option.isNone_iff_eq_none] at h
    unfold lines
    rw [List.find?_append]
    split
    · rename_i hname
      rw [← hname, hmissing]
      simp
    · rename_i hname
      simp [hname]

end Disk

namespace Logger

namespace Operation

def newLevel : Operation → Option Level
  | .init level .. | .setLevel level => some level
  | .apply setup _ => Level.ofName setup.level
  | _ => none

def newConsole : Operation → Option Bool
  | .init _ _ console _ | .setConsole console => some console
  | .apply setup _ => (Level.ofName setup.level).map fun _ => setup.console
  | _ => none

def newSink : Operation → Option (Option Bytes)
  | .init _ file _ found => some (if file.isEmpty then none else found)
  | .apply setup found => (Level.ofName setup.level).map fun _ => if setup.file.isEmpty then none else found
  | .shutdown => some none
  | _ => none

def opened (op : Operation) : Option Bytes := op.newSink.join

theorem opened_eq_some_iff {op : Operation} {name : Bytes} :
    op.opened = some name ↔ op.newSink = some (some name) := Option.join_eq_some_iff

def line : Operation → Option Line
  | .log level source text | .logGuarded level source text => some (lineOf level source text)
  | _ => none

def direct : Operation → Operation
  | .logGuarded level source text => .log level source text
  | op => op

def lastly {α : Type} (view : Operation → Option α) (first : α) (ops : List Operation) : α :=
  ((ops.filterMap view).getLast?).getD first

/-- The lines of those calls that were made when something held of the operations before them. -/
def logged (p : List Operation → Line → Bool) (before : List Operation) : List Operation → List Line
  | [] => []
  | op :: ops => (op.line.filter (p before)).toList ++ logged p (before ++ [op]) ops

theorem lastly_cons {α : Type} (view : Operation → Option α) (first : α) (op : Operation) (ops : List Operation) :
    lastly view first (op :: ops) = lastly view ((view op).getD first) ops := by
  unfold lastly
  rw [List.filterMap_cons]
  cases view op with
  | none => rfl
  | some a => simp [List.getLast?_cons]

end Operation

open Operation

variable {g : Logger} {name : Bytes}

/-! What one operation does. -/

@[simp] theorem level_log (g : Logger) (l : Line) : (g.log l).level = g.level := by
  unfold log
  split <;> rfl

@[simp] theorem console_log (g : Logger) (l : Line) : (g.log l).console = g.console := by
  unfold log
  split <;> rfl

@[simp] theorem sink_log (g : Logger) (l : Line) : (g.log l).sink = g.sink := by
  unfold log
  split <;> rfl

theorem print_eq (p : Printed) (l : Line) :
    p.print l = ⟨p.outputs ++ ((some l).filter fun l => !l.isGrave).toList,
      p.errors ++ ((some l).filter Line.isGrave).toList⟩ := by
  unfold Printed.print
  cases hgrave : l.isGrave <;> simp [hgrave, Option.filter]

theorem printed_log (g : Logger) (l : Line) :
    (g.log l).printed = if g.console && g.isEnabled l.level then g.printed.print l else g.printed := by
  unfold log write
  cases g.isEnabled l.level <;> cases g.console <;> rfl

theorem outputs_log (g : Logger) (l : Line) :
    (g.log l).printed.outputs = g.printed.outputs ++
      ((some l).filter fun l => (g.console && g.isEnabled l.level) && !l.isGrave).toList := by
  rw [printed_log, print_eq]
  cases h : g.console && g.isEnabled l.level <;> simp [h, Option.filter]

theorem errors_log (g : Logger) (l : Line) :
    (g.log l).printed.errors = g.printed.errors ++
      ((some l).filter fun l => (g.console && g.isEnabled l.level) && l.isGrave).toList := by
  rw [printed_log, print_eq]
  cases h : g.console && g.isEnabled l.level <;> simp [h, Option.filter]

theorem lines_log (g : Logger) (l : Line) (name : Bytes) :
    (g.log l).disk.lines name = (g.disk.lines name).map
      (· ++ ((some l).filter fun l => g.sink == some name && g.isEnabled l.level).toList) := by
  by_cases henabled : g.isEnabled l.level = true
  · rw [log, if_pos henabled, write]
    cases hsink : g.sink with
    | none => simp
    | some file =>
      dsimp only
      rw [Disk.append, Disk.lines_edit]
      by_cases hname : file = name
      · simp [hname, henabled, Option.filter]
      · simp [hname, Option.filter]
  · rw [log, if_neg henabled]
    simp [henabled, Option.filter]

def adjust (op : Operation) (g : Logger) : Logger :=
  { g with level := op.newLevel.getD g.level, console := op.newConsole.getD g.console }

def reopen (sink : Option Bytes) (g : Logger) : Logger :=
  { g with
    sink
    disk := match sink with
      | some name => g.disk.touch name
      | none => g.disk
    held := 0 }

theorem lines_reopen (sink : Option Bytes) (g : Logger) (name : Bytes) :
    (g.reopen sink).disk.lines name =
      if sink = some name then some ((g.disk.lines name).getD []) else g.disk.lines name := by
  cases sink with
  | none => rfl
  | some file => simp [reopen, Disk.lines_touch]

theorem initAt_eq (g : Logger) (level : Level) (file : Bytes) (console : Bool) (found : Option Bytes) :
    g.initAt level file console found =
      (file.isEmpty || found.isSome,
        ({ g with level, console } : Logger).reopen (if file.isEmpty then none else found)) := by
  unfold initAt
  cases file with
  | nil => rfl
  | cons b file => cases found <;> rfl

theorem applyAt_of_named {s : Setup} {level : Level} (h : Level.ofName s.level = some level) (g : Logger)
    (found : Option Bytes) :
    g.applyAt s found =
      (if s.file.isEmpty || found.isSome then none else some ⟨.fileNotFound, ascii "Cannot open log file: " ++ s.file⟩,
        ({ g with level, console := s.console } : Logger).reopen (if s.file.isEmpty then none else found)) := by
  unfold applyAt
  rw [h]
  dsimp only
  rw [initAt_eq]
  cases s.file.isEmpty || found.isSome <;> rfl

theorem applyAt_of_unnamed {s : Setup} (h : Level.ofName s.level = none) (g : Logger) (found : Option Bytes) :
    g.applyAt s found = (some ⟨.configInvalidLogLevel, ascii "Invalid log level: " ++ s.level⟩, g) := by
  unfold applyAt
  rw [h]

theorem disk_log_of_closed (h : g.sink = none) (l : Line) : (g.log l).disk = g.disk := by
  unfold log write
  rw [h]
  split <;> rfl

inductive Does (g : Logger) (op : Operation) : Logger → Prop
  | log (l : Line) (hl : op.line = some l) (hset : op.newLevel = none ∧ op.newConsole = none ∧ op.newSink = none) :
      Does g op (g.log l)
  | reopen (sink : Option Bytes) (hl : op.line = none) (hs : op.newSink = some sink) :
      Does g op ((g.adjust op).reopen sink)
  | set (held : Nat) (hl : op.line = none) (hs : op.newSink = none) : Does g op { g.adjust op with held }

theorem does_perform (g : Logger) (op : Operation) : g.Does op (g.perform op) := by
  cases op with
  | init level file console found =>
    rw [perform, initAt_eq]
    exact .reopen _ rfl rfl
  | apply s found =>
    rw [perform]
    cases h : Level.ofName s.level with
    | none =>
      have hsame : { g.adjust (.apply s found) with held := g.held } = g := by simp [adjust, newLevel, newConsole, h]
      have hsink : newSink (.apply s found) = none := by simp [newSink, h]
      rw [applyAt_of_unnamed h]
      exact (congrArg (g.Does _) hsame).mp (.set g.held rfl hsink)
    | some level =>
      have hset : ({ g with level, console := s.console } : Logger) = g.adjust (.apply s found) := by
        simp [adjust, newLevel, newConsole, h]
      rw [applyAt_of_named h, hset]
      exact .reopen _ rfl (by simp [newSink, h])
  | setLevel level => exact .set g.held rfl rfl
  | setConsole console => exact .set g.held rfl rfl
  | log level source text => exact .log _ rfl ⟨rfl, rfl, rfl⟩
  | logGuarded level source text =>
    rw [perform, show g.logGuarded level _ = _ from logGuarded_eq_log g (lineOf level source text)]
    exact .log _ rfl ⟨rfl, rfl, rfl⟩
  | flush => exact .set 0 rfl rfl
  | shutdown => exact .reopen none rfl rfl
  | spill count => exact .set _ rfl rfl

namespace Does

variable {op : Operation} {g' : Logger}

theorem level (h : g.Does op g') : g'.level = op.newLevel.getD g.level := by
  cases h with
  | log l _ hset =>
    rw [hset.1, level_log]
    rfl
  | reopen | set => rfl

theorem console (h : g.Does op g') : g'.console = op.newConsole.getD g.console := by
  cases h with
  | log l _ hset =>
    rw [hset.2.1, console_log]
    rfl
  | reopen | set => rfl

theorem sink (h : g.Does op g') : g'.sink = op.newSink.getD g.sink := by
  cases h with
  | log l _ hset =>
    rw [hset.2.2, sink_log]
    rfl
  | reopen sink _ hs =>
    rw [hs]
    rfl
  | set held _ hs =>
    rw [hs]
    rfl

theorem outputs (h : g.Does op g') :
    g'.printed.outputs = g.printed.outputs ++
      (op.line.filter fun l => (g.console && g.isEnabled l.level) && !l.isGrave).toList := by
  cases h with
  | log l hl =>
    rw [hl]
    exact outputs_log g l
  | reopen _ hl | set _ hl =>
    rw [hl]
    exact (List.append_nil _).symm

theorem errors (h : g.Does op g') :
    g'.printed.errors = g.printed.errors ++
      (op.line.filter fun l => (g.console && g.isEnabled l.level) && l.isGrave).toList := by
  cases h with
  | log l hl =>
    rw [hl]
    exact errors_log g l
  | reopen _ hl | set _ hl =>
    rw [hl]
    exact (List.append_nil _).symm

theorem isSome_iff (h : g.Does op g') (name : Bytes) :
    (g'.disk.lines name).isSome = true ↔ (g.disk.lines name).isSome = true ∨ op.opened = some name := by
  rw [opened_eq_some_iff]
  cases h with
  | log l _ hset =>
    rw [lines_log, Option.isSome_map, hset.2.2]
    exact (or_iff_left nofun).symm
  | reopen sink _ hs =>
    rw [lines_reopen, hs, Option.some.injEq]
    split
    · rename_i hsink
      exact iff_of_true rfl (.inr hsink)
    · rename_i hsink
      exact (or_iff_left hsink).symm
  | set held _ hs =>
    rw [hs]
    exact (or_iff_left nofun).symm

theorem lines (h : g.Does op g') (hg : g.sink = some name → (g.disk.lines name).isSome = true) :
    (g'.disk.lines name).getD [] = (g.disk.lines name).getD [] ++
      (op.line.filter fun l => g.sink == some name && g.isEnabled l.level).toList := by
  cases h with
  | log l hl =>
    rw [lines_log, hl]
    cases hlines : g.disk.lines name with
    | some ls => rfl
    | none =>
      have hsink : g.sink ≠ some name := fun hsink => by simpa [hlines] using hg hsink
      simp [hsink, Option.filter]
  | reopen sink hl =>
    rw [lines_reopen, hl]
    refine Eq.trans ?_ (List.append_nil _).symm
    split <;> rfl
  | set held hl =>
    rw [hl]
    exact (List.append_nil _).symm

theorem disk_of_closed (h : g.Does op g') (hopened : g'.sink = none) (hopen : g.sink = none) : g'.disk = g.disk := by
  cases h with
  | log l => exact disk_log_of_closed hopen l
  | reopen sink =>
    obtain rfl : sink = none := hopened
    rfl
  | set => rfl

end Does

/-! What operations do one after the other. -/

def Sound (g : Logger) : Prop := ∀ name, g.sink = some name → (g.disk.lines name).isSome = true

theorem Does.sound {op : Operation} {g' : Logger} (h : g.Does op g') (hg : g.Sound) : g'.Sound := by
  intro name hsink
  rw [h.isSome_iff, opened_eq_some_iff]
  rw [h.sink] at hsink
  cases hnew : op.newSink with
  | none =>
    rw [hnew] at hsink
    exact .inl (hg name hsink)
  | some sink =>
    rw [hnew] at hsink
    exact .inr (congrArg some hsink)

theorem run_append (g : Logger) (before ops : List Operation) : g.run (before ++ ops) = (g.run before).run ops :=
  List.foldl_append

theorem sound_run (ops : List Operation) (hg : g.Sound) : (g.run ops).Sound := by
  induction ops generalizing g with
  | nil => exact hg
  | cons op ops ih => exact ih ((does_perform g op).sound hg)

theorem run_eq_lastly {α : Type} {f : Logger → α} {view : Operation → Option α}
    (hf : ∀ g op, f (g.perform op) = (view op).getD (f g)) (g : Logger) (ops : List Operation) :
    f (g.run ops) = lastly view (f g) ops := by
  induction ops generalizing g with
  | nil => rfl
  | cons op ops ih =>
    rw [lastly_cons, ← hf]
    exact ih (g.perform op)

/-- A place that keeps the lines that are let through holds after a run the lines of those calls that came when it kept
them. -/
theorem run_eq_logged {f : Logger → List Line} {keep : Logger → Line → Bool}
    (hf : ∀ g op, g.Sound → f (g.perform op) = f g ++ (op.line.filter (keep g)).toList) (hg : g.Sound)
    (before ops : List Operation) :
    f (g.run (before ++ ops)) = f (g.run before) ++ logged (fun before => keep (g.run before)) before ops := by
  -- What came before grows along, since it decides what a place keeps.
  induction ops generalizing before with
  | nil => simp [logged]
  | cons op ops ih =>
    have hnext : f (g.run (before ++ [op])) = f (g.run before) ++ (op.line.filter (keep (g.run before))).toList := by
      rw [run_append]
      exact hf _ op (sound_run before hg)
    rw [List.append_cons, ih, hnext, List.append_assoc]
    rfl

theorem isSome_lines_run_iff (g : Logger) (ops : List Operation) (name : Bytes) :
    ((g.run ops).disk.lines name).isSome = true ↔
      (g.disk.lines name).isSome = true ∨ ∃ op ∈ ops, op.opened = some name := by
  induction ops generalizing g with
  | nil => simp [run]
  | cons op ops ih =>
    have hrest := ih (g.perform op)
    rw [(does_perform g op).isSome_iff, or_assoc] at hrest
    rw [List.exists_mem_cons_iff]
    exact hrest

/-! What a reader finds. -/

theorem lines_visible_of_held (h : g.sink = none ∨ g.held = 0) (name : Bytes) :
    g.visible.lines name = g.disk.lines name := by
  unfold visible
  cases hsink : g.sink with
  | none => rfl
  | some file =>
    have hheld : g.held = 0 := h.resolve_left (by simp [hsink])
    dsimp only
    rw [hheld, Disk.withhold, Disk.lines_edit]
    split
    · simp
    · rfl

/-- What is found of a file at any time is the first part of it. -/
theorem prefix_of_visible {ls : List Line} (h : g.visible.lines name = some ls) :
    ∃ all, g.disk.lines name = some all ∧ ls <+: all := by
  unfold visible at h
  cases hsink : g.sink with
  | none =>
    rw [hsink] at h
    exact ⟨ls, h, List.prefix_rfl⟩
  | some file =>
    rw [hsink] at h
    dsimp only at h
    rw [Disk.withhold, Disk.lines_edit] at h
    split at h
    · obtain ⟨all, hall, rfl⟩ := Option.map_eq_some_iff.1 h
      exact ⟨all, hall, List.take_prefix _ _⟩
    · exact ⟨ls, h, List.prefix_rfl⟩

/-! A run from the start. -/

def start (d : Disk) : Logger := { disk := d }

def thresholdAfter (before : List Operation) : Level := lastly newLevel .info before

def consoleAfter (before : List Operation) : Bool := lastly newConsole true before

def sinkAfter (before : List Operation) : Option Bytes := lastly newSink none before

def toFile (name : Bytes) (before : List Operation) (l : Line) : Bool :=
  sinkAfter before == some name && (thresholdAfter before).admits l.level

def toConsole (before : List Operation) (l : Line) : Bool :=
  consoleAfter before && (thresholdAfter before).admits l.level

theorem sound_start (d : Disk) : (start d).Sound := nofun

theorem level_run_start (d : Disk) (ops : List Operation) : ((start d).run ops).level = thresholdAfter ops :=
  run_eq_lastly (fun g op => (does_perform g op).level) _ ops

theorem console_run_start (d : Disk) (ops : List Operation) : ((start d).run ops).console = consoleAfter ops :=
  run_eq_lastly (fun g op => (does_perform g op).console) _ ops

theorem sink_run_start (d : Disk) (ops : List Operation) : ((start d).run ops).sink = sinkAfter ops :=
  run_eq_lastly (fun g op => (does_perform g op).sink) _ ops

theorem getD_lines_run_start (d : Disk) (ops : List Operation) (name : Bytes) :
    (((start d).run ops).disk.lines name).getD [] = (d.lines name).getD [] ++ logged (toFile name) [] ops := by
  have hrun := run_eq_logged (f := fun g => (g.disk.lines name).getD [])
    (fun g op hg => (does_perform g op).lines (hg name)) (sound_start d) [] ops
  simp only [isEnabled, level_run_start, sink_run_start] at hrun
  exact hrun

theorem lines_run_start (d : Disk) (ops : List Operation) (name : Bytes) :
    ((start d).run ops).disk.lines name =
      if (d.lines name).isSome ∨ ∃ op ∈ ops, op.opened = some name then
        some ((d.lines name).getD [] ++ logged (toFile name) [] ops)
      else none := by
  have hthere := isSome_lines_run_iff (start d) ops name
  rw [← getD_lines_run_start]
  split
  · rename_i h
    obtain ⟨ls, hls⟩ := Option.isSome_iff_exists.1 (hthere.2 h)
    rw [hls]
    rfl
  · rename_i h
    exact Option.not_isSome_iff_eq_none.1 (mt hthere.1 h)

theorem outputs_run_start (d : Disk) (ops : List Operation) :
    ((start d).run ops).printed.outputs = logged (fun before l => toConsole before l && !l.isGrave) [] ops := by
  have hrun := run_eq_logged (f := fun g => g.printed.outputs) (fun g op _ => (does_perform g op).outputs)
    (sound_start d) [] ops
  simp only [isEnabled, level_run_start, console_run_start] at hrun
  exact hrun

theorem errors_run_start (d : Disk) (ops : List Operation) :
    ((start d).run ops).printed.errors = logged (fun before l => toConsole before l && l.isGrave) [] ops := by
  have hrun := run_eq_logged (f := fun g => g.printed.errors) (fun g op _ => (does_perform g op).errors)
    (sound_start d) [] ops
  simp only [isEnabled, level_run_start, console_run_start] at hrun
  exact hrun

theorem perform_direct (g : Logger) (op : Operation) : g.perform op.direct = g.perform op := by
  cases op with
  | logGuarded level source text => exact (logGuarded_eq_log g (lineOf level source text)).symm
  | _ => rfl

theorem run_direct (g : Logger) (ops : List Operation) : g.run (ops.map direct) = g.run ops := by
  unfold run
  rw [List.foldl_map]
  congr 1
  funext g op
  exact perform_direct g op

/-- The files and the console get exactly the lines that are for them, in the order of the calls. A file is found with
all of its lines, behind those that it held at the start, after a flush or at the end, and with the first of them at any
other time. A look at the threshold before a call changes nothing. -/
theorem run_sinks (d : Disk) (ops : List Operation) :
    (∀ last ∈ [Operation.flush, .shutdown], ∀ name, ((start d).run (ops ++ [last])).visible.lines name =
      if (d.lines name).isSome ∨ ∃ op ∈ ops, op.opened = some name then
        some ((d.lines name).getD [] ++ logged (toFile name) [] ops)
      else none) ∧
    (∀ name ls, ((start d).run ops).visible.lines name = some ls →
      ls <+: (d.lines name).getD [] ++ logged (toFile name) [] ops) ∧
    ((start d).run ops).printed.errors =
      logged (fun before l => toConsole before l && Level.warn.admits l.level) [] ops ∧
    ((start d).run ops).printed.outputs =
      logged (fun before l => toConsole before l && !Level.warn.admits l.level) [] ops ∧
    (start d).run (ops.map direct) = (start d).run ops := by
  refine ⟨fun last hlast name => ?_, fun name ls h => ?_, errors_run_start d ops, outputs_run_start d ops,
    run_direct _ ops⟩
  · rw [← lines_run_start, run_append]
    rcases List.mem_cons.1 hlast with rfl | hlast
    · exact lines_visible_of_held (g := ((start d).run ops).flush) (.inr rfl) name
    · obtain rfl := List.mem_singleton.1 hlast
      exact lines_visible_of_held (g := ((start d).run ops).shutdown) (.inl rfl) name
  · obtain ⟨all, hall, hprefix⟩ := prefix_of_visible h
    rw [← getD_lines_run_start, hall]
    exact hprefix

/-- A file is left for another that cannot be opened, and taken up again; what is logged in between goes to the
console. -/
example :
    let a := ascii "a.log"
    let l (text : String) (level : Level := .info) := lineOf level none (ascii text)
    let ops : List Operation := [.init .info a false (some a), .log .debug none (ascii "too low"),
      .log .info none (ascii "one"), .init .info (ascii "b/c.log") true none, .logGuarded .warn none (ascii "two"),
      .init .debug a false (some a), .log ⟨200⟩ none (ascii "three"), .shutdown]
    ((start ⟨[(a, [l "zero"])]⟩).run ops).visible.lines a = some [l "zero", l "one", l "three" ⟨200⟩] ∧
      ((start ⟨[(a, [l "zero"])]⟩).run ops).printed = ⟨[], [l "two" .warn]⟩ := by decide +kernel

end Logger

end Multiplex.Log
