import Multiplex.Fault
import Multiplex.Log.Disk

/-! The logger: a threshold, a console that may be switched off, and at most one open file. Opening a file that
exists continues it. What went to each of the two streams of the console and what was logged to the files is kept here,
in the order of the calls; the open file may yet hold back its last lines. -/
namespace Multiplex.Log

open Bytes

structure Printed where
  outputs : List Line := []
  errors : List Line := []
  deriving DecidableEq

def Printed.print (p : Printed) (l : Line) : Printed :=
  if l.isGrave then { p with errors := p.errors ++ [l] } else { p with outputs := p.outputs ++ [l] }

structure Logger where
  level : Level := .info
  console : Bool := true
  sink : Option Bytes := none
  disk : Disk := {}
  /-- How many of the last lines of the open file wait to be written out. -/
  held : Nat := 0
  printed : Printed := {}
  deriving DecidableEq

structure Setup where
  level : Bytes := ascii "INFO"
  file : Bytes := []
  console : Bool := true
  deriving DecidableEq

namespace Logger

/-- Threshold and console change and the open file is closed even if the new file cannot be opened. Which file is
opened for the name that is given, if any is, is up to the system. -/
def initAt (g : Logger) (level : Level) (file : Bytes) (console : Bool) (found : Option Bytes) : Bool × Logger :=
  let g := { g with level, console, sink := none, held := 0 }
  if file.isEmpty then (true, g)
  else
    match found with
    | some name => (true, { g with sink := some name, disk := g.disk.touch name })
    | none => (false, g)

def init (g : Logger) (level : Level) (file : Bytes) (console : Bool) : Bool × Logger :=
  g.initAt level file console (Disk.locate file)

def setLevel (g : Logger) (level : Level) : Logger := { g with level }

def setConsole (g : Logger) (console : Bool) : Logger := { g with console }

def isEnabled (g : Logger) (level : Level) : Bool := g.level.admits level

def write (g : Logger) (l : Line) : Logger :=
  { g with
    printed := if g.console then g.printed.print l else g.printed
    disk := match g.sink with
      | some file => g.disk.append file l
      | none => g.disk
    -- a grave line is written out at once, with all that waited before it
    held := if g.sink.isNone || l.isGrave then 0 else g.held + 1 }

def log (g : Logger) (l : Line) : Logger := if g.isEnabled l.level then g.write l else g

/-- A call that looks at the threshold before it forms the line. -/
def logGuarded (g : Logger) (level : Level) (l : Unit → Line) : Logger :=
  if g.isEnabled level then g.log (l ()) else g

def logNamed (g : Logger) (level : Level) (l : Unit → Line) : Logger :=
  if level.isNamed then g.logGuarded level l else g

def flush (g : Logger) : Logger := { g with held := 0 }

def shutdown (g : Logger) : Logger := { g with sink := none, held := 0 }

def visible (g : Logger) : Disk :=
  match g.sink with
  | some file => g.disk.withhold file g.held
  | none => g.disk

/-- Follows a setup; an unknown level changes nothing. -/
def applyAt (g : Logger) (s : Setup) (found : Option Bytes) : Option Fault × Logger :=
  match Level.ofName s.level with
  | none => (some ⟨.configInvalidLogLevel, ascii "Invalid log level: " ++ s.level⟩, g)
  | some level =>
    match g.initAt level s.file s.console found with
    | (true, g) => (none, g)
    | (false, g) => (some ⟨.fileNotFound, ascii "Cannot open log file: " ++ s.file⟩, g)

def apply (g : Logger) (s : Setup) : Option Fault × Logger := g.applyAt s (Disk.locate s.file)

theorem logGuarded_eq_log (g : Logger) (l : Line) : g.logGuarded l.level (fun _ => l) = g.log l := by
  unfold logGuarded log
  cases g.isEnabled l.level <;> simp

theorem logNamed_eq_log (g : Logger) (l : Line) (h : l.level.isNamed = true) :
    g.logNamed l.level (fun _ => l) = g.log l := by
  rw [logNamed, if_pos h, logGuarded_eq_log]

end Logger

end Multiplex.Log
