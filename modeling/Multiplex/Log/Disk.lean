import Multiplex.Log.Line

/-! Log files. They lie in one directory that holds nothing else, so a path leads to a file if all but its last
part stay where they are. A file is kept as its log lines; whoever reads it finds lines of text. -/
namespace Multiplex.Log

open Bytes

structure Disk where
  files : List (Bytes × List Line) := []
  deriving DecidableEq

namespace Disk

def maxPath : Nat := 4095
def maxName : Nat := 255

def stays (part : Bytes) : Bool := part.isEmpty || part == ascii "."

def leadsUp (part : Bytes) : Bool := part == ascii ".."

def isName (part : Bytes) : Bool := !stays part && !leadsUp part && part.length ≤ maxName

def isTooLong (path : Bytes) : Bool := maxPath < (untilNul path).length

def parts (path : Bytes) : List Bytes := (untilNul path).splitOnP (· == 47)

def locate (path : Bytes) : Option Bytes :=
  if path.head? = some 47 ∨ isTooLong path then none
  else
    match (parts path).reverse with
    | name :: directories => if isName name && directories.all stays then some name else none
    | [] => none

theorem isName_of_locate {path name : Bytes} (h : locate path = some name) : isName name = true := by
  unfold locate at h
  split at h
  · contradiction
  · split at h
    · split at h
      next hn => exact Option.some.inj h ▸ (Bool.and_eq_true_iff.1 hn).1
      next => contradiction
    · contradiction

def isDirectory (path : Bytes) : Bool :=
  !(untilNul path).isEmpty && !isTooLong path && (parts path).all fun part => stays part || leadsUp part

def lines (d : Disk) (name : Bytes) : Option (List Line) := (d.files.find? (·.1 == name)).map (·.2)

def touch (d : Disk) (name : Bytes) : Disk :=
  if (d.lines name).isSome then d else ⟨d.files ++ [(name, [])]⟩

def edit (d : Disk) (name : Bytes) (change : List Line → List Line) : Disk :=
  ⟨d.files.map fun f => if f.1 == name then (f.1, change f.2) else f⟩

def append (d : Disk) (name : Bytes) (l : Line) : Disk := d.edit name (· ++ [l])

/-- The files when the last lines of one of them are yet to be written out. -/
def withhold (d : Disk) (name : Bytes) (count : Nat) : Disk := d.edit name fun ls => ls.take (ls.length - count)

def read (d : Disk) (path : Bytes) : Option (List Line) :=
  match locate path with
  | some name => d.lines name
  | none => if isDirectory path then some [] else none

end Disk

/-- The form of the time in front of a line; a zero stands for any digit. -/
def timeForm : Bytes := ascii "[0000-00-00 00:00:00] "

def afterForm : Bytes → Bytes → Option Bytes
  | [], text => some text
  | _ :: _, [] => none
  | p :: form, b :: text =>
    if p = b ∨ p = 48 ∧ isDigit b then afterForm form text else none

theorem afterForm_append (form text : Bytes) : afterForm form (form ++ text) = some text := by
  induction form with
  | nil => rfl
  | cons p form ih => simp [afterForm, ih]

/-- Lines of text, each with whether it began with a time, which is left out. Log lines do; what follows a line
break in a message does only if it looks like it. -/
def textLines (ls : List Line) : List (Bool × Bytes) :=
  ls.flatMap fun l =>
    match l.text.splitOnP (· == 10) with
    | [] => []
    | first :: rest =>
      (true, first) :: rest.map fun text => ((afterForm timeForm text).map fun t => (true, t)).getD (false, text)

end Multiplex.Log
