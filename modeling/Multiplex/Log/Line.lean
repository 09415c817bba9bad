import Multiplex.Bytes

/-! Log lines. A message is what a bounded buffer holds of it: it ends before a zero byte and after 4095 bytes. -/
namespace Multiplex.Log

open Bytes

/-- Severity, as a rank that grows with it. Ranks above the four named ones have no name. -/
structure Level where
  rank : UInt8
  deriving DecidableEq, Inhabited

namespace Level

def debug : Level := ⟨0⟩
def info : Level := ⟨1⟩
def warn : Level := ⟨2⟩
def error : Level := ⟨3⟩

def names : List String := ["DEBUG", "INFO", "WARN", "ERROR"]

def name (l : Level) : String := names.getD l.rank.toNat "UNKNOWN"

def isNamed (l : Level) : Bool := l.rank.toNat < names.length

def ofName (text : Bytes) : Option Level :=
  if text = ascii "DEBUG" then some debug
  else if text = ascii "INFO" then some info
  else if text = ascii "WARN" then some warn
  else if text = ascii "ERROR" then some error
  else none

theorem ofName_isSome_iff {text : Bytes} : (ofName text).isSome ↔ text ∈ names.map ascii := by
  unfold ofName
  repeat' split
  all_goals simp_all [names]

def admits (threshold l : Level) : Bool := threshold.rank ≤ l.rank

theorem admits_iff {threshold l : Level} : threshold.admits l = true ↔ threshold.rank ≤ l.rank := by
  simp [admits]

end Level

structure Line where
  level : Level
  source : Bytes
  message : Bytes
  deriving DecidableEq

def maxMessage : Nat := 4095

def line (level : Level) (source : String) (message : Bytes) : Line :=
  ⟨level, ascii source, message.take maxMessage⟩

/-- A line with a caller's text as its only argument; a caller may leave itself unnamed. -/
def lineOf (level : Level) (source : Option Bytes) (text : Bytes) : Line :=
  ⟨level, (source.map untilNul).getD (ascii "unknown"), (untilNul text).take maxMessage⟩

namespace Line

def text (l : Line) : Bytes :=
  ascii "[" ++ ascii l.level.name ++ ascii "] [" ++ l.source ++ ascii "] " ++ l.message

def isGrave (l : Line) : Bool := Level.warn.admits l.level

end Line

theorem length_message_line (level : Level) (source : String) (message : Bytes) :
    (line level source message).message.length ≤ maxMessage :=
  List.length_take_le maxMessage message

end Multiplex.Log
