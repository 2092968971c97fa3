import PlainC.Text

/-!
# Log levels

A level lets through the records of its own rank and of the ranks before it.
-/

namespace PlainC

inductive LogLevel where
  | error
  | warn
  | info
  | debug
  | trace
  deriving DecidableEq, Repr

namespace LogLevel

def rank : LogLevel → Nat
  | error => 0
  | warn => 1
  | info => 2
  | debug => 3
  | trace => 4

def name : LogLevel → Text
  | error => "error".toList
  | warn => "warn".toList
  | info => "info".toList
  | debug => "debug".toList
  | trace => "trace".toList

def all : List LogLevel := [error, warn, info, debug, trace]

def ofName? (name : Text) : Option LogLevel := all.find? fun level => level.name = name

/-- The level where none is set. -/
def standard : LogLevel := info

/-- The directive that limits the records of this program to the level. -/
def filter (level : LogLevel) : Text := "c_normalizer=".toList ++ level.name

/-- Whether records of level `other` are let through. -/
def admits (level other : LogLevel) : Bool := other.rank ≤ level.rank

end LogLevel

end PlainC
