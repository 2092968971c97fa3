import PlainC.Text

/-!
# TOML values

A document is a table of values. A table remembers how it came to be, for that decides what may still
be added to it: a table that a longer header or a dotted key only implied is open, one that a header
or braces defined is not.
-/

namespace PlainC

namespace Toml

/-- How a table came to be. -/
inductive Origin where
  /-- By a header of its own. -/
  | header
  /-- By a header of a table inside it. -/
  | implied
  /-- By a dotted key. -/
  | dotted
  /-- Between braces. -/
  | braces
  deriving DecidableEq, Repr

/-- Numbers other than integers, dates and times are known as such; nothing asks for their values. -/
inductive Value where
  | string (text : Text)
  | integer (value : Int)
  | float
  | bool (value : Bool)
  | dateTime
  | array (items : List Value)
  | table (origin : Origin) (entries : List (Text × Value))
  /-- The tables of repeated headers. -/
  | tables (elements : List (List (Text × Value)))

/-- The keys of a table with their values, each key once. -/
abbrev Entries := List (Text × Value)

namespace Entries

def get? (entries : Entries) (key : Text) : Option Value :=
  (entries.find? fun entry => entry.1 = key).map Prod.snd

def erase (entries : Entries) (key : Text) : Entries := entries.filter fun entry => entry.1 ≠ key

/-- Gives a key its value. A key that is there keeps its place; a new one comes last. -/
def set (entries : Entries) (key : Text) (value : Value) : Entries :=
  if (entries.get? key).isSome then
    entries.map fun entry => if entry.1 = key then (key, value) else entry
  else entries ++ [(key, value)]

/-- Adds a key behind a dotted path. Tables on the way are made, or were implied; the last of them was
made by dotted keys, which `isOpen` says of the table at hand. -/
def insert? (path : List Text) (key : Text) (value : Value) (isOpen : Bool) (entries : Entries) :
    Option Entries :=
  match path with
  | [] =>
    if isOpen && (entries.get? key).isNone then some (entries.set key value) else none
  | step :: path =>
    match entries.get? step with
    | none => do
      let inner ← insert? path key value true []
      return entries.set step (.table .dotted inner)
    | some (.table .implied inner) => do
      let inner ← insert? path key value false inner
      return entries.set step (.table .implied inner)
    | some (.table .dotted inner) => do
      let inner ← insert? path key value true inner
      return entries.set step (.table .dotted inner)
    | some (.tables elements) => do
      let last ← elements.getLast?
      let last ← insert? path key value false last
      return entries.set step (.tables (elements.dropLast ++ [last]))
    | some _ => none

/-- Changes the table that the path of a header leads to. Tables on the way that are missing are
implied; a repeated table stands for its last element. -/
def modify? (change : Entries → Option Entries) : List Text → Entries → Option Entries
  | [], entries => change entries
  | step :: path, entries =>
    match entries.get? step with
    | none => do
      let inner ← modify? change path []
      return entries.set step (.table .implied inner)
    | some (.table origin inner) =>
      if origin = .braces then none
      else do
        let inner ← modify? change path inner
        return entries.set step (.table origin inner)
    | some (.tables elements) => do
      let last ← elements.getLast?
      let last ← modify? change path last
      return entries.set step (.tables (elements.dropLast ++ [last]))
    | some _ => none

end Entries

end Toml

end PlainC
