import PlainC.Text
import PlainC.Span

/-!
# Sources

A source is held as its lines, and an edit only ever shortens lines. So a line keeps its number through
any number of edits, and a span taken before an edit still names the right lines after it. Columns
count bytes, and an edit that would cut a character is refused.
-/

namespace PlainC

structure Source where
  lines : List Text
  deriving DecidableEq, Repr

namespace Source

def ofText (text : Text) : Source := ⟨Text.lines text⟩

def toText (source : Source) : Text := Text.joinLines source.lines

def lineCount (source : Source) : Nat := source.lines.length

/-- The line with a number counted from one. -/
def line? (source : Source) : Nat → Option Text
  | 0 => none
  | n + 1 => source.lines[n]?

/-- Empties the lines numbered `first` to `last`; numbers beyond the text name nothing. -/
def clearLines (source : Source) (first last : Nat) : Source :=
  ⟨source.lines.mapIdx fun i line => if first ≤ i + 1 ∧ i + 1 ≤ last then [] else line⟩

def clearLine (source : Source) (line : Nat) : Source := source.clearLines line line

/-- Empties every line that a span touches. -/
def clear (source : Source) (span : Span) : Source :=
  source.clearLines span.first.line span.last.line

/-- A line without its bytes in the columns `first` to `last`. -/
def withoutColumns? (line : Text) : (first last : Nat) → Option Text
  | 0, _ => none
  | start + 1, last =>
    if start ≤ last then do
      return (← Text.take? start line) ++ (← Text.drop? last line)
    else none

/-- Deletes the columns `first` to `last` of a line. The edit is refused when the range is out of
bounds, reversed or cuts a character. -/
def deleteColumns? (source : Source) (line first last : Nat) : Option Source := do
  let edited ← withoutColumns? (← source.line? line) first last
  return ⟨source.lines.set (line - 1) edited⟩

/-- The text that a span addresses, with line feeds between its lines. -/
def extract? (source : Source) (span : Span) : Option Text := do
  let first ← source.line? span.first.line
  let last ← source.line? span.last.line
  match span.first.col with
  | 0 => none
  | start + 1 =>
    if span.first.line = span.last.line then
      Text.between? start span.last.col first
    else if span.first.line < span.last.line then do
      let head ← Text.drop? start first
      let tail ← Text.take? span.last.col last
      let inner := (source.lines.take (span.last.line - 1)).drop span.first.line
      return Text.joinLines (head :: inner ++ [tail])
    else none

end Source

end PlainC
