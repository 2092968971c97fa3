/-!
# Text measured in bytes

A text is a list of characters, and every position in it counts the bytes of its UTF-8 form. A
position inside a character is not a place where the text can be cut, so cutting is partial. Lines
end at a line feed and nowhere else, which makes joining the exact inverse of splitting.
-/

namespace PlainC

abbrev Text := List Char

namespace Text

/-- The number of bytes of the UTF-8 form. -/
def byteLength : Text → Nat
  | [] => 0
  | c :: rest => c.utf8Size + byteLength rest

/-- Cuts a text behind its first `n` bytes. There is no cut inside a character or beyond the end. -/
def cut? : Nat → Text → Option (Text × Text)
  | 0, text => some ([], text)
  | _ + 1, [] => none
  | n + 1, c :: rest =>
    if c.utf8Size ≤ n + 1 then
      (cut? (n + 1 - c.utf8Size) rest).map fun (before, after) => (c :: before, after)
    else none

/-- The first `n` bytes. -/
def take? (n : Nat) (text : Text) : Option Text := (cut? n text).map Prod.fst

/-- What follows the first `n` bytes. -/
def drop? (n : Nat) (text : Text) : Option Text := (cut? n text).map Prod.snd

/-- The bytes from `start` up to and without `stop`. -/
def between? (start stop : Nat) (text : Text) : Option Text :=
  if start ≤ stop then do take? (stop - start) (← drop? start text) else none

/-- The pieces between occurrences of `mark`. There is one more piece than there are marks. -/
def split (mark : Char) : Text → List Text
  | [] => [[]]
  | c :: rest =>
    if c = mark then [] :: split mark rest
    else match split mark rest with
      | [] => [[c]]
      | piece :: others => (c :: piece) :: others

/-- Joins pieces with `separator` between them. -/
def join (separator : Text) : List Text → Text
  | [] => []
  | [piece] => piece
  | piece :: others => piece ++ separator ++ join separator others

/-- The pieces between line feeds. -/
def lines (text : Text) : List Text := split '\n' text

/-- Joins pieces by line feeds. -/
def joinLines (pieces : List Text) : Text := join ['\n'] pieces

/-- Drops one carriage return at the end. -/
def dropReturn (line : Text) : Text :=
  if line.getLast? = some '\r' then line.dropLast else line

/-- The rows of a printed text: a row ends at a line feed, possibly with a carriage return before it,
and the end of the text closes the last row only if there is something in it. -/
def rowsOfLines : List Text → List Text
  | [] => []
  | [last] => if last.isEmpty then [] else [last]
  | line :: others => dropReturn line :: rowsOfLines others

def rows (text : Text) : List Text := rowsOfLines (lines text)

/-- A number in decimal. -/
def ofNat (n : Nat) : Text := (Nat.repr n).toList

/-- Whether `part` occurs somewhere in the text. -/
def contains (part : Text) : Text → Bool
  | [] => part.isEmpty
  | c :: rest => part.isPrefixOf (c :: rest) || contains part rest

end Text

end PlainC
