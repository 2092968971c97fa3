import PlainC.Source
import PlainC.Token.Lexer

/-!
# Tokens in a source

The tokens of a span, each with the span of its own. A token ends at its last byte, so the place
of its end is that of its last character; if that character has several bytes then no position names
the end, and the tokens of the span have no answer.
-/

namespace PlainC

/-- A lexeme that is no trivia, with its place in a source text. -/
structure Token where
  kind : Option TokenKind
  spelling : Text
  span : Span
  deriving DecidableEq, Repr

/-- The spelling of a token whose end falls inside a character. -/
structure Misplaced where
  spelling : Text
  deriving DecidableEq, Repr

namespace Position

/-- The position reached behind one character. -/
def step (position : Position) (c : Char) : Position :=
  if c = '\n' then ⟨position.line + 1, 1⟩ else ⟨position.line, position.col + c.utf8Size⟩

/-- The position reached behind a text. -/
def after (position : Position) (text : Text) : Position := text.foldl step position

end Position

namespace Token

/-- The position of the last byte of a spelling that starts at `start`. -/
def lastPosition (start : Position) (spelling : Text) : Except Misplaced Position :=
  if spelling.getLast?.all fun c => c.utf8Size = 1 then .ok (start.after spelling.dropLast)
  else .error ⟨spelling⟩

/-- Places lexemes that follow each other from `start` on, and drops trivia. -/
def place (start : Position) : List Lexeme → Except Misplaced (List Token)
  | [] => .ok []
  | lexeme :: rest =>
    let next := start.after lexeme.text
    if lexeme.isTrivia then place next rest
    else do
      let last ← lastPosition start lexeme.text
      let others ← place next rest
      return ⟨lexeme.kind, lexeme.text, ⟨start, last⟩⟩ :: others

end Token

namespace Source

/-- The tokens of a span in order; none if the span addresses no text. -/
def tokens (source : Source) (span : Span) : Except Misplaced (List Token) :=
  match source.extract? span with
  | none => .ok []
  | some text => Token.place span.first (lex text)

/-- Whether the byte behind `col` bytes of a line is a space or a tab. -/
def blankFollows (source : Source) (line col : Nat) : Bool :=
  match source.line? line >>= Text.drop? col with
  | some (c :: _) => c = ' ' || c = '\t'
  | _ => false

/-- Deletes what a span within one line covers, and one space or tab directly behind it. -/
def deleteToken? (source : Source) (span : Span) : Option Source :=
  if span.isWithinLine then
    let last :=
      if source.blankFollows span.first.line span.last.col then span.last.col + 1
      else span.last.col
    source.deleteColumns? span.first.line span.first.col last
  else none

end Source

end PlainC
