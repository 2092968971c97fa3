import PlainC.Token

/-!
# Lexing

A text is cut into lexemes from left to right. Each is the longest beginning of what remains that some
rule describes, with the kind of the first such rule. Where no rule describes a beginning, the lexeme
has no kind and is the longest beginning that could still have become a token, one character at
least. Nothing is dropped: the lexemes of a text joined together are the text.
-/

namespace PlainC

/-- A piece of text with its kind, if it has one, and the byte at which it starts. -/
structure Lexeme where
  kind : Option TokenKind
  text : Text
  start : Nat
  deriving DecidableEq, Repr

namespace Lexeme

/-- The byte behind the last one. -/
def stop (lexeme : Lexeme) : Nat := lexeme.start + Text.byteLength lexeme.text

def isTrivia (lexeme : Lexeme) : Bool := lexeme.kind.any TokenKind.isTrivia

end Lexeme

namespace Lexer

/-- What is known of the beginnings of a text: the length of the longest one that is described with
its kind, and the length of the longest one that can grow into one that is. -/
structure Reach where
  longest : Option (TokenKind × Nat)
  viable : Nat

/-- The kind of the first rule that is satisfied already. -/
def accepted (rules : List (TokenKind × Pattern)) : Option TokenKind :=
  (rules.find? fun (_, pattern) => pattern.nullable).map Prod.fst

/-- What is left of the rules behind `c`. -/
def step (rules : List (TokenKind × Pattern)) (c : Char) : List (TokenKind × Pattern) :=
  (rules.map fun (kind, pattern) => (kind, pattern.derive c)).filter fun (_, pattern) =>
    pattern.viable

def reach (rules : List (TokenKind × Pattern)) : Text → Reach
  | [] => ⟨(accepted rules).map (·, 0), 0⟩
  | c :: rest =>
    let here := (accepted rules).map (·, 0)
    match step rules c with
    | [] => ⟨here, 0⟩
    | next =>
      let beyond := reach next rest
      ⟨(beyond.longest.map fun (kind, n) => (kind, n + 1)).or here, beyond.viable + 1⟩

/-- The kind of the first lexeme of a text and the number of its characters. -/
def munch (text : Text) : Option TokenKind × Nat :=
  let reached := reach Token.rules text
  match reached.longest with
  | some (kind, n + 1) => (some kind, n + 1)
  | _ => (none, max 1 reached.viable)

/-- The lexemes of a text of at most `fuel` characters that starts at byte `start`. -/
def lexFrom : (fuel start : Nat) → Text → List Lexeme
  | 0, _, _ => []
  | _, _, [] => []
  | fuel + 1, start, text =>
    let (kind, n) := munch text
    let lexeme : Lexeme := ⟨kind, text.take n, start⟩
    lexeme :: lexFrom fuel lexeme.stop (text.drop n)

end Lexer

/-- The lexemes of a text. -/
def lex (text : Text) : List Lexeme := Lexer.lexFrom text.length 0 text

end PlainC
