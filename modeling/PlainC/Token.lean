import PlainC.Pattern

/-!
# Kinds of tokens

What a C text is made of. Only the two keywords that matter here have kinds of their own; any other
keyword is an identifier. Each kind has patterns, and `Token.rules` lists them in the order in which
they win over each other on texts of one length.
-/

namespace PlainC

inductive TokenKind where
  | whitespace
  | comment
  | hashHash
  | hash
  | leftParen
  | rightParen
  | leftBrace
  | rightBrace
  | leftBracket
  | rightBracket
  | semicolon
  | comma
  | ellipsis
  | star
  | operator
  | staticKeyword
  | typedefKeyword
  | identifier
  | char
  | string
  | integer
  | float
  deriving DecidableEq, Repr

/-- White space and comments stand between tokens and carry no meaning. -/
def TokenKind.isTrivia : TokenKind → Bool
  | whitespace => true
  | comment => true
  | _ => false

namespace Token

open Pattern

def digit : Pattern := char (.between '0' '9')

def digits : Pattern := plus digit

/-- A character of a literal between `quote`s: any but the quote, a backslash and a line feed, or a
backslash with any character after it. -/
def literalChar (quote : Char) : Pattern :=
  alt (char (.noneOf [quote, '\\', '\n'])) (seq (char (.single '\\')) (char (.noneOf [])))

def quoted (quote : Char) : Pattern :=
  sequence [char (.single quote), star (literalChar quote), char (.single quote)]

/-- A line break hidden by a backslash. -/
def splice : Pattern :=
  sequence [char (.single '\\'), optional (char (.single '\r')), char (.single '\n')]

def blanks : Pattern := plus (char (.oneOf [' ', '\t', '\r', '\n', '\x0c', '\x0b']))

def lineComment : Pattern := seq (literal "//".toList) (star (char (.noneOf ['\n'])))

/-- Between the marks stand characters other than a star, and runs of stars that a character other
than a star or a slash follows. -/
def blockComment : Pattern :=
  sequence [
    literal "/*".toList,
    star (alt (char (.noneOf ['*']))
      (seq (plus (char (.single '*'))) (char (.noneOf ['*', '/'])))),
    plus (char (.single '*')),
    char (.single '/')]

def operatorPattern : Pattern :=
  choice [
    literal "->".toList, literal "++".toList, literal "--".toList, literal "<<=".toList,
    literal ">>=".toList, literal "<<".toList, literal ">>".toList, literal "&&".toList,
    literal "||".toList, literal "*=".toList,
    seq (char (.oneOf "-+/%^&|~!=<>?:.".toList)) (optional (char (.single '=')))]

def letter : CharSet := ⟨[('a', 'z'), ('A', 'Z'), ('_', '_')], false⟩

def identifier : Pattern :=
  seq (char letter) (star (char (letter.either (.between '0' '9'))))

def charLiteral : Pattern := seq (optional (char (.oneOf ['L', 'u', 'U']))) (quoted '\x27')

def stringLiteral : Pattern :=
  seq (optional (alt (literal "u8".toList) (char (.oneOf ['L', 'u', 'U'])))) (quoted '\x22')

def integerSuffix : Pattern := optional (plus (char (.oneOf ['u', 'U', 'l', 'L'])))

def hexInteger : Pattern :=
  sequence [
    char (.single '0'), char (.oneOf ['x', 'X']),
    plus (char ⟨[('0', '9'), ('A', 'F'), ('a', 'f')], false⟩), integerSuffix]

def decimalInteger : Pattern := seq digits integerSuffix

def exponent : Pattern :=
  sequence [char (.oneOf ['e', 'E']), optional (char (.oneOf ['+', '-'])), digits]

def floatSuffix : Pattern := optional (char (.oneOf ['f', 'F', 'l', 'L']))

def pointedFloat : Pattern :=
  sequence [digits, char (.single '.'), star digit, optional exponent, floatSuffix]

def fractionFloat : Pattern :=
  sequence [char (.single '.'), digits, optional exponent, floatSuffix]

def scientificFloat : Pattern := sequence [digits, exponent, floatSuffix]

/-- The patterns of all kinds. A keyword stands before the identifiers, of which it is one. -/
def rules : List (TokenKind × Pattern) := [
  (.whitespace, blanks),
  (.whitespace, splice),
  (.comment, lineComment),
  (.comment, blockComment),
  (.hashHash, literal "##".toList),
  (.hash, literal "#".toList),
  (.leftParen, literal "(".toList),
  (.rightParen, literal ")".toList),
  (.leftBrace, literal ['\x7b']),
  (.rightBrace, literal ['\x7d']),
  (.leftBracket, literal "[".toList),
  (.rightBracket, literal "]".toList),
  (.semicolon, literal ";".toList),
  (.comma, literal ",".toList),
  (.ellipsis, literal "...".toList),
  (.star, literal "*".toList),
  (.operator, operatorPattern),
  (.staticKeyword, literal "static".toList),
  (.typedefKeyword, literal "typedef".toList),
  (.identifier, identifier),
  (.char, charLiteral),
  (.string, stringLiteral),
  (.integer, hexInteger),
  (.integer, decimalInteger),
  (.float, pointedFloat),
  (.float, fractionFloat),
  (.float, scientificFloat)]

end Token

end PlainC
