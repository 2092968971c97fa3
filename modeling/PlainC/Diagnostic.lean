import PlainC.Text.Blank
import PlainC.Text.DecimalDigit

/-!
# Compiler diagnostics

A diagnostic is printed as `file:line:column: severity: message`. A row is read with the shortest file
that lets the rest be read, and rows of any other form are passed over. A line or column that is not
written in ASCII digits or needs more than 32 bits makes the row no diagnostic, and so does a line feed in
the file or in the message.
-/

namespace PlainC

inductive Severity where
  | error
  | warning
  | note
  deriving DecidableEq, Repr

def Severity.name : Severity → Text
  | error => "error".toList
  | warning => "warning".toList
  | note => "note".toList

structure Diagnostic where
  file : Text
  line : Nat
  column : Nat
  severity : Severity
  message : Text
  deriving DecidableEq, Repr

namespace Diagnostic

def render (d : Diagnostic) : Text :=
  d.file ++ ':' :: Text.ofNat d.line ++ ':' :: Text.ofNat d.column ++ ": ".toList
    ++ d.severity.name ++ ": ".toList ++ d.message

/-- The words for severities in the order in which they are tried. -/
def severityWords : List (Text × Severity) := [
  ("fatal error:".toList, .error), ("error:".toList, .error), ("warning:".toList, .warning),
  ("note:".toList, .note)]

/-- A colon, digits of any script and what follows them. -/
def number? : Text → Option (Text × Text)
  | ':' :: rest =>
    let digits := rest.takeWhile isDecimalDigit
    if digits.isEmpty then none else some (digits, rest.drop digits.length)
  | _ => none

/-- What stands behind the file, as it is written. -/
structure Tail where
  line : Text
  column : Text
  severity : Severity
  message : Text

def tail? (text : Text) : Option Tail := do
  let (line, rest) ← number? text
  let (column, rest) ← number? rest
  match rest with
  | ':' :: rest =>
    let rest := Text.trimStart rest
    let (word, severity) ← severityWords.find? fun entry => entry.1.isPrefixOf rest
    let message := Text.trimStart (rest.drop word.length)
    if '\n' ∈ message then none else return ⟨line, column, severity, message⟩
  | _ => none

/-- The shortest beginning behind which a tail can be read, and that tail. -/
def splitFile? : Text → Option (Text × Tail)
  | [] => none
  | c :: rest =>
    match tail? (c :: rest) with
    | some tail => some ([], tail)
    | none =>
      if c = '\n' then none else (splitFile? rest).map fun (file, tail) => (c :: file, tail)

/-- The value of a number that fits 32 bits. -/
def word? (digits : Text) : Option Nat := do
  let value ← Text.digitsValue? digits
  if value < 0x100000000 then some value else none

def parseLine? (row : Text) : Option Diagnostic := do
  let (file, tail) ← splitFile? row
  return ⟨file, ← word? tail.line, ← word? tail.column, tail.severity, tail.message⟩

/-- The diagnostics among the rows of a compiler's output. -/
def parse (output : Text) : List Diagnostic := (Text.rows output).filterMap parseLine?

end Diagnostic

end PlainC
