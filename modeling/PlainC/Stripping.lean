import PlainC.UnitReader
import PlainC.Scratch

/-!
# Stripping `static`

A function loses the `static` that its declaration and its definition begin with. Extents hold for one
text only: once the declaration has been edited, the text is read again before the definition is.
-/

namespace PlainC

namespace Stripping

/-- The text without the first of the tokens, if that is `static`. -/
def removeLeadingStatic? (source : Source) : List Token → Option Source
  | [] => none
  | first :: _ => if first.kind = some .staticKeyword then source.deleteToken? first.span else none

def copyName : Text := "unit.c".toList

/-- Reads an edited text again. -/
def reread (reader : UnitReader) (dir : Path) (source : Source) : Action CompilationUnit := do
  let path ← Scratch.write dir copyName source.toText
  reader.parse path

/-- The definition in an edited text, where it must be as it was before. -/
def findAgain (unit : CompilationUnit) (name : Text) : Except Error Function :=
  match unit.lookup name with
  | .ok pair => .ok pair.definition
  | .error error =>
    .error (.brokenEdit name ("definition lost after re-parse: ".toList ++ error.message))

/-- Where stripping stands: the text as edited so far, the unit that was last read, and the definition
in it. -/
structure Stage where
  source : Source
  unit : CompilationUnit
  definition : Function

/-- Strips the declaration, and reads the text again if that changed it. -/
def stripDeclaration (reader : UnitReader) (dir : Path) (unit : CompilationUnit)
    (pair : FunctionPair) : Action Stage := do
  let unchanged : Stage := ⟨unit.source, unit, pair.definition⟩
  match pair.declaration with
  | none => return unchanged
  | some declaration =>
    let tokens ← Action.placed (unit.tokensOf declaration)
    if tokens.isEmpty then
      Action.debug ("[strip] declaration of `".toList ++ pair.name
        ++ "` has no tokens, skipping".toList)
    match removeLeadingStatic? unit.source tokens with
    | none => return unchanged
    | some source =>
      let again ← reread reader dir source
      let definition ← findAgain again pair.name
      return ⟨source, again, definition⟩

/-- Strips one function in a scratch directory. -/
def stripIn (reader : UnitReader) (name text : Text) (dir : Path) : Action Text := do
  let path ← Scratch.write dir copyName text
  let unit ← reader.parse path
  let pair ← unit.lookup name
  let stage ← stripDeclaration reader dir unit pair
  let tokens ← Action.placed (stage.unit.tokensOf stage.definition)
  return ((removeLeadingStatic? stage.source tokens).getD stage.source).toText

/-- Names the file that the user knows in place of the working copy. -/
def relabel (label : Path) : Error → Error
  | .unknownFunction name _ => .unknownFunction name label
  | error => error

/-- Strips one function of a text that goes under `label`. -/
def stripOne (reader : UnitReader) (label : Path) (name text : Text) : Action Text := do
  let stripped ← Scratch.run "strip".toList fun dir =>
    ExceptT.adapt (relabel label) (stripIn reader name text dir)
  Action.info ("Stripped `static` from `".toList ++ name ++ "` in ".toList ++ label)
  return stripped

/-- Strips one function of a text that is in no file. -/
def stripText (reader : UnitReader) (name text : Text) : Action Text :=
  stripOne reader "<source>".toList name text

/-- Strips functions of a file one after another. The file itself is left as it is. -/
def stripAll (reader : UnitReader) (names : List Text) (path : Path) : Action Text := do
  let text ← Action.readText path
  let reader := reader.lookingBeside path
  names.foldlM (fun text name => stripOne reader path name text) text

end Stripping

end PlainC
