import PlainC.Token.Located
import PlainC.Typedef
import PlainC.Typedef.Substitution

/-!
# Unfolding typedefs in a text

First the declarations go, line by line: a typedef that owns no tag body is blanked, and one that owns
a body keeps it and loses the keyword before it and the declarators behind it, so that
`typedef struct P { ... } P;` becomes `struct P { ... };`. Then the aliases are spelled out in
their order. No step adds or removes a line.
-/

namespace PlainC

namespace Unfolding

/-- The tag bodies that typedefs own, each once and in the order in which they are met, with the
span of the declarator that reaches furthest. -/
def addOwned (owned : List (Span × Span)) (tag span : Span) : List (Span × Span) :=
  if owned.any fun entry => entry.1 = tag then
    owned.map fun (body, declaration) =>
      if body = tag ∧ ¬span.last.before declaration.last then (body, span)
      else (body, declaration)
  else owned ++ [(tag, span)]

def bodies (typedefs : List Typedef) : List (Span × Span) :=
  typedefs.foldl (fun owned typedef =>
    match typedef.body with
    | some tag => addOwned owned tag typedef.span
    | none => owned) []

/-- Blanks the typedefs that own no tag body. -/
def blankPlain (source : Source) (typedefs : List Typedef) : Source :=
  typedefs.foldl (fun source typedef =>
    match typedef.body with
    | some _ => source
    | none => source.clear typedef.span) source

/-- Deletes the columns if they are there. -/
def clearColumns (source : Source) (line first last : Nat) : Source :=
  (source.deleteColumns? line first last).getD source

/-- Deletes what stands between the end of a tag body and the end of its declaration. -/
def removeDeclarators (source : Source) (tag declaration : Span) : Source :=
  if tag.last.line = declaration.last.line then
    clearColumns source tag.last.line (tag.last.col + 1) declaration.last.col
  else
    let lineEnd := Text.byteLength ((source.line? tag.last.line).getD [])
    let source := clearColumns source tag.last.line (tag.last.col + 1) lineEnd
    let source := source.clearLines (tag.last.line + 1) (declaration.last.line - 1)
    clearColumns source declaration.last.line 1 declaration.last.col

/-- A text in the course of unfolding, with the lines of the declarations that were blanked for want
of the keyword. -/
structure Progress where
  source : Source
  blanked : List Nat
  deriving DecidableEq, Repr

/-- Takes the tag body out of its typedef: the declarators go first, since they stand behind the body
and leave the columns of the keyword as they are. A declaration that does not begin with the keyword
was misread and is blanked. -/
def detach (progress : Progress) (tag declaration : Span) : Except Misplaced Progress := do
  let source := progress.source
  match ← source.tokens declaration with
  | keyword :: _ =>
    if keyword.kind = some .typedefKeyword then
      let source := removeDeclarators source tag declaration
      return { progress with source := (source.deleteToken? keyword.span).getD source }
    else blank
  | [] => blank
where
  blank : Except Misplaced Progress :=
    return ⟨progress.source.clear declaration, progress.blanked ++ [declaration.first.line]⟩

/-- The source without the declarations of the given aliases. -/
def removeDeclarations (source : Source) (typedefs : List Typedef) (aliases : Aliases) :
    Except Misplaced Progress :=
  let unfolded := typedefs.filter fun typedef => aliases.contains typedef.name
  (bodies unfolded).foldlM (fun progress (tag, declaration) => detach progress tag declaration)
    ⟨blankPlain source unfolded, []⟩

/-- Spells out the aliases one after another. -/
def spellOutAll (aliases : Aliases) (code : Text) : Text :=
  aliases.entries.foldl (fun code (name, canonical) => spellOut name canonical code) code

/-- The text with the given aliases unfolded. -/
def unfold (source : Source) (typedefs : List Typedef) (aliases : Aliases) :
    Except Misplaced Text := do
  let progress ← removeDeclarations source typedefs aliases
  return spellOutAll aliases progress.source.toText

end Unfolding

end PlainC
