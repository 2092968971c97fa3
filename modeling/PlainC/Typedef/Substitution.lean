import PlainC.Text.Blank
import PlainC.Text.WordChar

/-!
# Spelling an alias out

An alias is replaced where it stands as a whole word. Directly after `struct`, `union` or `enum` and
white space it names a tag and is kept. The text is searched from left to right; at one place the
reading with a tag keyword wins, and of its readings the one with the most white space. An empty alias
stands at every word boundary, but not where an occurrence has just ended.
-/

namespace PlainC

namespace Substitution

def tagKeywords : List Text := ["struct".toList, "union".toList, "enum".toList]

/-- Whether a word begins or ends between a text and what follows it; `before` is what stands before
the text. -/
def endsWord (before : Option Char) (text rest : Text) : Bool :=
  isBoundary (text.getLast?.or before) rest.head?

/-- Whether the alias, followed by a word boundary, comes next. `text` has just been read. -/
def aliasFollows (name : Text) (before : Option Char) (text rest : Text) : Bool :=
  name.isPrefixOf rest && endsWord before (text ++ name) (rest.drop name.length)

/-- The length of the alias as a tag name: one of the keywords, white space, and the alias. -/
def taggedAt? (name : Text) (before : Option Char) (text : Text) : Option Nat :=
  tagKeywords.findSome? fun keyword =>
    if keyword.isPrefixOf text then
      let rest := text.drop keyword.length
      let blanks := rest.takeWhile isBlank
      (List.range blanks.length).reverse.findSome? fun n =>
        if aliasFollows name before (keyword ++ blanks.take (n + 1)) (rest.drop (n + 1)) then
          some (keyword.length + (n + 1) + name.length)
        else none
    else none

/-- An occurrence of an alias: how many characters it takes, and whether it names a tag. -/
structure Occurrence where
  length : Nat
  isTag : Bool

/-- The occurrence at the start of a text that `before` stands before. -/
def occurrence? (name : Text) (before : Option Char) (text : Text) : Option Occurrence :=
  if isBoundary before text.head? then
    match taggedAt? name before text with
    | some length => some ⟨length, true⟩
    | none => if aliasFollows name before [] text then some ⟨name.length, false⟩ else none
  else none

/-- What an occurrence at the start of a text becomes. -/
def Occurrence.replacement (occurrence : Occurrence) (canonical text : Text) : Text :=
  if occurrence.isTag then text.take occurrence.length else canonical

/-- Replaces in what is left of a text. `before` is the character read last, `skip` counts the
characters that still belong to an occurrence, and `touching` says that one ends here. -/
def replaceFrom (name canonical : Text) :
    (before : Option Char) → (skip : Nat) → (touching : Bool) → Text → Text
  | before, _, touching, [] =>
    match occurrence? name before [] with
    | some occurrence => if touching then [] else occurrence.replacement canonical []
    | none => []
  | _, skip + 1, _, c :: rest => replaceFrom name canonical (some c) skip true rest
  | before, 0, touching, c :: rest =>
    match occurrence? name before (c :: rest) with
    | none => c :: replaceFrom name canonical (some c) 0 false rest
    | some occurrence =>
      match occurrence.length with
      | 0 =>
        (if touching then [] else canonical) ++ c :: replaceFrom name canonical (some c) 0 false rest
      | n + 1 =>
        occurrence.replacement canonical (c :: rest) ++
          replaceFrom name canonical (some c) n true rest

end Substitution

/-- Replaces every occurrence of the alias `name` in `code` that does not name a tag. -/
def spellOut (name canonical code : Text) : Text :=
  Substitution.replaceFrom name canonical none 0 false code

end PlainC
