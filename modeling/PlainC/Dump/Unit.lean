import PlainC.Dump.Node
import PlainC.Path
import PlainC.CompilationUnit

/-!
# From a dump to a compilation unit

Only what stands at the top of the dump and in the file itself counts; declarations from other files
are none of ours. A range ends at the start of its last token, so the length of that token is added.
-/

namespace PlainC

namespace Dump

/-- Whether a file is the one that was read, which may go under several names. -/
def isOwnFile (mainFiles : List Text) (file : Text) : Bool :=
  !file.isEmpty && mainFiles.contains file

/-- Lines and columns have 32 bits. -/
def word (n : Nat) : Nat := n % 0x100000000

/-- The span of a range with both ends in the main file. -/
def mainSpan? (mainFiles : List Text) (range : Range) : Option Span := do
  let first ← range.first.place?
  let last ← range.last.place?
  if first.line ≠ 0 && last.line ≠ 0 && isOwnFile mainFiles first.file
      && isOwnFile mainFiles last.file then
    return ⟨⟨word first.line, word first.col⟩,
      ⟨word last.line, word (last.col + max last.tokenLength 1 - 1)⟩⟩
  else none

def Node.span? (mainFiles : List Text) (node : Node) : Option Span :=
  node.range.bind (mainSpan? mainFiles)

/-- A name that is not empty. -/
def Node.name? (node : Node) : Option Text := node.name.filter (!·.isEmpty)

def function? (mainFiles : List Text) (node : Node) : Option Function := do
  if node.kind ≠ .function then none
  let name ← node.name?
  let isDefinition := node.inner.any fun child => child.kind = .compound
  if node.isImplicit.getD false then return ⟨name, none, isDefinition⟩
  return ⟨name, some (← node.span? mainFiles), isDefinition⟩

/-- A typedef, before it is known which tag body it owns. -/
def typedef? (mainFiles : List Text) (node : Node) : Option Typedef := do
  if node.kind ≠ .typedef || node.isImplicit.getD false then none
  let name ← node.name?
  let canonical ← node.spelling.bind TypeSpelling.canonical?
  return ⟨name, canonical, ← node.span? mainFiles, none⟩

/-- The span of a tag that has a body. -/
def tagBody? (mainFiles : List Text) (node : Node) : Option Span :=
  let isTag := node.kind = .record || node.kind = .enum
  let hasBody := node.isComplete.getD false || (node.kind = .enum && !node.inner.isEmpty)
  if isTag && hasBody then node.span? mainFiles else none

/-- The tag body inside a span that starts first. -/
def firstInside (tags : List Span) (span : Span) : Option Span :=
  (tags.filter span.contains).foldl (fun best tag =>
    match best with
    | none => some tag
    | some first => if first.first.before tag.first then some first else some tag) none

/-- The unit that the top of a dump describes. -/
def toUnit (path : Path) (source : Source) (mainFiles : List Text) (root : Node) :
    CompilationUnit :=
  let tags := root.inner.filterMap (tagBody? mainFiles)
  let typedefs := root.inner.filterMap (typedef? mainFiles)
  { path := path
    source := source
    functions := root.inner.filterMap (function? mainFiles)
    typedefs := typedefs.map fun typedef =>
      { typedef with body := firstInside tags typedef.span } }

end Dump

end PlainC
