import PlainC.Text

/-!
# Paths

A path is a text whose parts are divided by slashes. It begins with a slash, with a lone dot, or with
neither; behind that head, empty parts and lone dots mean nothing. Two paths are the same when they
have the same components, while their texts may differ.
-/

namespace PlainC

abbrev Path := Text

namespace Path

def isAbsolute (path : Path) : Bool := path.head? = some '/'

/-- The slash or lone dot that a path begins with. -/
def head (path : Path) : Text :=
  match path with
  | '/' :: _ => ['/']
  | ['.'] => ['.']
  | '.' :: '/' :: _ => ['.']
  | _ => []

/-- What is written between the slashes behind the head. -/
def parts (path : Path) : List Text := Text.split '/' (path.drop (head path).length)

/-- Whether a part means nothing. -/
def isIdle (part : Text) : Bool := part.isEmpty || part = ['.']

/-- The head, if there is one, and the parts that mean something. -/
def components (path : Path) : List Text :=
  let body := (parts path).filter (!isIdle ·)
  if (head path).isEmpty then body else head path :: body

/-- Leaves off the parts at the end that mean nothing. -/
def trimParts (parts : List Text) : List Text := (parts.reverse.dropWhile isIdle).reverse

/-- The last component, if it is a name. -/
def fileName? (path : Path) : Option Text :=
  (trimParts (parts path)).getLast?.filter (· ≠ ['.', '.'])

/-- The path without its last component, with its parts as they are written. -/
def parent? (path : Path) : Option Path :=
  match trimParts (parts path) with
  | [] => if head path = ['.'] then some [] else none
  | body => some (head path ++ Text.join ['/'] (trimParts body.dropLast))

/-- A path and what is above it, as far as the text of the path goes. A parent is shorter than its
path, so `fuel` need not be more than the length. -/
def ancestorsFrom : (fuel : Nat) → Path → List Path
  | 0, path => [path]
  | fuel + 1, path =>
    match parent? path with
    | some parent => path :: ancestorsFrom fuel parent
    | none => [path]

def ancestors (path : Path) : List Path := ancestorsFrom path.length path

/-- The directory of a path, if it names one. -/
def directory? (path : Path) : Option Path := (parent? path).filter (!·.isEmpty)

/-- The path `other` as seen from `base`. -/
def join (base other : Path) : Path :=
  if isAbsolute other then other
  else if base.isEmpty || base.getLast? = some '/' then base ++ other
  else base ++ '/' :: other

/-- A file made from `input`: its name behind `mark`, in the output directory or beside the input. -/
def derived (mark : Text) (input : Path) (outputDir : Option Path) : Path :=
  let name := (fileName? input).getD []
  let dir := (outputDir.or (parent? input)).getD []
  join dir (mark ++ name)

def expanded (input : Path) (outputDir : Option Path) : Path :=
  derived "expanded_".toList input outputDir

def stripped (input : Path) (outputDir : Option Path) : Path :=
  derived "stripped_".toList input outputDir

end Path

end PlainC
