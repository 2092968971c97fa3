import PlainC.Json

/-!
# Locations in a dump

A compiler's dump says of each declaration where it stands. A place names its file and line only when
they differ from those of the place before it, so reading keeps the last file and the last line that
were named.
-/

namespace PlainC

namespace Dump

/-- A place in a file: the length is that of the token there. -/
structure Place where
  file : Text
  line : Nat
  col : Nat
  tokenLength : Nat
  deriving DecidableEq, Repr

/-- Where something stands. In a macro's expansion there are two places: where it is spelled, and
where the macro is used. -/
inductive Location where
  | absent
  | written (place : Place)
  | expanded (spelling expansion : Place)
  deriving DecidableEq, Repr

/-- The place that a reader of the file sees. -/
def Location.place? : Location → Option Place
  | absent => none
  | written place => some place
  | expanded _ expansion => some expansion

/-- From the start of the first token to the start of the last. -/
structure Range where
  first : Location
  last : Location
  deriving DecidableEq, Repr

/-- The file and the line that were named last. -/
structure Context where
  file : Text
  line : Nat
  deriving DecidableEq, Repr

def Context.start : Context := ⟨[], 0⟩

abbrev Reader := StateT Context Option

/-- Members under names, each name once and all of them among `known`. -/
def named? (known : List String) (members : List (Option Text × Json)) :
    Option (List (Text × Json)) := do
  let named ← members.mapM fun (key, value) => key.map (·, value)
  let keys := named.map Prod.fst
  if keys.all ((known.map String.toList).contains ·) && keys.Nodup then some named else none

def member? (key : String) (named : List (Text × Json)) : Option Json :=
  (named.find? fun entry => entry.1 = key.toList).map Prod.snd

def asCount? : Json → Option Nat
  | .number value => value
  | _ => none

def asText? : Json → Option Text
  | .string text => text
  | _ => none

def asBool? : Json → Option Bool
  | .bool value => some value
  | _ => none

/-- A member of the right form, or none if it is missing. -/
def optional? (read? : Json → Option α) (key : String) (named : List (Text × Json)) :
    Option (Option α) :=
  match member? key named with
  | none => some none
  | some value => (read? value).map some

/-- The file from which a file was included; deeper levels are passed over. -/
def isIncludedFrom : Json → Bool
  | .object members =>
    match named? ["file", "includedFrom"] members with
    | some named => ((member? "file" named).bind asText?).isSome
    | none => false
  | _ => false

/-- What has been read of a place so far. -/
structure Draft where
  file : Option Text
  line : Option Nat
  col : Option Nat
  tokenLength : Option Nat

namespace Draft

def empty : Draft := ⟨none, none, none, none⟩

/-- Reads one more member of a place. A member that comes again takes the place of the one before it,
but each has to have the right form. `depth` is how many levels of nesting are left. -/
def add? (depth : Nat) (draft : Draft) : Option Text × Json → Option Draft
  | (none, _) => none
  | (some key, value) =>
    if key = "file".toList then do
      let file ← asText? value
      return { draft with file := some file }
    else if key = "line".toList then do
      let line ← asCount? value
      return { draft with line := some line }
    else if key = "col".toList then do
      let col ← asCount? value
      return { draft with col := some col }
    else if key = "tokLen".toList then do
      let tokenLength ← asCount? value
      return { draft with tokenLength := some tokenLength }
    else if key = "presumedFile".toList then (asText? value).map fun _ => draft
    else if key = "presumedLine".toList then (asCount? value).map fun _ => draft
    else if key = "isMacroArgExpansion".toList then (asBool? value).map fun _ => draft
    else if key = "includedFrom".toList then
      if isIncludedFrom value && depth ≠ 0 then some draft else none
    else none

/-- The place that a draft describes where file and line are as in `context` if it names none. -/
def place? (draft : Draft) (context : Context) : Option Place := do
  let col ← draft.col
  let tokenLength ← draft.tokenLength
  return ⟨draft.file.getD context.file, draft.line.getD context.line, col, tokenLength⟩

end Draft

/-- The members of a place behind its offset, which comes first and only once. -/
def behindOffset? : List (Option Text × Json) → Option (List (Option Text × Json))
  | (some key, value) :: members =>
    if key = "offset".toList then (asCount? value).map fun _ => members else none
  | _ => none

/-- A place whose members may leave out file and line, in a context that knows them. -/
def place (depth : Nat) (members : List (Option Text × Json)) : Reader Place := do
  let members ← (behindOffset? members : Option _)
  let draft ← (members.foldlM (Draft.add? depth) Draft.empty : Option Draft)
  let place ← (draft.place? (← get) : Option Place)
  set (Context.mk place.file place.line)
  return place

/-- A place of a nested pair. -/
def innerPlace : (depth : Nat) → Json → Reader Place
  | depth + 1, .object members => place depth members
  | _, _ => failure

def location : (depth : Nat) → Json → Reader Location
  | _ + 1, .object [] => return .absent
  | depth + 1, .object [(some spellingKey, spelling), (some expansionKey, expansion)] =>
    if spellingKey = "spellingLoc".toList ∧ expansionKey = "expansionLoc".toList then do
      let spelling ← innerPlace depth spelling
      let expansion ← innerPlace depth expansion
      return .expanded spelling expansion
    else return .written (← place depth [(some spellingKey, spelling), (some expansionKey, expansion)])
  | depth + 1, .object members => return .written (← place depth members)
  | _, _ => failure

/-- A range; its ends may come in either order, and are read in the order in which they come. -/
def range : (depth : Nat) → Json → Reader Range
  | depth + 1, .object [(some a, x), (some b, y)] =>
    if a = "begin".toList ∧ b = "end".toList then do
      let first ← location depth x
      let last ← location depth y
      return ⟨first, last⟩
    else if a = "end".toList ∧ b = "begin".toList then do
      let last ← location depth x
      let first ← location depth y
      return ⟨first, last⟩
    else failure
  | _, _ => failure

end Dump

end PlainC
