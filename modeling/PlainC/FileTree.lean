import PlainC.Error
import PlainC.Path
import PlainC.Text.Utf8

/-!
# File trees

Files and directories by their places, which are lists of names from the top. There are no links, so
each place has one name. A path is followed step by step, and each step but the last must lead into a
directory. Names and paths are limited in their bytes, and no path has a NUL in it.
-/

namespace PlainC

/-- The names that lead from the top to a file or directory. -/
abbrev Location := List Text

inductive Entry where
  | directory
  | file (content : Bytes)
  deriving DecidableEq

structure FileTree where
  entries : List (Location × Entry)

namespace FileTree

def empty : FileTree := ⟨[]⟩

/-- What is at a place. The top is always a directory. -/
def get? (tree : FileTree) (location : Location) : Option Entry :=
  if location.isEmpty then some .directory
  else (tree.entries.find? fun entry => entry.1 = location).map Prod.snd

def set (tree : FileTree) (location : Location) (entry : Entry) : FileTree :=
  ⟨(location, entry) :: tree.entries.filter fun other => other.1 ≠ location⟩

/-- The tree without a place and all that is below it. -/
def remove (tree : FileTree) (location : Location) : FileTree :=
  ⟨tree.entries.filter fun entry => !location.isPrefixOf entry.1⟩

def isDirectory (tree : FileTree) (location : Location) : Bool :=
  tree.get? location = some .directory

/-- The greatest number of bytes in a name. -/
def nameLimit : Nat := 255

/-- The greatest number of bytes in a path. -/
def pathLimit : Nat := 4095

def isTooLong (name : Text) : Bool := nameLimit < (Text.toBytes name).length

/-- The steps of a path that can be followed. -/
def steps (path : Path) : Except FileError (List Text) :=
  if '\x00' ∈ path then .error .nulInPath
  else if path.isEmpty then .error .notFound
  else if pathLimit < (Text.toBytes path).length then .error .nameTooLong
  else .ok (Text.split '/' path)

/-- Follows steps from a place. An empty step or a dot stays, two dots lead up. -/
def walk (tree : FileTree) (location : Location) : List Text → Except FileError Location
  | [] => .ok location
  | step :: steps =>
    if !tree.isDirectory location then .error .notDirectory
    else if Path.isIdle step then walk tree location steps
    else if step = ['.', '.'] then walk tree location.dropLast steps
    else if isTooLong step then .error .nameTooLong
    else if (tree.get? (location ++ [step])).isNone then .error .notFound
    else walk tree (location ++ [step]) steps

/-- Where a path starts when it is followed from `base`. -/
def origin (base : Location) (path : Path) : Location :=
  if Path.isAbsolute path then [] else base

/-- The place that a path leads to. -/
def resolve (tree : FileTree) (base : Location) (path : Path) : Except FileError Location := do
  tree.walk (origin base path) (← steps path)

def lookup (tree : FileTree) (base : Location) (path : Path) : Except FileError Entry := do
  match tree.get? (← tree.resolve base path) with
  | some entry => return entry
  | none => throw .notFound

def isFile (tree : FileTree) (base : Location) (path : Path) : Bool :=
  match tree.lookup base path with
  | .ok (.file _) => true
  | _ => false

def read (tree : FileTree) (base : Location) (path : Path) : Except FileError Bytes := do
  match ← tree.lookup base path with
  | .file content => return content
  | .directory => throw .isDirectory

/-- The place at which a path would put something: inside a directory, under a name. A path that ends in
a slash, a dot or two dots names a directory. -/
def target (tree : FileTree) (base : Location) (path : Path) : Except FileError Location := do
  let steps ← steps path
  let named := (steps.reverse.dropWhile List.isEmpty).reverse
  match named.getLast? with
  | none => throw .isDirectory
  | some name =>
    let parent ← tree.walk (origin base path) named.dropLast
    if !tree.isDirectory parent then throw .notDirectory
    if steps.length ≠ named.length || name = ['.'] || name = ['.', '.'] then throw .isDirectory
    if isTooLong name then throw .nameTooLong
    return parent ++ [name]

/-- Writes a file, which may be there already. -/
def write (tree : FileTree) (base : Location) (path : Path) (content : Bytes) :
    Except FileError FileTree := do
  let location ← tree.target base path
  if tree.isDirectory location then throw .isDirectory
  return tree.set location (.file content)

/-- The place of a file that is made empty if it is missing. -/
def openFile (tree : FileTree) (base : Location) (path : Path) :
    Except FileError (Location × FileTree) := do
  let location ← tree.target base path
  match tree.get? location with
  | some .directory => throw .isDirectory
  | some (.file _) => return (location, tree)
  | none => return (location, tree.set location (.file []))

/-- Adds to the end of the file at a place. Where there is none, nothing changes. -/
def append (tree : FileTree) (location : Location) (content : Bytes) : FileTree :=
  match tree.get? location with
  | some (.file before) => tree.set location (.file (before ++ content))
  | _ => tree

/-- Makes a directory at a place that is free. -/
def makeDirectory (tree : FileTree) (base : Location) (path : Path) :
    Except FileError (Location × FileTree) := do
  let location ← tree.target base path
  if (tree.get? location).isSome then throw .alreadyThere
  return (location, tree.set location .directory)

/-- Takes it for no error that a directory could not be made where there is one. -/
def unlessDirectory (tree : FileTree) (base : Location) (path : Path) (cause : FileError) :
    Except FileError Unit :=
  match tree.lookup base path with
  | .ok .directory => .ok ()
  | _ => .error cause

/-- Makes the first of some directories, each of which is inside the next. Only if the way to it is
missing, those behind it are made before. What was made stays, also if the rest fails. -/
def makeNested (tree : FileTree) (base : Location) : List Path → Except FileError Unit × FileTree
  | [] => (.error .notFound, tree)
  | path :: above =>
    if path.isEmpty then (.ok (), tree)
    else
      match tree.makeDirectory base path with
      | .ok (_, tree) => (.ok (), tree)
      | .error .notFound =>
        match tree.makeNested base above with
        | (.error cause, tree) => (.error cause, tree)
        | (.ok (), tree) =>
          match tree.makeDirectory base path with
          | .ok (_, tree) => (.ok (), tree)
          | .error cause => (tree.unlessDirectory base path cause, tree)
      | .error cause => (tree.unlessDirectory base path cause, tree)

/-- Makes a directory with those above it that are missing. -/
def makeDirectories (tree : FileTree) (base : Location) (path : Path) :
    Except FileError Unit × FileTree :=
  tree.makeNested base (Path.ancestors path)

/-- The path of a place from the top. -/
def absolutePath (location : Location) : Path := '/' :: Text.join ['/'] location

/-- Names of what is directly inside a place. -/
def children (tree : FileTree) (location : Location) : List Text :=
  tree.entries.filterMap fun (place, _) =>
    if place.dropLast = location then place.getLast? else none

end FileTree

end PlainC
