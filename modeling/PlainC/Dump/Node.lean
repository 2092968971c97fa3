import PlainC.Dump.Location

/-!
# Nodes of a dump

A dump is a tree of nodes. What a node may carry depends on its kind; anything else in it is passed
over, however deep it is. Of what is read, at most `nesting` arrays and objects are inside each other.
-/

namespace PlainC

namespace Dump

inductive Kind where
  | function
  | typedef
  | record
  | enum
  | compound
  | other (name : Text)
  /-- A node that does not say what it is. -/
  | unnamed
  deriving DecidableEq, Repr

def Kind.ofName (name : Text) : Kind :=
  if name = "FunctionDecl".toList then function
  else if name = "TypedefDecl".toList then typedef
  else if name = "RecordDecl".toList then record
  else if name = "EnumDecl".toList then enum
  else if name = "CompoundStmt".toList then compound
  else other name

/-- The keys that nodes of a kind may carry. -/
def Kind.keys : Kind → List String
  | function => ["name", "loc", "range", "isImplicit"]
  | typedef => ["name", "loc", "range", "isImplicit", "type"]
  | record => ["loc", "range", "completeDefinition"]
  | enum => ["loc", "range", "completeDefinition"]
  | compound => ["range"]
  | other _ => ["loc", "range"]
  | unnamed => []

/-- How a type is spelled; the desugared spelling is there if it is another one. -/
structure TypeSpelling where
  written : Option Text
  desugared : Option Text
  deriving DecidableEq, Repr

/-- The spelling that is resolved furthest. -/
def TypeSpelling.canonical? (spelling : TypeSpelling) : Option Text :=
  spelling.desugared.or spelling.written

structure Node where
  kind : Kind
  name : Option Text
  loc : Option Location
  range : Option Range
  isImplicit : Option Bool
  spelling : Option TypeSpelling
  isComplete : Option Bool
  inner : List Node

/-- A node of a kind that carries nothing. -/
def Node.bare (kind : Kind) : Node where
  kind := kind
  name := none
  loc := none
  range := none
  isImplicit := none
  spelling := none
  isComplete := none
  inner := []

def nesting : Nat := 127

def isHexDigit (c : Char) : Bool := (Json.hexDigit? c).isSome

/-- Whether a text is the name of a node: `0x` and a number of 64 bits in hexadecimal. -/
def isId : Text → Bool
  | '0' :: 'x' :: rest =>
    let digits :=
      match rest with
      | '+' :: more => more
      | _ => rest
    !digits.isEmpty && digits.all isHexDigit
      && (digits.filterMap Json.hexDigit?).foldl (fun code d => code * 16 + d) 0 < Json.countBound
  | _ => false

/-- The kind of a node, before which only its name may stand, and what follows. -/
def kindOf? : List (Option Text × Json) → Option (Kind × List (Option Text × Json))
  | [] => some (.unnamed, [])
  | (some key, .string (some text)) :: rest =>
    if key = "kind".toList then some (.ofName text, rest)
    else if key = "id".toList && isId text then
      match rest with
      | [] => some (.unnamed, [])
      | (some key, .string (some text)) :: rest =>
        if key = "kind".toList then some (.ofName text, rest) else none
      | _ => none
    else none
  | _ => none

/-- A value, or none for null. -/
def orNull (read : Json → Reader α) : Json → Reader (Option α)
  | .null => return none
  | json => return some (← read json)

def lift (read? : Json → Option α) (json : Json) : Reader α := (read? json : Option α)

/-- A string or null. -/
def spellingOrNull? : Json → Option (Option Text)
  | .null => some none
  | json => (asText? json).map some

/-- A type: an object, or the two spellings one after the other. -/
def typeSpelling : (depth : Nat) → Json → Reader TypeSpelling
  | _ + 1, .object members => do
    let known ← (members.filterMapM fun (key, value) => do
      let key ← key
      return if key = "qualType".toList || key = "desugaredQualType".toList then
        some (some key, value) else none : Option (List (Option Text × Json)))
    let named ← (named? ["qualType", "desugaredQualType"] known : Option (List (Text × Json)))
    let written ← (optional? spellingOrNull? "qualType" named : Option (Option (Option Text)))
    let desugared ←
      (optional? spellingOrNull? "desugaredQualType" named : Option (Option (Option Text)))
    return ⟨written.join, desugared.join⟩
  | _ + 1, .array [written, desugared] => do
    return ⟨← lift spellingOrNull? written, ← lift spellingOrNull? desugared⟩
  | _, _ => failure

/-- Takes one member into a node. `children` reads what is inside. -/
def takeMember (children : List Json → Reader (List Node)) (depth : Nat) (node : Node) (key : Text)
    (value : Json) : Reader Node := do
  if key = "inner".toList then
    match value with
    | .array items => return { node with inner := ← children items }
    | _ => failure
  else if !(node.kind.keys.map String.toList).contains key then return node
  else if key = "name".toList then return { node with name := ← orNull (lift asText?) value }
  else if key = "loc".toList then return { node with loc := ← orNull (location depth) value }
  else if key = "range".toList then return { node with range := ← orNull (range depth) value }
  else if key = "isImplicit".toList then
    return { node with isImplicit := ← orNull (lift asBool?) value }
  else if key = "type".toList then
    return { node with spelling := ← orNull (typeSpelling depth) value }
  else return { node with isComplete := ← orNull (lift asBool?) value }

/-- Takes members into a node one after another. A key that the kind knows comes once; a repeated list
of inner nodes replaces the one before. -/
def takeMembers (children : List Json → Reader (List Node)) (depth : Nat) :
    (seen : List Text) → Node → List (Option Text × Json) → Reader Node
  | _, node, [] => return node
  | seen, node, (some key, value) :: rest => do
    if seen.contains key && (node.kind.keys.map String.toList).contains key then failure
    let node ← takeMember children depth node key value
    takeMembers children depth (key :: seen) node rest
  | _, _, (none, _) :: _ => failure

/-- A node with all that is inside it, in the order of the document. -/
def node : (depth : Nat) → Json → Reader Node
  | depth + 1, .object members => do
    let (kind, rest) ← (kindOf? members : Option (Kind × List (Option Text × Json)))
    let children (items : List Json) : Reader (List Node) :=
      match depth with
      | 0 => failure
      | depth + 1 => items.mapM (node depth)
    takeMembers children depth [] (.bare kind) rest
  | _, _ => failure

/-- The tree of a document. -/
def ofJson? (json : Json) : Option Node := ((node nesting json).run .start).map Prod.fst

/-- The tree that a text describes. -/
def parse? (text : Text) : Option Node := Json.parse? text >>= ofJson?

end Dump

end PlainC
