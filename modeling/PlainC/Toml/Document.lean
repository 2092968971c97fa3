import PlainC.Toml.Value
import PlainC.Toml.Scalar

/-!
# TOML documents

A document is a sequence of lines: keys with values, and headers that open the table to which the keys
behind them belong. Arrays and braces nest less than `nesting` deep, and a dotted key has fewer parts.
-/

namespace PlainC

namespace Toml

def nesting : Nat := 80

/-! Keys -/

def isBareKey (c : Char) : Bool := c.isAlphanum || c = '_' || c = '-'

def simpleKey? (text : Text) : Option (Text × Text) :=
  match lineString? text with
  | some found => some found
  | none =>
    let key := text.takeWhile isBareKey
    if key.isEmpty then none else some (key, text.drop key.length)

def keyParts? : (fuel : Nat) → Text → Option (List Text × Text)
  | 0, _ => none
  | fuel + 1, text => do
    let (part, rest) ← simpleKey? (skipWs text)
    match skipWs rest with
    | '.' :: rest =>
      let (parts, rest) ← keyParts? fuel rest
      return (part :: parts, rest)
    | rest => return ([part], rest)

/-- A key with blanks around its parts. -/
def key? (text : Text) : Option (List Text × Text) := keyParts? (nesting - 1) text

/-! Values -/

/-- Blanks, line ends and comments inside an array. -/
def skipLayout? : (fuel : Nat) → Text → Option Text
  | 0, _ => none
  | fuel + 1, text =>
    match skipWs text with
    | '#' :: rest => do
      let rest ← newline? (rest.dropWhile isPrintable)
      skipLayout? fuel rest
    | text =>
      match newline? text with
      | some rest => skipLayout? fuel rest
      | none => some text

def layout? (text : Text) : Option Text := skipLayout? (text.length + 1) text

/-- A value that no other value is inside. -/
def scalar? (text : Text) : Option (Value × Text) :=
  match text with
  | 't' :: 'r' :: 'u' :: 'e' :: rest => some (.bool true, rest)
  | 'f' :: 'a' :: 'l' :: 's' :: 'e' :: rest => some (.bool false, rest)
  | _ =>
    match string? text with
    | some (content, rest) => some (.string content, rest)
    | none =>
      match dateTime? text with
      | some rest => some (.dateTime, rest)
      | none =>
        match float? text with
        | some rest => some (.float, rest)
        | none => (integer? text).map fun (value, rest) => (.integer value, rest)

mutual

/-- A value inside `depth` others. -/
def value? (depth : Nat) : (fuel : Nat) → Text → Option (Value × Text)
  | 0, _ => none
  | fuel + 1, '[' :: rest =>
    if depth + 1 < nesting then do
      let (items, rest) ← items? (depth + 1) fuel rest
      return (.array items, rest)
    else none
  | fuel + 1, '\x7b' :: rest =>
    if depth + 1 < nesting then do
      match skipWs rest with
      | '\x7d' :: rest => return (.table .braces [], rest)
      | rest =>
        let (entries, rest) ← pairs? (depth + 1) [] fuel rest
        return (.table .braces entries, rest)
    else none
  | _, text => scalar? text

/-- The items of an array and its end; a comma may stand behind the last. -/
def items? (depth : Nat) : (fuel : Nat) → Text → Option (List Value × Text)
  | 0, _ => none
  | fuel + 1, text => do
    match ← layout? text with
    | ']' :: rest => return ([], rest)
    | text =>
      let (item, rest) ← value? depth fuel text
      match ← layout? rest with
      | ',' :: rest =>
        let (items, rest) ← items? depth fuel rest
        return (item :: items, rest)
      | ']' :: rest => return ([item], rest)
      | _ => none

/-- Keys with values between braces and the closing brace. -/
def pairs? (depth : Nat) (entries : Entries) : (fuel : Nat) → Text → Option (Entries × Text)
  | 0, _ => none
  | fuel + 1, text => do
    let (path, rest) ← key? text
    let key ← path.getLast?
    let rest ← mark? '=' rest
    let (value, rest) ← value? depth fuel (skipWs rest)
    let entries ← entries.insert? path.dropLast key value true
    match skipWs rest with
    | ',' :: rest => pairs? depth entries fuel rest
    | '\x7d' :: rest => return (entries, rest)
    | _ => none

end

/-! Lines -/

/-- A document in the course of reading: the tables that are complete, the path of the table at hand
(none for the outermost one), whether its header is repeated, and its own entries. -/
structure Builder where
  root : Entries
  path : List Text
  isRepeated : Bool
  body : Entries

namespace Builder

def start : Builder := ⟨[], [], false, []⟩

/-- Puts the table at hand into its place. A table that was implied comes last once it has a header. -/
def finish? (builder : Builder) : Option Entries :=
  match builder.path.getLast? with
  | none => some builder.body
  | some key =>
    builder.root.modify? (fun parent =>
      match parent.get? key with
      | none =>
        let value : Value :=
          if builder.isRepeated then .tables [builder.body] else .table .header builder.body
        some (parent.set key value)
      | some (.tables elements) =>
        if builder.isRepeated then some (parent.set key (.tables (elements ++ [builder.body])))
        else none
      | some (.table .implied _) =>
        if builder.isRepeated then none
        else some ((parent.erase key).set key (.table .header builder.body))
      | some _ => none) builder.path.dropLast

/-- What the key of a header stands for before the header is read; a header opens only a table that
was implied, and a repeated one only joins its likes. -/
def reopened? (isRepeated : Bool) : Option Value → Option Entries
  | none => some []
  | some (.table .implied entries) => if isRepeated then none else some entries
  | some (.tables _) => if isRepeated then some [] else none
  | some _ => none

/-- The value at the end of a path, through tables and last elements of repeated ones. -/
def lookup? (entries : Entries) : List Text → Option Value
  | [] => none
  | [key] => entries.get? key
  | step :: path =>
    match entries.get? step with
    | some (.table _ inner) => lookup? inner path
    | some (.tables elements) => elements.getLast? >>= fun last => lookup? last path
    | _ => none

/-- Opens the table of a header. -/
def openTable? (builder : Builder) (path : List Text) (isRepeated : Bool) : Option Builder := do
  let root ← builder.finish?
  let root ← root.modify? some path.dropLast
  let body ← reopened? isRepeated (lookup? root path)
  return ⟨root, path, isRepeated, body⟩

end Builder

/-- A header, behind its first bracket. -/
def header? (builder : Builder) (text : Text) : Option (Builder × Text) :=
  match text with
  | '[' :: rest => do
    let (path, rest) ← key? rest
    let rest ← lineEnd? (← mark? ']' (← mark? ']' rest))
    return (← builder.openTable? path true, rest)
  | _ => do
    let (path, rest) ← key? text
    let rest ← lineEnd? (← mark? ']' rest)
    return (← builder.openTable? path false, rest)

/-- A key and its value. -/
def keyValue? (builder : Builder) (text : Text) : Option (Builder × Text) := do
  let (path, rest) ← key? text
  let key ← path.getLast?
  let rest ← mark? '=' rest
  let (value, rest) ← value? 0 (2 * rest.length + 2) (skipWs rest)
  let rest ← lineEnd? rest
  let body ← builder.body.insert? path.dropLast key value true
  return ({ builder with body }, rest)

def statements? : (fuel : Nat) → Builder → Text → Option Builder
  | 0, _, _ => none
  | fuel + 1, builder, text =>
    match skipWs text with
    | [] => some builder
    | '#' :: rest => do
      let rest ← lineEnd? ('#' :: rest)
      statements? fuel builder rest
    | '[' :: rest => do
      let (builder, rest) ← header? builder rest
      statements? fuel builder rest
    | text =>
      match newline? text with
      | some rest => statements? fuel builder rest
      | none => do
        let (builder, rest) ← keyValue? builder text
        statements? fuel builder rest

/-- The table that a document describes. A byte order mark in front is passed over. -/
def parse? (text : Text) : Option Entries := do
  let text := if text.head? = some '\ufeff' then text.drop 1 else text
  let builder ← statements? (text.length + 1) .start text
  builder.finish?

end Toml

end PlainC
