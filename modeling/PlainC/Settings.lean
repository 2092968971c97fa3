import PlainC.LogLevel
import PlainC.Text.Blank
import PlainC.Toml.DateTimeTable
import PlainC.Toml.Document

/-!
# Settings

Which tools are run with which flags, where derived files go, and how much is logged. A document names
only what differs from the defaults; under keys that are not known it may have any sound value. Commands
and flags come out trimmed, with blank flags dropped and a blank command replaced by its default.
-/

namespace PlainC

/-- A program with the flags that it is given on every run. -/
structure Tool where
  program : Text
  flags : List Text
  deriving DecidableEq, Repr

structure Toolchain where
  /-- The compiler that prints the declarations of a file. -/
  clang : Tool
  preprocessor : Tool
  /-- The compiler that expanded files are checked with. -/
  compiler : Tool
  /-- Directories in which included files are looked for. -/
  includePaths : List Text
  deriving DecidableEq, Repr

structure Settings where
  tools : Toolchain
  /-- Where derived files go; beside their sources if there is none. -/
  outputDir : Option Text
  level : LogLevel
  deriving DecidableEq, Repr

/-- The flags keep comments, leave out line marks and leave out what is included by itself. -/
def Toolchain.standard : Toolchain where
  clang := ⟨"clang".toList, []⟩
  preprocessor := ⟨"cpp".toList, ["-C".toList, "-P".toList, "-nostdinc".toList]⟩
  compiler := ⟨"cc".toList, []⟩
  includePaths := []

namespace Settings

def standard : Settings := ⟨.standard, none, .standard⟩

/-! Normal form -/

/-- A command without blanks around it, or the default if nothing is left. -/
def normalCommand (command default : Text) : Text :=
  let trimmed := Text.trim command
  if trimmed.isEmpty then default else trimmed

def normalList (items : List Text) : List Text :=
  (items.map Text.trim).filter (!·.isEmpty)

def normalTool (tool default : Tool) : Tool :=
  ⟨normalCommand tool.program default.program, normalList tool.flags⟩

def normalTools (tools : Toolchain) : Toolchain where
  clang := normalTool tools.clang Toolchain.standard.clang
  preprocessor := normalTool tools.preprocessor Toolchain.standard.preprocessor
  compiler := normalTool tools.compiler Toolchain.standard.compiler
  includePaths := normalList tools.includePaths

def normalize (settings : Settings) : Settings :=
  { settings with
    tools := normalTools settings.tools
    outputDir := settings.outputDir.filter (!·.isEmpty) }

/-! Reading -/

/-- A key whose value has the wrong form. -/
structure WrongValue where
  key : Text
  deriving DecidableEq, Repr

abbrev Reading := Except WrongValue

/-- The value of a key if it is there; `read?` says whether it has the right form. -/
def field (entries : Toml.Entries) (key : String) (read? : Toml.Value → Option α) :
    Reading (Option α) :=
  match entries.get? key.toList with
  | none => .ok none
  | some value =>
    match read? value with
    | some content => .ok (some content)
    | none => .error ⟨key.toList⟩

/-- Passes over the keys that are not known; only that their values are sound matters. -/
def passOver (entries : Toml.Entries) (known : List String) : Reading Unit :=
  let isWrong (entry : Text × Toml.Value) : Bool :=
    !(known.map String.toList).contains entry.1 && !entry.2.isSound
  match entries.find? isWrong with
  | some (key, _) => .error ⟨key⟩
  | none => .ok ()

def asText? : Toml.Value → Option Text
  | .string text => some text
  | _ => none

def asTexts? : Toml.Value → Option (List Text)
  | .array items => items.mapM asText?
  | _ => none

/-- A date counts as a table in which no key is known. -/
def asTable? : Toml.Value → Option Toml.Entries
  | .table _ entries => some entries
  | .dateTime => some []
  | _ => none

/-- Whether a value stands for nothing, as the value of a level's name does. -/
def isVoid : Toml.Value → Bool
  | .table _ entries => entries.isEmpty
  | .array items => items.isEmpty
  | _ => false

/-- A level is written as its name, or as a table with the name as its one key and nothing in it. -/
def asLevel? : Toml.Value → Option LogLevel
  | .string name => LogLevel.ofName? name
  | .table _ [(name, value)] => if isVoid value then LogLevel.ofName? name else none
  | _ => none

/-- A tool whose program stands under `key` and whose flags stand under `flagsKey`. -/
def readTool (entries : Toml.Entries) (key flagsKey : String) (default : Tool) : Reading Tool := do
  let program ← field entries key asText?
  let flags ← field entries flagsKey asTexts?
  return ⟨program.getD default.program, flags.getD default.flags⟩

def toolKeys : List String := [
  "clang", "clang_flags", "preprocessor", "preprocessor_flags", "compiler", "compiler_flags",
  "include_paths"]

def readTools (entries : Toml.Entries) : Reading Toolchain := do
  let default := Toolchain.standard
  passOver entries toolKeys
  return {
    clang := ← readTool entries "clang" "clang_flags" default.clang
    preprocessor := ← readTool entries "preprocessor" "preprocessor_flags" default.preprocessor
    compiler := ← readTool entries "compiler" "compiler_flags" default.compiler
    includePaths := (← field entries "include_paths" asTexts?).getD default.includePaths }

/-- The settings that a document's table describes. -/
def ofEntries (document : Toml.Entries) : Reading Settings := do
  passOver document ["tools", "output", "logging"]
  let tools ← readTools ((← field document "tools" asTable?).getD [])
  let output := (← field document "output" asTable?).getD []
  passOver output ["directory"]
  let outputDir ← field output "directory" asText?
  let logging := (← field document "logging" asTable?).getD []
  passOver logging ["level"]
  let level ← field logging "level" asLevel?
  return normalize ⟨tools, outputDir, level.getD .standard⟩

/-- Why a document describes no settings. -/
inductive Refusal where
  | noDocument
  | wrongValue (key : Text)
  deriving DecidableEq, Repr

def Refusal.message : Refusal → Text
  | noDocument => "not a document".toList
  | wrongValue key => "wrong value of ".toList ++ key

/-- The settings that a text describes. -/
def parse (text : Text) : Except Refusal Settings :=
  match Toml.parse? text with
  | none => .error .noDocument
  | some document =>
    match ofEntries document with
    | .ok settings => .ok settings
    | .error wrong => .error (.wrongValue wrong.key)

end Settings

end PlainC
