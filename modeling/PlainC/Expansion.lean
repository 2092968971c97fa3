import PlainC.UnitReader
import PlainC.Scratch

/-!
# Expanding macros

Included files are not to be expanded: the lines that include them are set aside, the preprocessor runs
over the rest, and the lines go on top of its output. What comes out must compile.
-/

namespace PlainC

namespace Expansion

/-- Whether a row begins with a directive, blanks aside. -/
def isDirective (directive : String) (row : Text) : Bool :=
  directive.toList.isPrefixOf (Text.trim row)

def opensGuard (row : Text) : Bool := isDirective "#ifdef __cplusplus" row

def closesGuard (row : Text) : Bool := isDirective "#endif" row

def isInclude (row : Text) : Bool := isDirective "#include" row

/-- The rows without those from a guard against C++ to the first end of a condition behind it. A guard
without an end is kept. `skip` counts the rows that are still to go. -/
def dropGuardsFrom : (skip : Nat) → List Text → List Text
  | _, [] => []
  | skip + 1, _ :: rows => dropGuardsFrom skip rows
  | 0, row :: rows =>
    if opensGuard row then
      match rows.findIdx? closesGuard with
      | some n => dropGuardsFrom (n + 1) rows
      | none => row :: dropGuardsFrom 0 rows
    else row :: dropGuardsFrom 0 rows

def dropGuards (rows : List Text) : List Text := dropGuardsFrom 0 rows

/-- The rows with those that include files emptied, and what they were. -/
def setIncludesAside (rows : List Text) : List Text × List Text :=
  (rows.map fun row => if isInclude row then [] else row, rows.filter isInclude)

/-- The expanded text with the included files on top. -/
def assemble (includes : List Text) (expanded : Text) : Text :=
  Text.joinLines includes ++ '\n' :: expanded

/-- Runs the preprocessor over a file. -/
def runPreprocessor (tools : Toolchain) (file : Path) : Action Text := do
  let output ← Action.invoke tools.preprocessor.program (tools.preprocessor.flags ++ [file])
  if !output.isSuccess then throw (.preprocessing file output.report)
  return output.stdout

/-- Compiles a file to see whether it compiles. -/
def checkCompiles (tools : Toolchain) (file object : Path) (includeDirs : List Text) :
    Action Unit := do
  let args := tools.compiler.flags ++ includeArgs includeDirs
    ++ ["-c".toList, file, "-o".toList, object]
  let output ← Action.invoke tools.compiler.program args
  if !output.isSuccess then
    let diagnostics := Diagnostic.parse output.stderr
    for diagnostic in diagnostics do
      if diagnostic.severity = .error then
        Action.warn ("[validate] ".toList ++ diagnostic.render)
    throw (.notCompiling file diagnostics output.report)

/-- Names the user's file in place of the working copy. -/
def relabel (input : Path) : Error → Error
  | .preprocessing _ output => .preprocessing input output
  | error => error

end Expansion

structure Expander where
  tools : Toolchain
  /-- Where expanded files go; beside their sources if there is none. -/
  outputDir : Option Path

namespace Expander

open Expansion

/-- Adds a directory in which included files are looked for, behind those of the settings. -/
def addDirectory (expander : Expander) (dir : Path) : Expander :=
  if expander.tools.includePaths.contains dir then expander
  else
    { expander with
      tools := { expander.tools with includePaths := expander.tools.includePaths ++ [dir] } }

/-- The directory of the input and those of the settings. -/
def includeDirs (expander : Expander) (input : Path) : List Text :=
  distinct ((Path.directory? input).toList ++ expander.tools.includePaths)

/-- Expands a file in a scratch directory, and gives the path of the expanded file. -/
def expandIn (expander : Expander) (input : Path) (name : Text) (rows includes : List Text)
    (dir : Path) : Action Path := do
  let copy ← Scratch.write dir name (Text.joinLines rows)
  let expanded ← ExceptT.adapt (relabel input) (runPreprocessor expander.tools copy)
  let output := Path.expanded input expander.outputDir
  Action.writeText output (assemble includes expanded)
  checkCompiles expander.tools output (Path.join dir "validate.o".toList) (expander.includeDirs input)
  return output

/-- Expands the macros of a file into a file of its own. -/
def expand (expander : Expander) (input : Path) : Action Path := do
  let text ← Action.readText input
  match Path.fileName? input with
  | none => throw (.malformed input "input path has no UTF-8 file name".toList)
  | some name =>
    let (rows, includes) := setIncludesAside (dropGuards (Text.rows text))
    Action.debug ("[expand] ".toList ++ input ++ ": detached ".toList
      ++ Text.ofNat includes.length ++ " include lines".toList)
    let output ← Scratch.run "expand".toList (expander.expandIn input name rows includes)
    Action.info ("Expanded macros of ".toList ++ input ++ " into ".toList ++ output)
    return output

end Expander

end PlainC
