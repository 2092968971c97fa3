import PlainC.Dump.Unit
import PlainC.Settings
import PlainC.World

/-!
# Reading compilation units

A file is read together with the compiler's dump of it. The compiler may complain, so long as it prints
a dump.
-/

namespace PlainC

/-- Each item where it occurs first. -/
def distinct (items : List Text) : List Text :=
  items.foldl (fun kept item => if kept.contains item then kept else kept ++ [item]) []

/-- The arguments that name directories to look for included files in. -/
def includeArgs (dirs : List Text) : List Text := dirs.flatMap fun dir => ["-I".toList, dir]

structure UnitReader where
  tools : Toolchain
  /-- Directories to look in before those of the settings. -/
  includeDirs : List Path

namespace UnitReader

def ofTools (tools : Toolchain) : UnitReader := ⟨tools, []⟩

/-- Adds a directory, unless it is there under some spelling. -/
def addDirectory (reader : UnitReader) (dir : Path) : UnitReader :=
  if reader.includeDirs.any fun other => Path.components other = Path.components dir then reader
  else { reader with includeDirs := reader.includeDirs ++ [dir] }

theorem tools_addDirectory (reader : UnitReader) (dir : Path) :
    (reader.addDirectory dir).tools = reader.tools := by
  rw [addDirectory]
  split <;> rfl

/-- A reader that also looks beside a file. -/
def lookingBeside (reader : UnitReader) (path : Path) : UnitReader :=
  match Path.directory? path with
  | some dir => reader.addDirectory dir
  | none => reader

theorem tools_lookingBeside (reader : UnitReader) (path : Path) :
    (reader.lookingBeside path).tools = reader.tools := by
  rw [lookingBeside]
  split
  · exact reader.tools_addDirectory _
  · rfl

def dumpArgs (reader : UnitReader) (path : Path) : List Text :=
  ["-Xclang".toList, "-ast-dump=json".toList, "-fsyntax-only".toList,
      "-fno-color-diagnostics".toList]
    ++ includeArgs (distinct (reader.includeDirs ++ reader.tools.includePaths))
    ++ reader.tools.clang.flags ++ [path]

/-- The rows of a compiler's complaint that tell of errors. -/
def complaints (stderr : Text) : List Text :=
  (Text.rows stderr).filter (Text.contains "error:".toList)

/-- The dump of a file as text. -/
def dump (reader : UnitReader) (path : Path) : Action Text := do
  let output ← Action.invoke reader.tools.clang.program (reader.dumpArgs path)
  if !output.isSuccess then
    for row in complaints output.stderr do
      Action.warn ("[ast-dump] compiler error: ".toList ++ row)
    Action.debug
      "[ast-dump] exited with non-zero status (partial AST may still be usable)".toList
  if output.stdout.head? ≠ some '\x7b' then
    throw (.malformed path ("clang produced no AST:\n".toList ++ output.report))
  Action.debug
    ("[ast-dump] produced ".toList ++ Text.ofNat (Text.byteLength output.stdout)
      ++ " bytes of JSON for ".toList ++ path)
  return output.stdout

/-- The names under which a dump may speak of a file. -/
def spellings (world : World) (path : Path) : List Text :=
  distinct (path :: (world.absolutePath? path).toList)

/-- Reads a file and its dump. -/
def parse (reader : UnitReader) (path : Path) : Action CompilationUnit := do
  let text ← Action.readText path
  let dump ← reader.dump path
  match Dump.parse? dump with
  | none => throw (.malformed path "invalid AST JSON: not a dump".toList)
  | some root =>
    let unit := Dump.toUnit path (.ofText text) (spellings (← get) path) root
    Action.debug
      ("[parse] ".toList ++ path ++ ": ".toList ++ Text.ofNat unit.functions.length
        ++ " functions, ".toList ++ Text.ofNat unit.typedefs.length
        ++ " typedefs in main file".toList)
    return unit

end UnitReader

end PlainC
