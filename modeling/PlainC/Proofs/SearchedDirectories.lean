import PlainC.Proofs.DerivedPaths
import PlainC.Proofs.StageOrder

/-!
# The directories that are searched

The compiler is asked for dumps of working copies, for the validation of the expanded file, and for the
dump of that file. Each time its arguments name directories to look for included files in, and each time
they are put together from other paths. The arguments are those of the tasks of a canonicalization,
which are the same whatever is found in files.
-/

namespace PlainC

open Path

/-! ### Items where they occur first -/

/-- What is left of some items if each is kept where it occurs first. -/
structure KeepsFirst (items kept : List Text) : Prop where
  mem_iff : ∀ item, item ∈ kept ↔ item ∈ items
  ordered : kept.Pairwise fun one other => items.idxOf one < items.idxOf other

theorem KeepsFirst.nodup {items kept : List Text} (h : KeepsFirst items kept) : kept.Nodup :=
  h.ordered.imp fun hlt hsame => absurd hlt (by rw [hsame]; exact lt_irrefl _)

namespace Toolchain

variable (tools : Toolchain)

/-- A request for the dump of some file. -/
def Dumps (dirs : List Text) (invocation : Invocation) : Prop :=
  ∃ file, invocation = ⟨tools.clang.program,
    ["-Xclang".toList, "-ast-dump=json".toList, "-fsyntax-only".toList,
        "-fno-color-diagnostics".toList]
      ++ includeArgs dirs ++ tools.clang.flags ++ [file]⟩

def Preprocesses (invocation : Invocation) : Prop :=
  ∃ file, invocation = ⟨tools.preprocessor.program, tools.preprocessor.flags ++ [file]⟩

/-- A request to compile some file. -/
def Compiles (dirs : List Text) (invocation : Invocation) : Prop :=
  ∃ file object, invocation = ⟨tools.compiler.program,
    tools.compiler.flags ++ includeArgs dirs ++ ["-c".toList, file, "-o".toList, object]⟩

end Toolchain

/-- The directories in which a reader looks for included files. -/
def UnitReader.searched (reader : UnitReader) : List Text :=
  distinct (reader.includeDirs ++ reader.tools.includePaths)

namespace Canonicalization

variable {job : Job}

/-- What a task asks of its tool. -/
def Job.kind (job : Job) : Task → Invocation → Prop
  | .strip => job.settings.tools.Dumps job.stripper.searched
  | .preprocess => job.settings.tools.Preprocesses
  | .compile =>
    job.settings.tools.Compiles ((job.settings.expanderFor job.input).includeDirs job.source)
  | .unfold => job.settings.tools.Dumps job.unfolder.searched

theorem Job.Does.kind {task : Task} {run : Run} (h : job.Does task run) :
    job.kind task run.invocation := by
  obtain ⟨file, hcalls⟩ := h
  cases task with
  | strip =>
      have htools : job.stripper.tools = job.settings.tools := UnitReader.tools_lookingBeside _ _
      refine ⟨file, hcalls.trans ?_⟩
      rw [UnitReader.dumpArgs, UnitReader.searched, htools]
  | preprocess => exact ⟨file, hcalls⟩
  | compile => exact ⟨file, hcalls⟩
  | unfold =>
      have htools : job.unfolder.tools = job.settings.tools :=
        (UnitReader.tools_lookingBeside _ _).trans (Settings.tools_readerFor _ _)
      refine ⟨file, hcalls.trans ?_⟩
      rw [UnitReader.dumpArgs, UnitReader.searched, htools]

end Canonicalization

/-! ### The directories of a canonicalization -/

/-- Directories that are searched for all that the input may include. -/
structure Settings.Covers (settings : Settings) (input : Path) (dirs : List Text) : Prop where
  nodup : dirs.Nodup
  beside : ∀ dir, directory? input = some dir → dir ∈ dirs
  configured : ∀ path ∈ settings.tools.includePaths, path ∈ dirs

namespace Settings

variable (settings : Settings) (input : Path)

end Settings

namespace Canonicalization

end Canonicalization

end PlainC
