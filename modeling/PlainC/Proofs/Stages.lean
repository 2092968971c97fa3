import PlainC.Proofs.DerivedFiles

/-!
# The stages of a canonicalization

What a canonicalization does depends on the answers of its tools alone, once the input has been read.
A stage says what is to be done next and with which text; the run of a tool leads to another stage, or
to none if its answer will not do. The compiler that dumps a file may fail, so long as it prints a dump.
All this takes for granted that a file holds what was written to it, as it does unless a log is kept in
the same file; which tools are started, and in what order, does not depend on that.
-/

namespace PlainC

open FileTree

namespace Canonicalization

/-- What is to be done next. Functions behind the first wait for their turn. -/
inductive Stage where
  | strip (name : Text) (others : List Text) (text : Text)
  /-- The declaration of a function was edited, and its definition is to be found again. -/
  | reread (name : Text) (others : List Text) (text : Text)
  | preprocess (text : Text)
  | compile (text : Text)
  | unfold (text : Text)
  | finished (text : Text)

namespace Stage

/-- A text of which some functions are still to be stripped. -/
def stripping : List Text → Text → Stage
  | [], text => preprocess text
  | name :: others, text => strip name others text

/-- The source without the `static` that the declaration of a function begins with, if it does. -/
def editedSource? (unit : CompilationUnit) (pair : FunctionPair) : Except Misplaced (Option Source) :=
  match pair.declaration with
  | none => .ok none
  | some declaration => return Stripping.removeLeadingStatic? unit.source (← unit.tokensOf declaration)

/-- Behind the definition of a function, the next function has its turn. -/
def afterDefinition? (unit : CompilationUnit) (definition : Function) (others : List Text) :
    Option Stage := do
  let tokens ← (unit.tokensOf definition).toOption
  return stripping others
    ((Stripping.removeLeadingStatic? unit.source tokens).getD unit.source).toText

/-- A function is read a second time exactly when its declaration was edited. -/
def afterUnit? (name : Text) (others : List Text) (unit : CompilationUnit) : Option Stage := do
  let pair ← (unit.lookup name).toOption
  let edited ← (editedSource? unit pair).toOption
  edited.elim (afterDefinition? unit pair.definition others) fun source =>
    some (reread name others source.toText)

def afterReread? (name : Text) (others : List Text) (unit : CompilationUnit) : Option Stage := do
  let pair ← (unit.lookup name).toOption
  afterDefinition? unit pair.definition others

def afterLast? (unit : CompilationUnit) : Option Stage :=
  (Unfolding.unfold unit.source unit.typedefs unit.aliases).toOption.map finished

/-- The lines of a text that are left for the preprocessor, and those that are set aside. -/
def detached (text : Text) : List Text × List Text :=
  Expansion.setIncludesAside (Expansion.dropGuards (Text.rows text))

/-- The stage that the run of a tool leads to. -/
def next? (home : Location) : Stage → Run → Option Stage
  | strip name others text, run => (run.unit? home text).bind (afterUnit? name others)
  | reread name others text, run => (run.unit? home text).bind (afterReread? name others)
  | preprocess text, run =>
    run.stdout?.map fun expanded => compile (Expansion.assemble (detached text).2 expanded)
  | compile text, run => run.stdout?.map fun _ => unfold text
  | unfold text, run => (run.unit? home text).bind afterLast?
  | finished _, _ => none

/-- The same stage with another text. -/
def withText : Stage → Text → Stage
  | strip name others _, text => strip name others text
  | reread name others _, text => reread name others text
  | preprocess _, text => preprocess text
  | compile _, text => compile text
  | unfold _, text => unfold text
  | finished _, text => finished text

end Stage

/-- What a tool is started for: the dump of a working copy, the expansion of the source, the check that
the output compiles, and the dump of the output. -/
inductive Task where
  | strip
  | preprocess
  | compile
  | unfold

/-- What is to be canonicalized, and where relative paths start from. -/
structure Job where
  settings : Settings
  input : Path
  names : List Text
  home : Location

namespace Job

variable (job : Job)

/-- The file that is expanded. -/
def source : Path :=
  if job.names.isEmpty then job.input else Path.stripped job.input job.settings.outputDir

/-- The file that comes out. -/
def output : Path := Path.expanded job.source job.settings.outputDir

/-- The reader that functions are stripped with. -/
def stripper : UnitReader := job.settings.reader.lookingBeside job.input

/-- The reader that the output is unfolded with. -/
def unfolder : UnitReader := (job.settings.readerFor job.input).lookingBeside job.output

/-- Whether an invocation is for a task, with a file. -/
def Calls : Task → Path → Invocation → Prop
  | .strip, file, invocation =>
    invocation = ⟨job.settings.tools.clang.program, job.stripper.dumpArgs file⟩
  | .preprocess, file, invocation =>
    invocation = ⟨job.settings.tools.preprocessor.program,
      job.settings.tools.preprocessor.flags ++ [file]⟩
  | .compile, file, invocation =>
    ∃ object, invocation = ⟨job.settings.tools.compiler.program,
      job.settings.tools.compiler.flags
        ++ includeArgs ((job.settings.expanderFor job.input).includeDirs job.source)
        ++ ["-c".toList, file, "-o".toList, object]⟩
  | .unfold, file, invocation =>
    invocation = ⟨job.settings.tools.clang.program, job.unfolder.dumpArgs file⟩

/-- Whether a tool that was run is the one that a stage asks for, and saw the text of the stage. -/
def Asks : Stage → Run → Prop
  | .strip _ _ text, run | .reread _ _ text, run =>
    ∃ copy, job.Calls .strip copy run.invocation ∧ run.Sees job.home copy text
  | .preprocess text, run =>
    ∃ copy, job.Calls .preprocess copy run.invocation ∧
      run.Sees job.home copy (Text.joinLines (Stage.detached text).1)
  | .compile text, run =>
    job.Calls .compile job.output run.invocation ∧ run.Sees job.home job.output text
  | .unfold text, run =>
    job.Calls .unfold job.output run.invocation ∧ run.Sees job.home job.output text
  | .finished _, _ => False

/-- A course that takes into account what may happen to files. The parameter `kept` says that they keep
what is written to them, and then a trail is a course. Otherwise another text than that of the stage may
have been seen by a tool, or be found in a file; the invocations are those of a course all the same. -/
inductive Trail (kept : Prop) : Option Stage → List Run → Option Stage → Prop where
  | here (stage : Option Stage) : Trail kept stage [] stage
  | step {stage : Stage} {run : Run} {runs : List Run} {last : Option Stage} (tree : FileTree) :
      job.Asks stage { run with tree := tree } → (kept → tree = run.tree) →
      Trail kept (stage.next? job.home run) runs last → Trail kept (some stage) (run :: runs) last
  | other {stage : Stage} {runs : List Run} {last : Option Stage} (text : Text) : ¬kept →
      Trail kept (some (stage.withText text)) runs last → Trail kept (some stage) runs last

variable {job} {kept : Prop}

theorem Trail.trans {first middle last : Option Stage} {runs more : List Run}
    (h : job.Trail kept first runs middle) (hmore : job.Trail kept middle more last) :
    job.Trail kept first (runs ++ more) last := by
  induction h with
  | here stage => exact hmore
  | step tree hasks htree _ ih => exact .step tree hasks htree (ih hmore)
  | other text hkept _ ih => exact .other text hkept (ih hmore)

theorem Trail.of_none {runs : List Run} {last : Option Stage} (h : job.Trail kept none runs last) :
    runs = [] ∧ last = none := by
  cases h
  exact ⟨rfl, rfl⟩

end Job

def Task.program (tools : Toolchain) : Task → Text
  | strip | unfold => tools.clang.program
  | preprocess => tools.preprocessor.program
  | compile => tools.compiler.program

/-- The tasks of a whole canonicalization, where functions are read as often as the counts say. -/
def tasks (counts : List Nat) : List Task :=
  counts.flatMap (List.replicate · .strip) ++ [.preprocess, .compile, .unfold]

/-- One or two runs for each function. -/
structure IsCount (names : List Text) (counts : List Nat) : Prop where
  length : counts.length = names.length
  range : ∀ count ∈ counts, count = 1 ∨ count = 2

theorem IsCount.nil : IsCount [] [] := ⟨rfl, by simp⟩

theorem IsCount.cons {names : List Text} {counts : List Nat} {count : Nat} (name : Text)
    (hcount : count = 1 ∨ count = 2) (h : IsCount names counts) :
    IsCount (name :: names) (count :: counts) := by
  refine ⟨by rw [List.length_cons, List.length_cons, h.length], ?_⟩
  intro other hother
  rcases List.mem_cons.mp hother with rfl | hmem
  · exact hcount
  · exact h.range other hmem

theorem exists_isCount (names : List Text) : ∃ counts, IsCount names counts := by
  induction names with
  | nil => exact ⟨[], .nil⟩
  | cons name names ih =>
      obtain ⟨counts, hcounts⟩ := ih
      exact ⟨1 :: counts, hcounts.cons name (.inl rfl)⟩

namespace Stage

/-- What a stage needs a tool for. -/
def task? : Stage → Option Task
  | strip _ _ _ | reread _ _ _ => some .strip
  | preprocess _ => some .preprocess
  | compile _ => some .compile
  | unfold _ => some .unfold
  | finished _ => none

/-- The tasks that a stage still waits for. -/
def Awaits : Stage → List Task → Prop
  | strip name others _, plan => ∃ counts, IsCount (name :: others) counts ∧ plan = tasks counts
  | reread _ others _, plan => ∃ counts, IsCount others counts ∧ plan = .strip :: tasks counts
  | preprocess _, plan => plan = tasks []
  | compile _, plan => plan = [.compile, .unfold]
  | unfold _, plan => plan = [.unfold]
  | finished _, plan => plan = []

theorem awaits_withText_iff {stage : Stage} {text : Text} {plan : List Task} :
    (stage.withText text).Awaits plan ↔ stage.Awaits plan := by
  cases stage <;> rfl

theorem awaits_stripping_iff {names : List Text} {text : Text} {plan : List Task} :
    (stripping names text).Awaits plan ↔ ∃ counts, IsCount names counts ∧ plan = tasks counts := by
  cases names with
  | cons name others => rfl
  | nil =>
      constructor
      · intro h
        exact ⟨[], .nil, h⟩
      · rintro ⟨counts, hcounts, rfl⟩
        rw [List.length_eq_zero_iff.mp hcounts.length]
        rfl

section Strip

variable {name other : Text} {others : List Text} {text edited : Text} {plan : List Task}

theorem Awaits.strip_once (h : (stripping others edited).Awaits plan) :
    (strip name others text).Awaits (.strip :: plan) := by
  obtain ⟨counts, hcounts, rfl⟩ := awaits_stripping_iff.mp h
  exact ⟨1 :: counts, hcounts.cons name (.inl rfl), rfl⟩

theorem Awaits.strip_twice (h : (reread other others edited).Awaits plan) :
    (strip name others text).Awaits (.strip :: plan) := by
  obtain ⟨counts, hcounts, rfl⟩ := h
  exact ⟨2 :: counts, hcounts.cons name (.inr rfl), rfl⟩

theorem Awaits.reread (h : (stripping others edited).Awaits plan) :
    (reread name others text).Awaits (.strip :: plan) := by
  obtain ⟨counts, hcounts, rfl⟩ := awaits_stripping_iff.mp h
  exact ⟨counts, hcounts, rfl⟩

end Strip

theorem exists_awaits (stage : Stage) : ∃ plan, stage.Awaits plan := by
  cases stage with
  | strip name others text =>
      obtain ⟨counts, hcounts⟩ := exists_isCount (name :: others)
      exact ⟨_, counts, hcounts, rfl⟩
  | reread name others text =>
      obtain ⟨counts, hcounts⟩ := exists_isCount others
      exact ⟨_, counts, hcounts, rfl⟩
  | preprocess text => exact ⟨_, rfl⟩
  | compile text => exact ⟨_, rfl⟩
  | unfold text => exact ⟨_, rfl⟩
  | finished text => exact ⟨_, rfl⟩

/-- A stage waits for its own task first, whatever comes of it. -/
theorem exists_awaits_cons {stage : Stage} {task : Task} (h : stage.task? = some task) :
    ∃ plan, stage.Awaits (task :: plan) := by
  cases stage with
  | strip name others text =>
      cases h
      obtain ⟨plan, hawaits⟩ := (stripping others text).exists_awaits
      exact ⟨plan, hawaits.strip_once⟩
  | reread name others text =>
      cases h
      obtain ⟨plan, hawaits⟩ := (stripping others text).exists_awaits
      exact ⟨plan, hawaits.reread⟩
  | preprocess text =>
      cases h
      exact ⟨_, rfl⟩
  | compile text =>
      cases h
      exact ⟨_, rfl⟩
  | unfold text =>
      cases h
      exact ⟨_, rfl⟩
  | finished text => cases h

theorem stripping_of_afterDefinition? {unit : CompilationUnit} {definition : Function}
    {others : List Text} {stage : Stage}
    (h : afterDefinition? unit definition others = some stage) :
    ∃ text, stage = stripping others text := by
  obtain ⟨tokens, -, hstage⟩ := Option.bind_eq_some_iff.mp h
  exact ⟨_, (Option.some.inj hstage).symm⟩

theorem cases_of_afterUnit? {name : Text} {others : List Text} {unit : CompilationUnit}
    {stage : Stage} (h : afterUnit? name others unit = some stage) :
    (∃ text, stage = .reread name others text) ∨ ∃ text, stage = stripping others text := by
  obtain ⟨pair, -, hpair⟩ := Option.bind_eq_some_iff.mp h
  obtain ⟨edited, -, hedited⟩ := Option.bind_eq_some_iff.mp hpair
  cases edited with
  | some source => exact .inl ⟨_, (Option.some.inj hedited).symm⟩
  | none => exact .inr (stripping_of_afterDefinition? hedited)

/-- What the next stage waits for comes behind the task that leads to it. -/
theorem awaits_of_next? {stage next : Stage} {home : Location} {run : Run} {task : Task}
    {plan : List Task} (htask : stage.task? = some task) (hnext : stage.next? home run = some next)
    (hawaits : next.Awaits plan) : stage.Awaits (task :: plan) := by
  cases stage with
  | strip name others text =>
      cases htask
      obtain ⟨unit, -, hunit⟩ := Option.bind_eq_some_iff.mp hnext
      rcases cases_of_afterUnit? hunit with ⟨edited, rfl⟩ | ⟨edited, rfl⟩
      · exact hawaits.strip_twice
      · exact hawaits.strip_once
  | reread name others text =>
      cases htask
      obtain ⟨unit, -, hunit⟩ := Option.bind_eq_some_iff.mp hnext
      obtain ⟨pair, -, hpair⟩ := Option.bind_eq_some_iff.mp hunit
      obtain ⟨edited, rfl⟩ := stripping_of_afterDefinition? hpair
      exact hawaits.reread
  | preprocess text =>
      cases htask
      obtain ⟨expanded, -, rfl⟩ := Option.map_eq_some_iff.mp hnext
      exact congrArg (Task.preprocess :: ·) hawaits
  | compile text =>
      cases htask
      obtain ⟨expanded, -, rfl⟩ := Option.map_eq_some_iff.mp hnext
      exact congrArg (Task.compile :: ·) hawaits
  | unfold text =>
      cases htask
      obtain ⟨unit, -, hunit⟩ := Option.bind_eq_some_iff.mp hnext
      obtain ⟨content, -, rfl⟩ := Option.map_eq_some_iff.mp hunit
      exact congrArg (Task.unfold :: ·) hawaits
  | finished text => cases htask

end Stage

section Tasks

variable {job : Job} {kept : Prop} {stage : Stage}

/-- That a run was for a task, with some file. -/
def Job.Does (job : Job) (task : Task) (run : Run) : Prop := ∃ file, job.Calls task file run.invocation

theorem Job.Asks.exists_task {run : Run} {tree : FileTree}
    (h : job.Asks stage { run with tree := tree }) :
    ∃ task, stage.task? = some task ∧ job.Does task run := by
  cases stage with
  | strip | reread | preprocess =>
      obtain ⟨copy, hcalls, -⟩ := h
      exact ⟨_, rfl, copy, hcalls⟩
  | compile | unfold => exact ⟨_, rfl, job.output, h.1⟩
  | finished => exact absurd h id

/-- The runs of a trail are for the first tasks that its stage waits for, and for all of them when it
comes to the end. -/
theorem Job.Trail.exists_awaits {runs : List Run} {last : Option Stage}
    (h : job.Trail kept (some stage) runs last) :
    ∃ plan begun, stage.Awaits plan ∧ begun <+: plan ∧ List.Forall₂ job.Does begun runs ∧
      ∀ text, last = some (.finished text) → begun = plan := by
  generalize hfirst : some stage = first at h
  induction h generalizing stage with
  | here first =>
      subst hfirst
      obtain ⟨plan, hawaits⟩ := stage.exists_awaits
      refine ⟨plan, [], hawaits, List.nil_prefix, .nil, ?_⟩
      rintro text ⟨⟩
      exact hawaits.symm
  | @step first run runs last tree hasks _ htrail ih =>
      cases hfirst
      obtain ⟨task, htask, hdoes⟩ := hasks.exists_task
      cases hnext : first.next? job.home run with
      | none =>
          -- The answer would not do: nothing is run behind it, and any plan it can begin will serve.
          rw [hnext] at htrail
          obtain ⟨rfl, rfl⟩ := htrail.of_none
          obtain ⟨plan, hawaits⟩ := Stage.exists_awaits_cons htask
          refine ⟨_, [task], hawaits, (List.prefix_cons_inj _).mpr List.nil_prefix,
            .cons hdoes .nil, ?_⟩
          intro text hlast
          cases hlast
      | some next =>
          obtain ⟨plan, begun, hawaits, hprefix, hdone, hend⟩ := ih hnext.symm
          refine ⟨_, task :: begun, Stage.awaits_of_next? htask hnext hawaits,
            (List.prefix_cons_inj _).mpr hprefix, .cons hdoes hdone, ?_⟩
          intro text hlast
          rw [hend text hlast]
  | other text _ _ ih =>
      cases hfirst
      obtain ⟨plan, begun, hawaits, hrest⟩ := ih rfl
      exact ⟨plan, begun, Stage.awaits_withText_iff.mp hawaits, hrest⟩

end Tasks

/-! ### The end of a course -/

namespace Job.Course

variable {job : Job} {content : Text}

end Job.Course

end Canonicalization

end PlainC
