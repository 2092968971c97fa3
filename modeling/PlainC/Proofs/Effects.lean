import PlainC.Expansion
import PlainC.Proofs.Action
import PlainC.Proofs.Footprint

/-!
# What actions do to the world

An action that fails has done something all the same. What it may have done is said here for both
outcomes: which files it spares, which tools it has started, and what it takes their answers for. Most
actions either start no tool and come out the same in every world, or start one tool and leave the
outcome to its answer.
-/

namespace PlainC

/-! ### Worlds -/

namespace World

variable {world between after : World} {places more : Set Location}

def logPlaces (world : World) : Set Location :=
  {location | ∃ file, world.logFile = some file ∧ file.location = location}

/-- That relative paths start from the same directory as before, and the log is in the same file. -/
structure Continues (world after : World) : Prop where
  home : after.home = world.home
  logFile : after.logFile = world.logFile

namespace Continues

theorem refl (world : World) : world.Continues world := ⟨rfl, rfl⟩

theorem trans (hfirst : world.Continues between) (hsecond : between.Continues after) :
    world.Continues after :=
  ⟨hsecond.home.trans hfirst.home, hsecond.logFile.trans hfirst.logFile⟩

theorem logPlaces_eq (h : world.Continues after) : after.logPlaces = world.logPlaces := by
  rw [logPlaces, logPlaces, h.logFile]

end Continues

/-- What happens to a world if files change in some places only. The log goes on all the same. -/
structure Spares (places : Set Location) (world after : World) : Prop extends
    world.Continues after where
  runs : world.runs <+: after.runs
  tree : world.tree.Spares (places ∪ world.logPlaces) after.tree

namespace Spares

theorem refl (world : World) : world.Spares places world :=
  ⟨.refl world, List.prefix_refl world.runs, .refl world.tree⟩

theorem trans (hfirst : world.Spares places between) (hsecond : between.Spares places after) :
    world.Spares places after where
  toContinues := hfirst.toContinues.trans hsecond.toContinues
  runs := hfirst.runs.trans hsecond.runs
  tree := by
    have htree := hsecond.tree
    rw [hfirst.logPlaces_eq] at htree
    exact hfirst.tree.trans htree

theorem mono (h : world.Spares places after) (hmore : places ⊆ more) : world.Spares more after :=
  ⟨h.toContinues, h.runs, h.tree.mono (Set.union_subset_union_left _ hmore)⟩

theorem rooted (h : world.Spares places after) : world.tree.Rooted → after.tree.Rooted :=
  h.tree.rooted

theorem of_empty (h : world.Spares ∅ after) : world.Spares places after :=
  h.mono (Set.empty_subset places)

theorem get?_eq {location : Location} (h : world.Spares ∅ after) (hout : location ∉ world.logPlaces) :
    after.tree.get? location = world.tree.get? location := by
  apply h.tree.elsewhere
  rwa [Set.empty_union]

end Spares

theorem spares_addRecord (world : World) (level : LogLevel) (message : Text) :
    world.Spares places (world.addRecord level message) := by
  refine ⟨⟨rfl, rfl⟩, List.prefix_refl world.runs, ?_⟩
  cases hfile : world.logFile with
  | none =>
      simp only [addRecord, hfile]
      exact .refl world.tree
  | some file =>
      simp only [addRecord, hfile, LogFile.add]
      split
      · apply (FileTree.spares_append world.tree file.location _).mono
        rintro location rfl
        exact .inr ⟨file, hfile, rfl⟩
      · exact .refl world.tree

theorem tree_addRecord (world : World) (tree : FileTree) (level : LogLevel) (message : Text) :
    tree.Spares world.logPlaces ({ world with tree := tree }.addRecord level message).tree := by
  have hspares : Spares ∅ { world with tree := tree } _ := spares_addRecord _ level message
  have htree := hspares.tree
  rw [Set.empty_union] at htree
  exact htree

theorem spares_writeText {path : Path} {text : Text} (hwrite : world.writeText path text = .ok after) :
    world.Spares {FileTree.placeOf world.home path} after := by
  obtain ⟨tree, htree, rfl⟩ := writeText_eq_ok_iff.mp hwrite
  refine ⟨⟨rfl, rfl⟩, List.prefix_refl world.runs, ?_⟩
  exact (FileTree.spares_write htree).mono Set.subset_union_left

theorem Spares.readText {path : Path} {text : Text} (h : world.Spares ∅ after)
    (hread : world.readText path = .ok text)
    (hout : FileTree.placeOf world.home path ∉ world.logPlaces) : after.readText path = .ok text := by
  rw [readText_eq_ok_iff, h.home]
  apply h.tree.read (readText_eq_ok_iff.mp hread)
  rwa [Set.empty_union]

/-- A file that could be read can be written, also if it is the log. -/
theorem Spares.exists_writeText {path : Path} {before : Text} (h : world.Spares ∅ after)
    (hrooted : world.tree.Rooted) (hread : world.readText path = .ok before) (text : Text) :
    ∃ written, after.writeText path text = .ok written := by
  obtain ⟨hresolve, hget⟩ := FileTree.read_eq_ok_iff.mp (readText_eq_ok_iff.mp hread)
  obtain ⟨other, hother⟩ := FileTree.isFile_of_spares h.tree ⟨_, hget⟩
  have hthere : after.tree.read world.home path = .ok other :=
    FileTree.read_eq_ok_iff.mpr ⟨h.tree.resolve hresolve, hother⟩
  obtain ⟨tree, htree⟩ := (h.rooted hrooted).exists_write hthere (Text.toBytes text)
  rw [← h.home] at htree
  exact ⟨_, writeText_eq_ok_iff.mpr ⟨tree, htree, rfl⟩⟩

def addRun (world : World) (run : Run) : World := { world with runs := world.runs ++ [run] }

theorem spares_addRun (world : World) (run : Run) : world.Spares places (world.addRun run) :=
  ⟨⟨rfl, rfl⟩, List.prefix_append world.runs [run], .refl world.tree⟩

theorem launch_cases (world : World) (invocation : Invocation) :
    (∃ cause, world.launch invocation = (.error cause, world)) ∨
      ∃ printed, world.launch invocation =
        (.ok printed, world.addRun ⟨invocation, world.tree, printed⟩) := by
  rw [launch]
  split
  · exact .inl ⟨_, rfl⟩
  split
  · exact .inr ⟨_, rfl⟩
  · exact .inl ⟨_, rfl⟩

end World

/-! ### Actions -/

namespace Action

variable {α β : Type} {world : World} {places : Set Location}

theorem run_bind_of_yields {action : Action α} {value : α} {between : World}
    (h : action.Yields world value between) (next : α → Action β) :
    (action >>= next).run world = (next value).run between := by
  change (ExceptT.bindCont next (action.run world).1).run (action.run world).2 = _
  rw [Yields] at h
  rw [h]
  rfl

theorem run_bind_of_error {action : Action α} {error : Error} {after : World}
    (h : action.run world = (.error error, after)) (next : α → Action β) :
    (action >>= next).run world = (.error error, after) := by
  change (ExceptT.bindCont next (action.run world).1).run (action.run world).2 = _
  rw [h]
  rfl

theorem run_cases (action : Action α) (world : World) :
    (∃ error after, action.run world = (.error error, after)) ∨
      ∃ value after, action.Yields world value after := by
  rcases haction : action.run world with ⟨result, after⟩
  cases result with
  | error error => exact .inl ⟨error, after, rfl⟩
  | ok value => exact .inr ⟨value, after, haction⟩

theorem spares_bind {action : Action α} {next : α → Action β}
    (hfirst : world.Spares places (action.run world).2)
    (hnext : ∀ value between, action.Yields world value between → world.Spares places between →
      between.Spares places ((next value).run between).2) :
    world.Spares places ((action >>= next).run world).2 := by
  rcases run_cases action world with ⟨error, after, hfail⟩ | ⟨value, between, hyields⟩
  · rw [run_bind_of_error hfail]
    rwa [hfail] at hfirst
  · rw [hyields] at hfirst
    rw [run_bind_of_yields hyields]
    exact hfirst.trans (hnext value between hyields hfirst)

/-- A record that is made or not leaves the runs as they are. -/
theorem exists_yields_of_debug {noted : Prop} [Decidable noted] {message : Text} {next : Action α}
    {value : α} {after : World}
    (h : Yields (if noted then debug message >>= fun _ => next else next) world value after) :
    ∃ start : World, start.runs = world.runs ∧ world.Continues start ∧
      Yields next start value after := by
  split at h
  · rw [yields_bind_iff] at h
    obtain ⟨_, logged, hlog, h⟩ := h
    obtain rfl := yields_log_iff.mp hlog
    exact ⟨world.addRecord .debug message, rfl, ⟨rfl, rfl⟩, h⟩
  · exact ⟨world, rfl, .refl world, h⟩

/-- A branch that comes back to the main way. -/
theorem spares_detour {noted : Prop} [Decidable noted] {action next : Action α}
    (haction : (∀ between : World, between.home = world.home →
      between.Spares places (next.run between).2) → world.Spares places (action.run world).2)
    (hnext : ∀ between : World, between.home = world.home →
      between.Spares places (next.run between).2) :
    world.Spares places ((if noted then action else next).run world).2 := by
  split
  · exact haction hnext
  · exact hnext world rfl

theorem readText_cases (path : Path) (world : World) :
    (∃ error, (readText path).run world = (.error error, world)) ∨
      ∃ text, world.readText path = .ok text ∧ (readText path).Yields world text world := by
  cases hread : world.readText path with
  | ok text => exact .inr ⟨text, rfl, yields_readText_iff.mpr ⟨hread, rfl⟩⟩
  | error cause =>
      left
      refine ⟨.file path cause, ?_⟩
      rw [readText, run_bind_of_yields (yields_get_iff.mpr ⟨rfl, rfl⟩), hread]
      rfl

theorem yields_writeText {path : Path} {text : Text} {after : World}
    (hwrite : world.writeText path text = .ok after) :
    (writeText path text).Yields world () after := by
  rw [Yields, writeText, run_bind_of_yields (yields_get_iff.mpr ⟨rfl, rfl⟩), hwrite]
  rfl

theorem writeText_cases (path : Path) (text : Text) (world : World) :
    (∃ error, (writeText path text).run world = (.error error, world)) ∨
      ∃ after, world.writeText path text = .ok after ∧
        (writeText path text).Yields world () after := by
  cases hwrite : world.writeText path text with
  | ok after => exact .inr ⟨after, rfl, yields_writeText hwrite⟩
  | error cause =>
      left
      refine ⟨.file path cause, ?_⟩
      rw [writeText, run_bind_of_yields (yields_get_iff.mpr ⟨rfl, rfl⟩), hwrite]
      rfl

theorem spares_writeText (path : Path) (text : Text) (world : World) :
    world.Spares {FileTree.placeOf world.home path} ((writeText path text).run world).2 := by
  rcases writeText_cases path text world with ⟨error, hfail⟩ | ⟨after, hwrite, hyields⟩
  · rw [hfail]
    exact .refl world
  · rw [hyields]
    exact World.spares_writeText hwrite

/-- That an action starts no tool, changes no file, and comes to a result. -/
structure Settles (action : Action α) (world : World) (result : Option α) : Prop where
  result : (action.run world).1.toOption = result
  runs : (action.run world).2.runs = world.runs
  spares : world.Spares ∅ (action.run world).2

namespace Settles

theorem yields {action : Action α} {value : α} (h : action.Settles world (some value)) :
    ∃ after, action.Yields world value after ∧ after.runs = world.runs ∧ world.Spares ∅ after := by
  obtain ⟨hresult, hruns, hspares⟩ := h
  rcases run_cases action world with ⟨error, after, hfail⟩ | ⟨other, after, hyields⟩
  · rw [hfail] at hresult
    cases hresult
  · rw [hyields] at hresult hruns hspares
    cases hresult
    exact ⟨after, hyields, hruns, hspares⟩

theorem fails {action : Action α} (h : action.Settles world none) :
    ∃ error after, action.run world = (.error error, after) ∧ after.runs = world.runs ∧
      world.Spares ∅ after := by
  obtain ⟨hresult, hruns, hspares⟩ := h
  rcases run_cases action world with ⟨error, after, hfail⟩ | ⟨value, after, hyields⟩
  · rw [hfail] at hruns hspares
    exact ⟨error, after, hfail, hruns, hspares⟩
  · rw [hyields] at hresult
    cases hresult

theorem pure (value : α) : (pure value : Action α).Settles world (some value) :=
  ⟨rfl, rfl, .refl world⟩

theorem throw (error : Error) : (throw error : Action α).Settles world none :=
  ⟨rfl, rfl, .refl world⟩

theorem log (level : LogLevel) (message : Text) : (log level message).Settles world (some ()) :=
  ⟨rfl, rfl, world.spares_addRecord level message⟩

theorem lift (result : Except Error α) :
    (liftM result : Action α).Settles world result.toOption := ⟨rfl, rfl, .refl world⟩

theorem placed (result : Except Misplaced α) : (placed result).Settles world result.toOption := by
  cases result with
  | error token => exact .throw (.misplaced token)
  | ok value => exact .pure value

theorem readText {path : Path} {text : Text} (hread : world.readText path = .ok text) :
    (readText path).Settles world (some text) := by
  have hyields : (Action.readText path).Yields world text world :=
    yields_readText_iff.mpr ⟨hread, rfl⟩
  rw [Yields] at hyields
  constructor <;> rw [hyields]
  · rfl
  · exact .refl world

theorem bind {action : Action α} {next : α → Action β} {value : α} {result : Option β}
    (hfirst : action.Settles world (some value))
    (hnext : ∀ between, world.Spares ∅ between → (next value).Settles between result) :
    (action >>= next).Settles world result := by
  obtain ⟨between, hyields, hruns, hspares⟩ := hfirst.yields
  have hsecond := hnext between hspares
  have hrun := run_bind_of_yields hyields next
  constructor
  · rw [hrun, hsecond.result]
  · rw [hrun, hsecond.runs, hruns]
  · rw [hrun]
    exact hspares.trans hsecond.spares

theorem bind_none {action : Action α} (h : action.Settles world none) (next : α → Action β) :
    (action >>= next).Settles world none := by
  obtain ⟨error, after, hfail, hruns, hspares⟩ := h.fails
  have hrun := run_bind_of_error hfail next
  constructor
  · rw [hrun]
    rfl
  · rw [hrun]
    exact hruns
  · rw [hrun]
    exact hspares

theorem of_current {next : World → Action α} {result : Option α}
    (h : (next world).Settles world result) : (get >>= next).Settles world result :=
  ⟨h.result, h.runs, h.spares⟩

theorem detour {noted : Prop} [Decidable noted] {action next : Action α} {result : Option α}
    (haction : (∀ between, next.Settles between result) → action.Settles world result)
    (hnext : ∀ between, next.Settles between result) :
    (if noted then action else next).Settles world result := by
  split
  · exact haction hnext
  · exact hnext world

theorem forIn {ι : Type} (items : List ι) {body : ι → PUnit → Action (ForInStep PUnit)}
    (hbody : ∀ item between, (body item ⟨⟩).Settles between (some (.yield ⟨⟩))) :
    (forIn items PUnit.unit body).Settles world (some ⟨⟩) := by
  induction items generalizing world with
  | nil => exact .pure PUnit.unit
  | cons item items ih =>
      rw [List.forIn_cons]
      apply (hbody item world).bind
      intro between _
      exact ih

end Settles

theorem settles_forIn_log {ι : Type} (items : List ι) (level : LogLevel) (message : ι → Text) :
    (forIn items PUnit.unit fun item _ => do
      log level (message item)
      pure (ForInStep.yield PUnit.unit) : Action PUnit).Settles world (some ⟨⟩) := by
  apply Settles.forIn
  intro item between
  apply Settles.bind (.log level _)
  intro _ _
  exact .pure _

theorem settles_forIn_log_of {ι : Type} (items : List ι) (noted : ι → Prop) [DecidablePred noted]
    (level : LogLevel) (message : ι → Text) :
    (forIn items PUnit.unit fun item _ =>
      if noted item then do
        log level (message item)
        pure (ForInStep.yield PUnit.unit)
      else pure (ForInStep.yield PUnit.unit) : Action PUnit).Settles world (some ⟨⟩) := by
  apply Settles.forIn
  intro item between
  apply Settles.detour
  · intro hnext
    apply Settles.bind (.log level _)
    intro logged _
    exact hnext logged
  · intro start
    exact .pure _

/-- That an action starts one tool at most. It fails before, or the answer of the tool decides. -/
structure AsksOnce (action : Action α) (world : World) (invocation : Invocation)
    (answer : Run → Option α) : Prop where
  spares : world.Spares ∅ (action.run world).2
  outcome :
    (action.run world).2.runs = world.runs ∧ (action.run world).1.toOption = none ∨
    ∃ run, (action.run world).2.runs = world.runs ++ [run] ∧ run.invocation = invocation ∧
      world.tree.Spares world.logPlaces run.tree ∧ (action.run world).1.toOption = answer run

namespace AsksOnce

variable {invocation : Invocation} {answer : Run → Option α}

theorem of_settles {action : Action α} (h : action.Settles world none) :
    action.AsksOnce world invocation answer := ⟨h.spares, .inl ⟨h.runs, h.result⟩⟩

/-- What happens before starts no tool. -/
theorem after_settled {first : Action β} {next : β → Action α} {value : β}
    (hfirst : first.Settles world (some value))
    (hnext : ∀ between, world.Spares ∅ between → (next value).AsksOnce between invocation answer) :
    (first >>= next).AsksOnce world invocation answer := by
  obtain ⟨between, hyields, hruns, hspares⟩ := hfirst.yields
  have hsecond := hnext between hspares
  have hrun := run_bind_of_yields hyields next
  constructor
  · rw [hrun]
    exact hspares.trans hsecond.spares
  · rw [hrun, ← hruns]
    rcases hsecond.outcome with hnone | ⟨run, hmore, hinvocation, htree, hresult⟩
    · exact .inl hnone
    · have hseen := hspares.tree
      rw [Set.empty_union] at hseen
      rw [hspares.logPlaces_eq] at htree
      exact .inr ⟨run, hmore, hinvocation, hseen.trans htree, hresult⟩

/-- What happens behind the run depends on the answer alone. -/
theorem before_settled {action : Action α} {next : α → Action β} {final : Run → Option β}
    (h : action.AsksOnce world invocation answer)
    (hnone : ∀ run, answer run = none → final run = none)
    (hnext : ∀ run value between, run.invocation = invocation → answer run = some value →
      world.Spares ∅ between → (next value).Settles between (final run)) :
    (action >>= next).AsksOnce world invocation final := by
  obtain ⟨hspares, houtcome⟩ := h
  rcases run_cases action world with ⟨error, after, hfail⟩ | ⟨value, between, hyields⟩
  · rw [hfail] at hspares houtcome
    constructor
    · rwa [run_bind_of_error hfail]
    · rw [run_bind_of_error hfail]
      rcases houtcome with hstopped | ⟨run, hruns, hinvocation, htree, hresult⟩
      · exact .inl ⟨hstopped.1, rfl⟩
      · exact .inr ⟨run, hruns, hinvocation, htree, (hnone run hresult.symm).symm⟩
  · rw [hyields] at hspares houtcome
    rcases houtcome with ⟨-, hresult⟩ | ⟨run, hruns, hinvocation, htree, hresult⟩
    · cases hresult
    · have hsecond := hnext run value between hinvocation hresult.symm hspares
      constructor
      · rw [run_bind_of_yields hyields]
        exact hspares.trans hsecond.spares
      · rw [run_bind_of_yields hyields, hsecond.runs, hsecond.result]
        exact .inr ⟨run, hruns, hinvocation, htree, rfl⟩

theorem exists_of_yields {action : Action α} {value : α} {after : World}
    (h : action.AsksOnce world invocation answer) (hyields : action.Yields world value after) :
    ∃ run, after.runs = world.runs ++ [run] ∧ run.invocation = invocation ∧
      world.tree.Spares world.logPlaces run.tree ∧ answer run = some value := by
  rcases h.outcome with ⟨-, hresult⟩ | ⟨run, hruns, hinvocation, htree, hresult⟩
  · rw [hyields] at hresult
    cases hresult
  · rw [hyields] at hruns hresult
    exact ⟨run, hruns, hinvocation, htree, hresult.symm⟩

theorem adapt {action : Action α} (h : action.AsksOnce world invocation answer)
    (rename : Error → Error) :
    AsksOnce (ExceptT.adapt rename action) world invocation answer := by
  have hresult : (ExceptT.run (ExceptT.adapt rename action) world).1.toOption =
      (action.run world).1.toOption := by
    change ((action.run world).1.mapError rename).toOption = _
    cases (action.run world).1 <;> rfl
  refine ⟨h.spares, ?_⟩
  rw [hresult]
  exact h.outcome

theorem of_current {next : World → Action α} (h : (next world).AsksOnce world invocation answer) :
    (get >>= next).AsksOnce world invocation answer := ⟨h.spares, h.outcome⟩

theorem of_addRun {next : PUnit → Action α} {printed : Printed}
    (h : (next ⟨⟩).Settles (world.addRun ⟨invocation, world.tree, printed⟩)
      (answer ⟨invocation, world.tree, printed⟩)) :
    (set (world.addRun ⟨invocation, world.tree, printed⟩) >>= next).AsksOnce world invocation
      answer := by
  refine ⟨(world.spares_addRun _).trans h.spares, .inr ⟨_, h.runs, rfl, ?_, h.result⟩⟩
  exact .refl world.tree

end AsksOnce

/-- A tool that is started is recorded, with the files that were there and what it printed. -/
theorem asksOnce_invoke (program : Text) (args : List Text) (world : World) :
    (invoke program args).AsksOnce world ⟨program, args⟩
      fun run => some (Transcript.ofPrinted run.printed) := by
  rw [invoke]
  apply AsksOnce.after_settled (.log .debug _)
  intro logged _
  apply AsksOnce.of_current
  rcases logged.launch_cases ⟨program, args⟩ with ⟨cause, hlaunch⟩ | ⟨printed, hlaunch⟩
  · rw [hlaunch]
    exact .of_settles ⟨rfl, rfl, .refl logged⟩
  · rw [hlaunch]
    apply AsksOnce.of_addRun
    dsimp only
    split
    · apply Settles.bind (.log .debug _)
      intro _ _
      exact .pure _
    · exact .pure _

end Action

/-! ### Tools and their answers -/

namespace Run

variable (run : Run)

def stdout : Text := (Transcript.ofPrinted run.printed).stdout

def succeeded : Bool := (Transcript.ofPrinted run.printed).isSuccess

/-- What a successful run printed. -/
def stdout? : Option Text := if run.succeeded then some run.stdout else none

theorem stdout?_eq_some_iff {text : Text} :
    run.stdout? = some text ↔ run.succeeded ∧ text = run.stdout := by
  rw [stdout?]
  split <;> rename_i hsuccess
  · rw [Option.some.injEq, eq_comm, and_iff_right hsuccess]
  · simp [hsuccess]

/-- The dump that was printed, also by a run that failed. -/
def dump? : Option Text := if run.stdout.head? = some '\x7b' then some run.stdout else none

/-- The file that the tool was given, as its last argument. -/
def file : Path := (run.invocation.args.getLast?).getD []

/-- That the tool found a text in a file. -/
def Sees (home : Location) (path : Path) (text : Text) : Prop :=
  run.tree.read home path = .ok (Text.toBytes text)

/-- The names under which a dump may speak of the file that the tool was given. -/
def spellings (home : Location) : List Text :=
  distinct [run.file, FileTree.absolutePath (FileTree.placeOf home run.file)]

/-- The unit that a dump describes, if the file it was made for had the given text. -/
def unit? (home : Location) (text : Text) : Option CompilationUnit := do
  let root ← Dump.parse? (← run.dump?)
  return Dump.toUnit run.file (.ofText text) (run.spellings home) root

variable {run}

theorem exists_of_unit? {home : Location} {text : Text} {unit : CompilationUnit}
    (h : run.unit? home text = some unit) :
    ∃ root, Dump.parse? run.stdout = some root ∧
      unit = Dump.toUnit run.file (.ofText text) (run.spellings home) root := by
  obtain ⟨dump, hdump, h⟩ := Option.bind_eq_some_iff.mp h
  obtain ⟨root, hroot, hunit⟩ := Option.bind_eq_some_iff.mp h
  obtain ⟨-, hprinted⟩ := Option.ite_none_right_eq_some.mp hdump
  cases hprinted
  exact ⟨root, hroot, (Option.some.inj hunit).symm⟩

theorem source_of_unit? {home : Location} {text : Text} {unit : CompilationUnit}
    (h : run.unit? home text = some unit) : unit.source = .ofText text := by
  obtain ⟨root, -, rfl⟩ := exists_of_unit? h
  rfl

end Run

section Tools

open Action

variable (world : World)

theorem UnitReader.asksOnce_dump (reader : UnitReader) (path : Path) :
    (reader.dump path).AsksOnce world ⟨reader.tools.clang.program, reader.dumpArgs path⟩
      Run.dump? := by
  rw [dump]
  apply (asksOnce_invoke _ _ world).before_settled
  · intro run hnone
    cases hnone
  · rintro run _ between - ⟨⟩ -
    apply Settles.detour
    · intro hnext
      apply Settles.bind (settles_forIn_log _ .warn _)
      intro _ _
      apply Settles.bind (.log .debug _)
      intro logged _
      exact hnext logged
    · intro start
      dsimp only
      rw [Run.dump?, Run.stdout]
      split
      · exact .bind_none (.throw _) _
      · rename_i hhead
        rw [if_pos (not_not.mp hhead)]
        apply Settles.bind (.log .debug _)
        intro _ _
        exact .pure _

theorem UnitReader.file_of_dumpArgs {reader : UnitReader} {path : Path} {program : Text} {run : Run}
    (h : run.invocation = ⟨program, reader.dumpArgs path⟩) : run.file = path := by
  rw [Run.file, h, dumpArgs, List.getLast?_concat]
  rfl

theorem UnitReader.spellings_eq {path : Path} {text : Text} {after : World}
    (hread : world.readText path = .ok text) (hspares : world.Spares ∅ after) :
    spellings after path =
      distinct [path, FileTree.absolutePath (FileTree.placeOf world.home path)] := by
  have hcontent := World.readText_eq_ok_iff.mp hread
  have hresolve := hspares.tree.resolve (FileTree.read_eq_ok_iff.mp hcontent).1
  rw [spellings, World.absolutePath?, hspares.home, hresolve]
  rfl

/-- A unit is read from the text of a file and from what the compiler prints for it. -/
theorem UnitReader.asksOnce_parse {reader : UnitReader} {path : Path} {text : Text}
    (hread : world.readText path = .ok text) :
    (reader.parse path).AsksOnce world ⟨reader.tools.clang.program, reader.dumpArgs path⟩
      (Run.unit? · world.home text) := by
  rw [parse]
  apply AsksOnce.after_settled (.readText hread)
  intro start hstart
  apply (asksOnce_dump start reader path).before_settled
  · intro run hnone
    rw [Run.unit?, hnone]
    rfl
  · intro run dump between hinvocation hdump hbetween
    rw [Run.unit?, Run.spellings, hdump, file_of_dumpArgs hinvocation]
    dsimp only
    split <;> rename_i hparse
    · rw [Option.bind_eq_bind, Option.bind_some, hparse]
      exact .throw _
    · rw [Option.bind_eq_bind, Option.bind_some, hparse,
        ← spellings_eq world hread (hstart.trans hbetween)]
      apply Settles.of_current
      apply Settles.bind (.log .debug _)
      intro _ _
      exact .pure _

theorem UnitReader.spares_parse (reader : UnitReader) (path : Path) :
    world.Spares ∅ ((reader.parse path).run world).2 := by
  rcases readText_cases path world with ⟨error, hfail⟩ | ⟨text, hread, -⟩
  · rw [parse, run_bind_of_error hfail]
    exact .refl world
  · exact (asksOnce_parse world hread).spares

theorem Expansion.asksOnce_runPreprocessor (tools : Toolchain) (file : Path) :
    (runPreprocessor tools file).AsksOnce world
      ⟨tools.preprocessor.program, tools.preprocessor.flags ++ [file]⟩ Run.stdout? := by
  rw [runPreprocessor]
  apply (asksOnce_invoke _ _ world).before_settled
  · intro run hnone
    cases hnone
  · rintro run _ between - ⟨⟩ -
    rw [Run.stdout?, Run.succeeded, Run.stdout]
    dsimp only
    cases (Transcript.ofPrinted run.printed).isSuccess with
    | false => exact .bind_none (.throw _) _
    | true => exact .pure _

theorem Expansion.asksOnce_checkCompiles (tools : Toolchain) (file object : Path)
    (includeDirs : List Text) :
    (checkCompiles tools file object includeDirs).AsksOnce world
      ⟨tools.compiler.program, tools.compiler.flags ++ includeArgs includeDirs
        ++ ["-c".toList, file, "-o".toList, object]⟩ fun run => run.stdout?.map fun _ => () := by
  rw [checkCompiles]
  apply (asksOnce_invoke _ _ world).before_settled
  · intro run hnone
    cases hnone
  · rintro run _ between - ⟨⟩ -
    rw [Run.stdout?, Run.succeeded]
    dsimp only
    cases (Transcript.ofPrinted run.printed).isSuccess with
    | true => exact .pure _
    | false =>
        apply Settles.bind
        · apply settles_forIn_log_of
        · intro _ _
          exact .throw _

end Tools

/-! ### Scratch directories -/

namespace Scratch

open Action FileTree

variable {world : World} {label : Text}

/-- The world in which an action in a scratch directory begins: nothing was at the place of the
directory before. -/
structure Opens (world : World) (dir : Path) (start : World) : Prop extends
    world.Continues start where
  free : world.tree.get? (placeOf world.home dir) = none
  above : world.tree.isDirectory (placeOf world.home dir).dropLast
  runs : start.runs = world.runs
  tree : (world.tree.set (placeOf world.home dir) .directory).Spares world.logPlaces start.tree

/-- The world that is left when the directory at a place has been removed. -/
structure Closes (place : Location) (finish after : World) : Prop extends
    finish.Continues after where
  runs : after.runs = finish.runs
  tree : (finish.tree.remove place).Spares finish.logPlaces after.tree

theorem Opens.ne_nil {dir : Path} {start : World} (h : Opens world dir start) :
    placeOf world.home dir ≠ [] := by
  intro htop
  have hfree := h.free
  rw [htop] at hfree
  cases hfree

theorem opens_of_make {dir : Path} {location : Location} {made : World}
    (hmake : make world label = .ok (dir, location, made)) (level : LogLevel) (message : Text) :
    location = placeOf world.home dir ∧ Opens world dir (made.addRecord level message) := by
  -- Names are tried in turn until one is free, so the induction is on those left.
  have htry : ∀ left n, make.tryFrom world label n left = .ok (dir, location, made) →
      ∃ tree, world.tree.makeDirectory world.home dir = .ok (location, tree) ∧
        made = { world with tree := tree } := by
    intro left
    induction left with
    | zero =>
        intro n h
        cases h
    | succ left ih =>
        intro n h
        rw [make.tryFrom] at h
        split at h
        · rename_i hmade
          cases h
          exact ⟨_, hmade, rfl⟩
        · exact ih (n + 1) h
        · cases h
  obtain ⟨tree, hmade, rfl⟩ := htry _ _ hmake
  obtain ⟨rfl, hfree, habove, rfl⟩ := eq_set_of_makeDirectory hmade
  refine ⟨rfl, ⟨rfl, rfl⟩, hfree, habove, rfl, ?_⟩
  exact world.tree_addRecord _ level message

theorem run_cases {α : Type} (label : Text) (action : Path → Action α) (world : World) :
    (∃ error, (run label action).run world = (.error error, world)) ∨
    ∃ dir start, Opens world dir start ∧
      ((run label action).run world).1 = ((action dir).run start).1 ∧
      Closes (placeOf world.home dir) ((action dir).run start).2
        ((run label action).run world).2 := by
  have hrun : (run label action).run world = run label action world := rfl
  rw [run] at hrun
  split at hrun
  · exact .inl ⟨_, hrun⟩
  · rename_i dir location made hmake
    obtain ⟨rfl, hopens⟩ := opens_of_make hmake .debug ("[workspace] created ".toList ++ dir)
    refine .inr ⟨dir, _, hopens, ?_⟩
    dsimp only at hrun
    split at hrun <;> rename_i hfinish
    · rw [hrun, hfinish]
      exact ⟨rfl, ⟨rfl, rfl⟩, rfl, .refl _⟩
    · rw [hrun, hfinish]
      exact ⟨rfl, ⟨rfl, rfl⟩, rfl, World.tree_addRecord _ _ _ _⟩

theorem exists_of_yields_run {α : Type} {action : Path → Action α} {value : α} {after : World}
    (h : (run label action).Yields world value after) :
    ∃ dir start finish, Opens world dir start ∧ (action dir).Yields start value finish ∧
      Closes (placeOf world.home dir) finish after := by
  rcases run_cases label action world with ⟨error, hfail⟩ | ⟨dir, start, hopens, hresult, hcloses⟩
  · rw [Yields, hfail] at h
    cases h
  · rw [h] at hresult hcloses
    obtain ⟨finish, hfinish⟩ := exists_yields_of_fst hresult.symm
    rw [hfinish] at hcloses
    exact ⟨dir, start, finish, hopens, hfinish, hcloses⟩

/-- What is written to a scratch directory can be read back. -/
theorem readText_of_yields_write {dir path : Path} {name text : Text} {after : World}
    (h : (write dir name text).Yields world path after) :
    after.readText path = .ok text ∧ after.runs = world.runs ∧ world.Continues after := by
  rw [write, yields_bind_iff] at h
  obtain ⟨_, written, hwrite, h⟩ := h
  obtain ⟨rfl, rfl⟩ := yields_pure_iff.mp h
  have hwrite := writeText_of_yields hwrite
  obtain ⟨hread, hruns⟩ := World.readText_of_writeText hwrite
  exact ⟨hread, hruns, (World.spares_writeText hwrite).toContinues⟩

/-- What happens in a scratch directory leaves no trace. -/
theorem spares_of_closes {places : Set Location} {dir : Path} {start finish after : World}
    (hrooted : world.tree.Rooted) (hopens : Opens world dir start)
    (hinside : start.Spares (places ∪ below (placeOf world.home dir)) finish)
    (hcloses : Closes (placeOf world.home dir) finish after) : world.Spares places after := by
  have hlog := hopens.logPlaces_eq
  refine ⟨?_, ?_, ?_⟩
  · exact (hopens.toContinues.trans hinside.toContinues).trans hcloses.toContinues
  · rw [hcloses.runs, ← hopens.runs]
    exact hinside.runs
  · -- The log may grow when the directory is made, inside it, and when it is removed.
    have hduring := hinside.tree
    rw [hlog, Set.union_right_comm] at hduring
    have hlogs : world.logPlaces ⊆ places ∪ world.logPlaces := Set.subset_union_right
    have hwhole := (hopens.tree.mono (hlogs.trans Set.subset_union_left)).trans hduring
    have hafter := hcloses.tree
    rw [hinside.logPlaces_eq, hlog] at hafter
    apply (spares_remove hrooted hopens.free hopens.above hwhole).trans
    exact hafter.mono hlogs

theorem spares_run {α : Type} {action : Path → Action α} {places : Set Location}
    (hrooted : world.tree.Rooted)
    (hinside : ∀ dir start, Opens world dir start →
      start.Spares (places ∪ below (placeOf world.home dir)) ((action dir).run start).2) :
    world.Spares places ((run label action).run world).2 := by
  rcases run_cases label action world with ⟨error, hfail⟩ | ⟨dir, start, hopens, -, hcloses⟩
  · rw [hfail]
    exact .refl world
  · exact spares_of_closes hrooted hopens (hinside dir start hopens) hcloses

end Scratch

end PlainC
