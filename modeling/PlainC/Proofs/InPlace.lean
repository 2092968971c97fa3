import PlainC.CommandLine.Run
import PlainC.Proofs.DerivedFiles

/-!
# Rewriting in place

A command that rewrites a file comes to its text first and writes it last. All that can fail happens
before, when nothing but scratch directories and the log has changed; the write itself does not fail,
since the file could be read. So either every file is as it was, or the one file has the new text.
-/

namespace PlainC

open Action FileTree

/-! ### Files kept and rewritten -/

namespace World

variable {world start written after : World} {path : Path} {text : Text}

/-- That all files but the log are as before, and so are the directories. -/
structure Keeps (world after : World) : Prop where
  files : ∀ location ∉ world.logPlaces, after.tree.get? location = world.tree.get? location
  directories : ∀ location, after.tree.isDirectory location = world.tree.isDirectory location

/-- That one file has a text, and all else is as before. -/
structure Rewrites (world : World) (path : Path) (text : Text) (after : World) : Prop where
  content : placeOf world.home path ∉ world.logPlaces →
    after.tree.read world.home path = .ok (Text.toBytes text)
  files : ∀ location ∉ world.logPlaces, location ≠ placeOf world.home path →
    after.tree.get? location = world.tree.get? location
  directories : ∀ location, after.tree.isDirectory location = world.tree.isDirectory location

theorem Spares.keeps (h : world.Spares ∅ after) : world.Keeps after :=
  ⟨fun _ hout => h.get?_eq hout, h.tree.directory⟩

/-- One write, with nothing but records before it and behind it. -/
theorem rewrites_of_spares (hbefore : world.Spares ∅ start)
    (hwrite : start.writeText path text = .ok written) (hafter : written.Spares ∅ after) :
    world.Rewrites path text after := by
  have hwritten := spares_writeText hwrite
  rw [hbefore.home] at hwritten
  have hall : world.Spares {placeOf world.home path} after :=
    (hbefore.of_empty.trans hwritten).trans hafter.of_empty
  refine ⟨?_, ?_, hall.tree.directory⟩
  · intro hout
    obtain ⟨tree, htree, rfl⟩ := writeText_eq_ok_iff.mp hwrite
    have hread := read_of_write htree
    rw [hbefore.home] at hread
    apply hafter.tree.read hread
    rwa [Set.empty_union, hwritten.logPlaces_eq, hbefore.logPlaces_eq]
  · intro location hout hne
    apply hall.tree.elsewhere
    rintro (hplace | hlog)
    · exact hne hplace
    · exact hout hlog

end World

/-! ### Actions that write last -/

namespace Action

variable {α β : Type} {world : World} {path : Path} {value : β} {outcome : Option Text}

/-- That an action, which starts no tool, writes a text to a file and comes to a value, or fails and
writes nothing if there is no text. -/
inductive Commits (action : Action β) (world : World) (path : Path) (value : β) :
    Option Text → Prop where
  | fails {error : Error} {after : World} (hfail : action.run world = (.error error, after))
      (hruns : after.runs = world.runs) (hspares : world.Spares ∅ after) :
      Commits action world path value none
  | writes {text : Text} {start written after : World} (hyields : action.Yields world value after)
      (hruns : after.runs = world.runs) (hbefore : world.Spares ∅ start)
      (hwrite : start.writeText path text = .ok written) (hafter : written.Spares ∅ after) :
      Commits action world path value (some text)

namespace Commits

theorem of_settles {action : Action β} (h : action.Settles world none) :
    action.Commits world path value none := by
  obtain ⟨error, after, hfail, hruns, hspares⟩ := h.fails
  exact .fails hfail hruns hspares

theorem after_settled {first : Action α} {next : α → Action β} {a : α}
    (hfirst : first.Settles world (some a))
    (hnext : ∀ between, world.Spares ∅ between →
      (next a).Commits between path value outcome) :
    (first >>= next).Commits world path value outcome := by
  obtain ⟨between, hyields, hruns, hspares⟩ := hfirst.yields
  have hrun := run_bind_of_yields hyields next
  cases hnext between hspares with
  | fails hfail hmore hkept =>
      exact .fails (hrun.trans hfail) (hmore.trans hruns) (hspares.trans hkept)
  | writes hdone hmore hbefore hwrite hafter =>
      exact .writes (hrun.trans hdone) (hmore.trans hruns) (hspares.trans hbefore) hwrite hafter

theorem write {next : Unit → Action β} {text : Text} {written : World}
    (hwrite : world.writeText path text = .ok written)
    (hnext : (next ()).Settles written (some value)) :
    (writeText path text >>= next).Commits world path value (some text) := by
  obtain ⟨after, hyields, hruns, hspares⟩ := hnext.yields
  have hrun := run_bind_of_yields (yields_writeText hwrite) next
  have hwritten : written.runs = world.runs := (World.readText_of_writeText hwrite).2
  exact .writes (hrun.trans hyields) (hruns.trans hwritten) (.refl world) hwrite hspares

end Commits

end Action

/-! ### Commands -/

section Commands

variable {world after : World} {path : Path}

namespace Unfolding

/-- That the text of a file unfolds to another, by the one dump that was made of it. -/
def Unfolds (world : World) (path : Path) (after : World) (content : Text) : Prop :=
  ∃ text run unit, world.readText path = .ok text ∧ after.runs = world.runs ++ [run] ∧
    run.unit? world.home text = some unit ∧
    unfold (.ofText text) unit.typedefs unit.aliases = .ok content

theorem unfolds_iff {text content : Text} {run : Run} (hread : world.readText path = .ok text)
    (hruns : after.runs = world.runs ++ [run]) :
    Unfolds world path after content ↔ ∃ unit, run.unit? world.home text = some unit ∧
      unfold unit.source unit.typedefs unit.aliases = .ok content := by
  constructor
  · rintro ⟨text', run', unit, hread', hruns', hunit, hunfold⟩
    rw [hread, Except.ok.injEq] at hread'
    rw [hruns, List.append_cancel_left_eq, List.singleton_inj] at hruns'
    subst hread' hruns'
    refine ⟨unit, hunit, ?_⟩
    rwa [Run.source_of_unit? hunit]
  · rintro ⟨unit, hunit, hunfold⟩
    rw [Run.source_of_unit? hunit] at hunfold
    exact ⟨text, run, unit, hread, hruns, hunit, hunfold⟩

/-- Once the unit is known, the text is written if it can be unfolded. -/
theorem exists_commits_unfoldFile (reader : UnitReader) (path : Path) :
    ∃ next : CompilationUnit → Action Path,
      unfoldFile reader path = (reader.lookingBeside path).parse path >>= next ∧
      ∀ (unit : CompilationUnit) (parsed : World),
        (∀ between text, parsed.Spares ∅ between →
          ∃ written, between.writeText path text = .ok written) →
        (next unit).Commits parsed path path
          (unfold unit.source unit.typedefs unit.aliases).toOption := by
  refine ⟨_, rfl, ?_⟩
  intro unit parsed hwritable
  apply Commits.after_settled
  · apply settles_forIn_log_of
  intro kept hkept
  rw [unfold]
  cases removeDeclarations unit.source unit.typedefs unit.aliases with
  | error token => exact .of_settles (.bind_none (.placed (.error token)) _)
  | ok progress =>
      apply Commits.after_settled (.placed (.ok progress))
      intro placed hplaced
      apply Commits.after_settled (settles_forIn_log _ .warn _)
      intro warned hwarned
      obtain ⟨written, hwrite⟩ := hwritable warned
        (spellOutAll unit.aliases progress.source.toText) ((hkept.trans hplaced).trans hwarned)
      apply Commits.write hwrite
      apply Settles.bind (.log .info _)
      intro _ _
      exact .pure path

/-- A file is unfolded if there is something that it unfolds to; otherwise nothing is written. -/
theorem unfoldFile_cases (hrooted : world.tree.Rooted) (reader : UnitReader) (path : Path) :
    (∃ error after, (unfoldFile reader path).run world = (.error error, after) ∧
      world.Spares ∅ after ∧ ∀ content, ¬Unfolds world path after content) ∨
    ∃ content after, (unfoldFile reader path).Yields world path after ∧
      Unfolds world path after content ∧ world.Rewrites path content after := by
  obtain ⟨next, hnext, hcommits⟩ := exists_commits_unfoldFile reader path
  rw [hnext]
  rcases readText_cases path world with ⟨error, hfail⟩ | ⟨text, hread, -⟩
  · left
    refine ⟨error, world, run_bind_of_error (run_bind_of_error hfail _) _, .refl world, ?_⟩
    rintro content ⟨text, _, _, hread, -⟩
    have hyields : (readText path).Yields world text world := yields_readText_iff.mpr ⟨hread, rfl⟩
    rw [Yields, hfail] at hyields
    cases hyields
  have hasks : ((reader.lookingBeside path).parse path).AsksOnce world _ _ :=
    UnitReader.asksOnce_parse world hread
  have hspares := hasks.spares
  rcases run_cases ((reader.lookingBeside path).parse path) world with
    ⟨error, after, hfail⟩ | ⟨unit, parsed, hyields⟩
  · left
    have houtcome := hasks.outcome
    rw [hfail] at hspares houtcome
    refine ⟨error, after, run_bind_of_error hfail _, hspares, ?_⟩
    intro content hunfolds
    rcases houtcome with ⟨hruns, -⟩ | ⟨run, hruns, -, -, hnone⟩
    · obtain ⟨_, run, _, -, hmore, -⟩ := hunfolds
      rw [hruns, List.self_eq_append_right] at hmore
      cases hmore
    · obtain ⟨unit, hunit, -⟩ := (unfolds_iff hread hruns).mp hunfolds
      rw [hunit] at hnone
      cases hnone
  · obtain ⟨run, hruns, -, -, hunit⟩ := hasks.exists_of_yields hyields
    rw [hyields] at hspares
    have hwritable : ∀ between text, parsed.Spares ∅ between →
        ∃ written, between.writeText path text = .ok written := fun between text hbetween =>
      (hspares.trans hbetween).exists_writeText hrooted hread text
    have hrun := run_bind_of_yields hyields next
    have hcommit := hcommits unit parsed hwritable
    cases hunfold : unfold unit.source unit.typedefs unit.aliases with
    | error token =>
        rw [hunfold] at hcommit
        cases hcommit with
        | fails hfail hmore hkept =>
            left
            refine ⟨_, _, hrun.trans hfail, hspares.trans hkept, ?_⟩
            intro content hunfolds
            obtain ⟨unit', hunit', hunfold'⟩ := (unfolds_iff hread (hmore.trans hruns)).mp hunfolds
            rw [hunit, Option.some.injEq] at hunit'
            rw [← hunit', hunfold] at hunfold'
            cases hunfold'
    | ok content =>
        rw [hunfold] at hcommit
        cases hcommit with
        | writes hdone hmore hbefore hwrite hafter =>
            right
            have hunfolds := (unfolds_iff hread (hmore.trans hruns)).mpr ⟨unit, hunit, hunfold⟩
            exact ⟨content, _, hrun.trans hdone, hunfolds,
              World.rewrites_of_spares (hspares.trans hbefore) hwrite hafter⟩

end Unfolding

/-- Functions are stripped in place if they can be stripped; otherwise nothing is written. -/
theorem Stripping.strip_in_place_cases (hrooted : world.tree.Rooted) (settings : Settings)
    (names : List Text) (path : Path) :
    (∃ error after, (stripAll settings.reader names path).run world = (.error error, after) ∧
      (CommandLine.execute settings (.stripStatic path names true)).run world =
        (.error error, after) ∧
      world.Spares ∅ after) ∨
    ∃ text between after, (stripAll settings.reader names path).Yields world text between ∧
      (CommandLine.execute settings (.stripStatic path names true)).Yields world (path ++ ['\n']) after ∧
      world.Rewrites path text after := by
  have hspares := spares_stripAll hrooted settings.reader names path
  rw [CommandLine.execute]
  rcases run_cases (stripAll settings.reader names path) world with
    ⟨error, after, hfail⟩ | ⟨text, between, hyields⟩
  · rw [hfail] at hspares
    exact .inl ⟨error, after, hfail, run_bind_of_error hfail _, hspares⟩
  · rw [hyields] at hspares
    have hreads := hyields
    rw [stripAll, yields_bind_iff] at hreads
    obtain ⟨before, _, hbefore, -⟩ := hreads
    have hread := (yields_readText_iff.mp hbefore).1
    obtain ⟨written, hwrite⟩ := hspares.exists_writeText hrooted hread text
    right
    refine ⟨text, between, written, hyields, ?_, World.rewrites_of_spares hspares hwrite (.refl written)⟩
    rw [Yields, run_bind_of_yields hyields]
    exact run_bind_of_yields (yields_writeText hwrite) _

namespace CommandLine

/-- A command in place does all or nothing: it fails, and every file is as it was, or it succeeds, and
its file alone has changed, to the stripped or the unfolded text. Stripping without a change in place
writes nothing. Scratch directories are gone in any case, as no directory has come or gone. -/
theorem in_place_all_or_nothing (settings : Settings) (world : World) (hrooted : world.tree.Rooted) :
    (∀ file names,
      (execute settings (.stripStatic file names false)).run world =
        (Stripping.stripAll settings.reader names file).run world ∧
      world.Keeps ((execute settings (.stripStatic file names false)).run world).2) ∧
    (∀ file names,
      (∃ error after,
        (Stripping.stripAll settings.reader names file).run world = (.error error, after) ∧
        (execute settings (.stripStatic file names true)).run world = (.error error, after) ∧
        world.Keeps after) ∨
      ∃ text between after,
        (Stripping.stripAll settings.reader names file).Yields world text between ∧
        (execute settings (.stripStatic file names true)).Yields world (file ++ ['\n']) after ∧
        world.Rewrites file text after) ∧
    ∀ file,
      (∃ error after, (execute settings (.unfold file)).run world = (.error error, after) ∧
        (∀ content, ¬Unfolding.Unfolds world file after content) ∧ world.Keeps after) ∨
      ∃ content after, (execute settings (.unfold file)).Yields world (file ++ ['\n']) after ∧
        Unfolding.Unfolds world file after content ∧ world.Rewrites file content after := by
  refine ⟨?_, ?_, ?_⟩
  · intro file names
    have hprints : execute settings (.stripStatic file names false) =
        Stripping.stripAll settings.reader names file := bind_pure _
    rw [hprints]
    exact ⟨rfl, (Stripping.spares_stripAll hrooted settings.reader names file).keeps⟩
  · intro file names
    rcases Stripping.strip_in_place_cases hrooted settings names file with
      ⟨error, after, hstrip, hfail, hspares⟩ | hdone
    · exact .inl ⟨error, after, hstrip, hfail, hspares.keeps⟩
    · exact .inr hdone
  · intro file
    rcases Unfolding.unfoldFile_cases hrooted settings.reader file with
      ⟨error, after, hfail, hspares, hnone⟩ | ⟨content, after, hyields, hunfolds, hrewrites⟩
    · exact .inl ⟨error, after, run_bind_of_error hfail _, hnone, hspares.keeps⟩
    · exact .inr ⟨content, after, run_bind_of_yields hyields _, hunfolds, hrewrites⟩

theorem in_place_all_or_nothing_past_first_function :
    Stripping.prototypeWorld.tree.Rooted ∧
    (∃ error after, (execute .standard (.stripStatic "f.c".toList ["f".toList, "g".toList] true)).run
        Stripping.prototypeWorld = (.error error, after) ∧
      after.runs.length = 3 ∧ Stripping.prototypeWorld.Keeps after) ∧
    ∃ after, (execute .standard (.stripStatic "f.c".toList ["f".toList] true)).Yields
        Stripping.prototypeWorld "f.c\n".toList after ∧
      Stripping.prototypeWorld.Rewrites "f.c".toList
        "int f(void);\nint f(void) \x7b\x7d\n".toList after := by
  have hrooted : Stripping.prototypeWorld.tree.Rooted := rooted_of_entries (by decide +kernel)
  obtain ⟨-, hstrip, -⟩ := in_place_all_or_nothing .standard Stripping.prototypeWorld hrooted
  refine ⟨hrooted, ?_, ?_⟩
  · have hfacts : ((execute .standard (.stripStatic "f.c".toList ["f".toList, "g".toList] true)).run
          Stripping.prototypeWorld).1.toOption = none ∧
        ((execute .standard (.stripStatic "f.c".toList ["f".toList, "g".toList] true)).run
          Stripping.prototypeWorld).2.runs.length = 3 := by
      decide +kernel
    rcases hstrip "f.c".toList ["f".toList, "g".toList] with
      ⟨error, after, -, hfail, hkeeps⟩ | ⟨_, _, _, -, hdone, -⟩
    · rw [hfail] at hfacts
      exact ⟨error, after, hfail, hfacts.2, hkeeps⟩
    · rw [hdone] at hfacts
      cases hfacts.1
  · have hfacts : ((Stripping.stripAll Settings.standard.reader ["f".toList] "f.c".toList).run
        Stripping.prototypeWorld).1.toOption =
        some "int f(void);\nint f(void) \x7b\x7d\n".toList := by
      decide +kernel
    rcases hstrip "f.c".toList ["f".toList] with ⟨_, _, hfail, -⟩ | ⟨text, _, after, htext, hdone, hnew⟩
    · rw [hfail] at hfacts
      cases hfacts
    · rw [htext] at hfacts
      cases hfacts
      exact ⟨after, hdone, hnew⟩

end CommandLine

end Commands

end PlainC
