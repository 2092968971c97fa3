import PlainC.Canonicalization
import PlainC.Proofs.Stripping

/-!
# Only derived files change

However a canonicalization ends, it has written at most the stripped and the expanded file, both only
when all functions were stripped, and the second only when the preprocessor succeeded, which is the
first tool behind the stripping. All else is done in scratch directories, which are gone.
-/

namespace PlainC

open Action FileTree Path

variable {world : World} {base : Location}

namespace Scratch

theorem spares_write {name : Text} (hname : IsName name) (hslash : '/' ∉ name)
    (hhome : world.home = base) (dir : Path) (text : Text) :
    world.Spares (below (placeOf base dir)) ((write dir name text).run world).2 := by
  rw [write]
  apply spares_bind
  · apply (spares_writeText _ text world).mono
    rw [hhome, placeOf_join hname hslash, Set.singleton_subset_iff]
    exact List.prefix_append _ _
  · intro _ between _ _
    exact .refl between

theorem runs_write (dir : Path) (name text : Text) (world : World) :
    ((write dir name text).run world).2.runs = world.runs := by
  rw [write]
  rcases writeText_cases (Path.join dir name) text world with ⟨error, hfail⟩ | ⟨after, hwrite, hyields⟩
  · rw [run_bind_of_error hfail]
  · rw [run_bind_of_yields hyields]
    exact (World.readText_of_writeText hwrite).2

end Scratch

/-! ### Stripping -/

namespace Stripping

variable {reader : UnitReader} {dir : Path}

theorem isName_copyName : IsName copyName := isName_cons (by decide) _

theorem spares_copy (hhome : world.home = base) (reader : UnitReader) (dir : Path) (text : Text) :
    world.Spares (below (placeOf base dir))
      ((Scratch.write dir copyName text >>= reader.parse).run world).2 := by
  apply spares_bind (Scratch.spares_write isName_copyName (by decide) hhome dir text)
  intro path between _ _
  exact (reader.spares_parse between path).of_empty

theorem spares_stripDeclaration (hhome : world.home = base) (reader : UnitReader) (dir : Path)
    (unit : CompilationUnit) (pair : FunctionPair) :
    world.Spares (below (placeOf base dir))
      ((stripDeclaration reader dir unit pair).run world).2 := by
  rw [stripDeclaration]
  dsimp only
  split
  · exact .refl world
  · apply spares_bind (Settles.placed _).spares.of_empty
    intro tokens placed _ hplaced
    apply spares_detour
    · intro hnext
      apply spares_bind (Settles.log .debug _).spares.of_empty
      intro _ logged _ hlogged
      exact hnext logged hlogged.home
    · intro start hstart
      split
      · exact .refl start
      · apply spares_bind
        · exact spares_copy (hstart.trans (hplaced.home.trans hhome)) reader dir _
        · intro again between _ _
          apply spares_bind (Settles.lift _).spares.of_empty
          intro definition found _ _
          exact .refl found

theorem spares_stripIn (hhome : world.home = base) (reader : UnitReader) (name text : Text)
    (dir : Path) :
    world.Spares (below (placeOf base dir)) ((stripIn reader name text dir).run world).2 := by
  rw [stripIn, ← bind_assoc]
  apply spares_bind (spares_copy hhome reader dir text)
  intro unit copied _ hcopied
  apply spares_bind (Settles.lift _).spares.of_empty
  intro pair found _ hfound
  apply spares_bind
  · apply spares_stripDeclaration
    rw [hfound.home, hcopied.home, hhome]
  · intro stage between _ _
    apply spares_bind (Settles.placed _).spares.of_empty
    intro tokens placed _ _
    exact .refl placed

theorem spares_stripOne (hrooted : world.tree.Rooted) (reader : UnitReader) (label : Path)
    (name text : Text) : world.Spares ∅ ((stripOne reader label name text).run world).2 := by
  rw [stripOne]
  apply spares_bind
  · apply Scratch.spares_run hrooted
    intro dir start hopens
    rw [Set.empty_union]
    exact spares_stripIn hopens.home reader name text dir
  · intro stripped between _ _
    apply spares_bind (Settles.log .info _).spares
    intro _ logged _ _
    exact .refl logged

theorem spares_foldlM (hrooted : world.tree.Rooted) (reader : UnitReader) (label : Path)
    (names : List Text) (text : Text) :
    world.Spares ∅
      ((names.foldlM (fun text name => stripOne reader label name text) text).run world).2 := by
  induction names generalizing text world with
  | nil => exact .refl world
  | cons name names ih =>
      rw [List.foldlM_cons]
      apply spares_bind (spares_stripOne hrooted reader label name text)
      intro stripped between _ hbetween
      exact ih (hbetween.rooted hrooted) stripped

theorem spares_stripAll (hrooted : world.tree.Rooted) (reader : UnitReader) (names : List Text)
    (path : Path) : world.Spares ∅ ((stripAll reader names path).run world).2 := by
  rcases readText_cases path world with ⟨error, hfail⟩ | ⟨text, -, hyields⟩
  · rw [stripAll, run_bind_of_error hfail]
    exact .refl world
  · rw [stripAll, run_bind_of_yields hyields]
    exact spares_foldlM hrooted _ path names text

end Stripping

/-! ### Expanding -/

/-- A run of a tool over a file that succeeded, the first one between two worlds. -/
structure Tool.Processed (tool : Tool) (world after : World) (run : Run) : Prop where
  first : world.runs ++ [run] <+: after.runs
  invocation : ∃ file, run.invocation = ⟨tool.program, tool.flags ++ [file]⟩
  status : run.printed.status = .code 0

theorem Tool.Processed.mono {tool : Tool} {before after later : World} {run : Run}
    (h : tool.Processed world after run) (hbefore : world.runs = before.runs)
    (hlater : after.runs <+: later.runs) : tool.Processed before later run := by
  refine ⟨?_, h.invocation, h.status⟩
  rw [← hbefore]
  exact h.first.trans hlater

namespace Action

variable {α β : Type} {tool : Tool} {places further : Set Location}

/-- That an action fails and keeps to some places, or goes further behind a run of a tool that
succeeded and was its first. -/
def Extends (action : Action α) (world : World) (tool : Tool) (places further : Set Location) : Prop :=
  (action.run world).1.toOption = none ∧ world.Spares places (action.run world).2 ∨
    (∃ run, tool.Processed world (action.run world).2 run) ∧
      world.Spares (further ∪ places) (action.run world).2

namespace Extends

theorem of_error {action : Action α} {error : Error} {after : World}
    (hfail : action.run world = (.error error, after)) (hspares : world.Spares places after) :
    action.Extends world tool places further := by
  rw [Extends, hfail]
  exact .inl ⟨rfl, hspares⟩

theorem of_asksOnce {action : Action Text} {file : Path}
    (h : action.AsksOnce world ⟨tool.program, tool.flags ++ [file]⟩ Run.stdout?) :
    action.Extends world tool places further := by
  have hspares := h.spares
  rcases run_cases action world with ⟨error, after, hfail⟩ | ⟨value, after, hyields⟩
  · rw [hfail] at hspares
    exact .of_error hfail hspares.of_empty
  · obtain ⟨run, hruns, hinvocation, -, hanswer⟩ := h.exists_of_yields hyields
    right
    refine ⟨⟨run, ⟨[], ?_⟩, ⟨file, hinvocation⟩, ?_⟩, hspares.of_empty⟩
    · rw [hyields, hruns, List.append_nil]
    · exact of_decide_eq_true (run.stdout?_eq_some_iff.mp hanswer).1

theorem bind {action : Action α} {next : α → Action β}
    (h : action.Extends world tool places further)
    (hnext : ∀ value between, action.Yields world value between →
      world.Spares (further ∪ places) between →
      between.Spares (further ∪ places) ((next value).run between).2) :
    (action >>= next).Extends world tool places further := by
  rcases run_cases action world with ⟨error, after, hfail⟩ | ⟨value, between, hyields⟩
  · rw [Extends, run_bind_of_error hfail]
    rw [Extends, hfail] at h
    rcases h with ⟨-, hspares⟩ | hprocessed
    · exact .inl ⟨rfl, hspares⟩
    · exact .inr hprocessed
  · rw [Extends, hyields] at h
    obtain ⟨⟨run, hprocessed⟩, hspares⟩ :=
      h.resolve_left fun hfail => Option.some_ne_none value hfail.1
    have hmore := hnext value between hyields hspares
    rw [Extends, run_bind_of_yields hyields]
    exact .inr ⟨⟨run, hprocessed.mono rfl hmore.runs⟩, hspares.trans hmore⟩

/-- What happens before starts no tool. -/
theorem after {first : Action β} {next : β → Action α}
    (hfirst : world.Spares places (first.run world).2)
    (hquiet : (first.run world).2.runs = world.runs)
    (hnext : ∀ value between, first.Yields world value between → world.Spares places between →
      (next value).Extends between tool places further) :
    (first >>= next).Extends world tool places further := by
  rcases run_cases first world with ⟨error, between, hfail⟩ | ⟨value, between, hyields⟩
  · rw [hfail] at hfirst
    exact .of_error (run_bind_of_error hfail next) hfirst
  · rw [hyields] at hfirst hquiet
    have hsecond := hnext value between hyields hfirst
    rw [Extends, run_bind_of_yields hyields]
    rcases hsecond with ⟨hresult, hspares⟩ | ⟨⟨run, hprocessed⟩, hspares⟩
    · exact .inl ⟨hresult, hfirst.trans hspares⟩
    · exact .inr ⟨⟨run, hprocessed.mono hquiet (List.prefix_refl _)⟩,
        (hfirst.mono Set.subset_union_right).trans hspares⟩

/-- What was written was written behind the run. -/
theorem spares {action : Action α} (h : action.Extends world tool ∅ further) :
    world.Spares {location | location ∈ further ∧
      ∃ run, tool.Processed world (action.run world).2 run} (action.run world).2 := by
  rcases h with ⟨-, hspares⟩ | ⟨hrun, hspares⟩
  · exact hspares.of_empty
  · apply hspares.mono
    rintro location (hfurther | hnone)
    · exact ⟨hfurther, hrun⟩
    · exact absurd hnone (Set.notMem_empty location)

end Extends

end Action

theorem Scratch.extends_run {α : Type} {label : Text} {action : Path → Action α} {tool : Tool}
    {places further : Set Location} (hrooted : world.tree.Rooted)
    (hinside : ∀ dir start, Opens world dir start →
      (action dir).Extends start tool (places ∪ below (placeOf world.home dir)) further) :
    (run label action).Extends world tool places further := by
  rcases run_cases label action world with ⟨error, hfail⟩ | ⟨dir, start, hopens, hresult, hcloses⟩
  · exact .of_error hfail (.refl world)
  · rcases hinside dir start hopens with ⟨hnone, hspares⟩ | ⟨⟨run, hprocessed⟩, hspares⟩
    · left
      rw [hresult]
      exact ⟨hnone, spares_of_closes hrooted hopens hspares hcloses⟩
    · right
      rw [← Set.union_assoc] at hspares
      refine ⟨⟨run, hprocessed.mono hopens.runs ⟨[], ?_⟩⟩,
        spares_of_closes hrooted hopens hspares hcloses⟩
      rw [hcloses.runs, List.append_nil]

namespace Expander

variable {expander : Expander} {input : Path} {name : Text}

theorem extends_expandIn (hname : fileName? input = some name) (hhome : world.home = base)
    (rows includes : List Text) (dir : Path) :
    (expander.expandIn input name rows includes dir).Extends world expander.tools.preprocessor
      (below (placeOf base dir)) {placeOf base (Path.expanded input expander.outputDir)} := by
  obtain ⟨hisName, hslash, -⟩ := exists_of_fileName? hname
  rw [expandIn]
  apply Extends.after (Scratch.spares_write hisName hslash hhome dir (Text.joinLines rows))
    (Scratch.runs_write dir name (Text.joinLines rows) world)
  intro copy copied _ hcopied
  have hasks := Expansion.asksOnce_runPreprocessor copied expander.tools copy
  apply Extends.bind (.of_asksOnce (hasks.adapt (Expansion.relabel input)))
  intro expanded preprocessed _ hpreprocessed
  dsimp only
  apply spares_bind
  · apply (spares_writeText _ _ preprocessed).mono
    rw [hpreprocessed.home, hcopied.home, hhome]
    exact Set.subset_union_left
  · intro _ written _ _
    apply spares_bind (Expansion.asksOnce_checkCompiles written _ _ _ _).spares.of_empty
    intro _ checked _ _
    exact .refl checked

theorem extends_expand (hrooted : world.tree.Rooted) (hhome : world.home = base)
    (expander : Expander) (input : Path) :
    (expander.expand input).Extends world expander.tools.preprocessor ∅
      {placeOf base (Path.expanded input expander.outputDir)} := by
  rw [expand]
  rcases readText_cases input world with ⟨error, hfail⟩ | ⟨text, -, hyields⟩
  · exact .of_error (run_bind_of_error hfail _) (.refl world)
  rw [Extends, run_bind_of_yields hyields, ← Extends]
  split <;> rename_i name hname
  · exact .of_error rfl (.refl world)
  dsimp only
  apply Extends.after (Settles.log .debug _).spares (Settles.log .debug _).runs
  intro _ logged _ hlogged
  have hbase : logged.home = base := hlogged.home.trans hhome
  apply Extends.bind
  · apply Scratch.extends_run (hlogged.rooted hrooted)
    intro dir start hopens
    rw [Set.empty_union, hbase]
    exact extends_expandIn hname (hopens.home.trans hbase) _ _ dir
  · intro output expanded _ _
    apply spares_bind (Settles.log .info _).spares.of_empty
    intro _ between _ _
    exact .refl between

theorem eq_of_yields_expand {output : Path} {after : World}
    (h : (expander.expand input).Yields world output after) :
    output = Path.expanded input expander.outputDir := by
  rw [expand, yields_bind_iff] at h
  obtain ⟨text, between, -, h⟩ := h
  split at h
  · exact absurd h not_yields_throw
  dsimp only at h
  rw [yields_bind_iff] at h
  obtain ⟨_, logged, -, h⟩ := h
  rw [yields_bind_iff] at h
  obtain ⟨path, expanded, hrun, h⟩ := h
  rw [yields_bind_iff] at h
  obtain ⟨_, _, -, h⟩ := h
  obtain ⟨rfl, -⟩ := yields_pure_iff.mp h
  obtain ⟨dir, start, finish, -, hinside, -⟩ := Scratch.exists_of_yields_run hrun
  rw [expandIn, yields_bind_iff] at hinside
  obtain ⟨copy, _, -, hinside⟩ := hinside
  rw [yields_bind_iff] at hinside
  obtain ⟨text, _, -, hinside⟩ := hinside
  dsimp only at hinside
  rw [yields_bind_iff] at hinside
  obtain ⟨_, _, -, hinside⟩ := hinside
  rw [yields_bind_iff] at hinside
  obtain ⟨_, _, -, hinside⟩ := hinside
  exact (yields_pure_iff.mp hinside).1.symm

end Expander

/-! ### Unfolding -/

theorem Unfolding.spares_unfoldFile (hhome : world.home = base) (reader : UnitReader) (path : Path) :
    world.Spares {placeOf base path} ((unfoldFile reader path).run world).2 := by
  rw [unfoldFile]
  apply spares_bind ((reader.lookingBeside path).spares_parse world path).of_empty
  intro unit parsed _ hparsed
  dsimp only
  apply spares_bind
  · apply World.Spares.of_empty
    apply Settles.spares
    apply settles_forIn_log_of
  intro _ logged _ hlogged
  apply spares_bind (Settles.placed _).spares.of_empty
  intro progress placed _ hplaced
  apply spares_bind (settles_forIn_log _ .warn _).spares.of_empty
  intro _ warned _ hwarned
  apply spares_bind
  · have hbase : warned.home = base := by
      rw [hwarned.home, hplaced.home, hlogged.home, hparsed.home, hhome]
    rw [← hbase]
    exact spares_writeText path _ warned
  · intro _ written _ _
    apply spares_bind (Settles.log .info _).spares.of_empty
    intro _ finished _ _
    exact .refl finished

/-! ### The whole way -/

namespace Settings

/-- The expander of a file that was made from `origin`. -/
def expanderFor (settings : Settings) (origin : Path) : Expander :=
  (Path.directory? origin).elim settings.expander settings.expander.addDirectory

/-- The reader of a file that was made from `origin`. -/
def readerFor (settings : Settings) (origin : Path) : UnitReader :=
  (Path.directory? origin).elim settings.reader settings.reader.addDirectory

theorem expanderFor_cases (settings : Settings) (origin : Path) :
    (settings.expanderFor origin).tools.preprocessor = settings.tools.preprocessor ∧
      (settings.expanderFor origin).tools.compiler = settings.tools.compiler ∧
      (settings.expanderFor origin).outputDir = settings.outputDir := by
  rw [expanderFor]
  cases Path.directory? origin with
  | none => exact ⟨rfl, rfl, rfl⟩
  | some dir =>
      rw [Option.elim_some, Expander.addDirectory]
      split
      · exact ⟨rfl, rfl, rfl⟩
      · exact ⟨rfl, rfl, rfl⟩

theorem tools_readerFor (settings : Settings) (origin : Path) :
    (settings.readerFor origin).tools = settings.tools := by
  rw [readerFor]
  cases Path.directory? origin with
  | none => rfl
  | some dir => exact settings.reader.tools_addDirectory dir

end Settings

namespace Canonicalization

theorem extends_run (hrooted : world.tree.Rooted) (hhome : world.home = base) (settings : Settings)
    (input origin : Path) :
    (run settings input origin).Extends world settings.tools.preprocessor ∅
      {placeOf base (Path.expanded input settings.outputDir)} := by
  obtain ⟨htool, -, hdir⟩ := settings.expanderFor_cases origin
  have hexpand := (settings.expanderFor origin).extends_expand hrooted hhome input
  rw [htool, hdir] at hexpand
  apply Extends.bind hexpand
  intro expanded between hyields hbetween
  rw [Expander.eq_of_yields_expand hyields, hdir, Set.union_empty]
  apply spares_bind (Unfolding.spares_unfoldFile (hbetween.home.trans hhome) _ _)
  intro canonical unfolded _ _
  apply spares_bind (Settles.log .info _).spares.of_empty
  intro _ finished _ _
  exact .refl finished

/-- The name of the file that comes out. -/
def canonicalName (names : List Text) (name : Text) : Text :=
  if names.isEmpty then "expanded_".toList ++ name
  else "expanded_".toList ++ ("stripped_".toList ++ name)

/-- The places to which files may have been written between two worlds. All functions were stripped, and
the tool that was run next was the preprocessor. -/
def writtenPlaces (settings : Settings) (input : Path) (names : List Text) (world after : World) :
    Set Location :=
  {location | ∃ name text between, fileName? input = some name ∧
    (Stripping.stripAll settings.reader names input).Yields world text between ∧
    (names ≠ [] ∧
        location = outputPlace world.home settings.outputDir input ++ ["stripped_".toList ++ name] ∨
      location = outputPlace world.home settings.outputDir input ++ [canonicalName names name] ∧
        ∃ run, settings.tools.preprocessor.Processed between after run)}

theorem canonicalizeStripped_nil (settings : Settings) (input : Path) :
    canonicalizeStripped settings input [] = canonicalize settings input := rfl

theorem spares_canonicalize (hrooted : world.tree.Rooted) (settings : Settings) {input : Path}
    {name text : Text} (hname : fileName? input = some name) (hread : world.readText input = .ok text) :
    world.Spares (writtenPlaces settings input [] world ((canonicalize settings input).run world).2)
      ((canonicalize settings input).run world).2 := by
  apply (extends_run hrooted rfl settings input input).spares.mono
  rintro location ⟨rfl, hrun⟩
  have hstrip : (Stripping.stripAll settings.reader [] input).Yields world text world :=
    run_bind_of_yields (yields_readText_iff.mpr ⟨hread, rfl⟩) _
  refine ⟨name, text, world, hname, hstrip, .inr ⟨?_, hrun⟩⟩
  exact placeOf_derived isName_expanded (by decide) hname world.home settings.outputDir

theorem spares_canonicalizeStripped (hrooted : world.tree.Rooted) (settings : Settings)
    {input : Path} {name : Text} (hname : fileName? input = some name) {names : List Text}
    (hne : names ≠ []) :
    world.Spares
      (writtenPlaces settings input names world
        ((canonicalizeStripped settings input names).run world).2)
      ((canonicalizeStripped settings input names).run world).2 := by
  have hempty : ¬names.isEmpty := by simpa using hne
  have hstrip := Stripping.spares_stripAll hrooted settings.reader names input
  rw [canonicalizeStripped, if_neg hempty]
  rcases run_cases (Stripping.stripAll settings.reader names input) world with
    ⟨error, between, hfail⟩ | ⟨text, between, hyields⟩
  · rw [run_bind_of_error hfail]
    rw [hfail] at hstrip
    exact hstrip.of_empty
  rw [hyields] at hstrip
  have hstripped := placeOf_derived isName_stripped (by decide) hname world.home settings.outputDir
  rcases writeText_cases (Path.stripped input settings.outputDir) text between with
    ⟨error, hfail⟩ | ⟨written, hwrite, hwritten⟩
  · rw [run_bind_of_yields hyields, run_bind_of_error hfail]
    exact hstrip.of_empty
  -- From here on the stripped file may have changed.
  have hinfo : (Action.info ("Wrote stripped source to ".toList ++
      Path.stripped input settings.outputDir)).Settles written (some ()) := .log .info _
  obtain ⟨logged, hinfo, hquiet, hlogged⟩ := hinfo.yields
  rw [run_bind_of_yields hyields, run_bind_of_yields hwritten, run_bind_of_yields hinfo]
  have hruns : logged.runs = between.runs := hquiet.trans (World.readText_of_writeText hwrite).2
  have hwrite := World.spares_writeText hwrite
  have hhome : logged.home = world.home := by
    rw [hlogged.home, hwrite.home, hstrip.home]
  have hrun := extends_run (hlogged.rooted (hwrite.rooted (hstrip.rooted hrooted))) hhome settings
    (Path.stripped input settings.outputDir) input
  apply hstrip.of_empty.trans
  refine World.Spares.trans (hwrite.mono ?_) ?_
  · rintro location rfl
    rw [hstrip.home]
    exact ⟨name, text, between, hname, hyields, .inl ⟨hne, hstripped⟩⟩
  apply hlogged.of_empty.trans
  apply hrun.spares.mono
  rintro location ⟨rfl, run, hprocessed⟩
  refine ⟨name, text, between, hname, hyields,
    .inr ⟨?_, run, hprocessed.mono hruns (List.prefix_refl _)⟩⟩
  have hnamed := fileName?_derived isName_stripped (by decide) hname settings.outputDir
  have hplace := placeOf_derived isName_expanded (by decide) hnamed world.home settings.outputDir
  rw [outputPlace_derived isName_stripped (by decide) hname] at hplace
  rw [canonicalName, if_neg hempty]
  exact hplace

/-- The input is not among the files that are derived from it. -/
theorem placeOf_notMem_writtenPlaces {settings : Settings} {input : Path} {names : List Text}
    {after : World} : placeOf world.home input ∉ writtenPlaces settings input names world after := by
  rintro ⟨name, text, between, hname, -, hplace⟩
  obtain ⟨above, habove⟩ := placeOf_of_fileName? hname world.home
  rw [habove] at hplace
  -- The last names would differ by a mark that is empty.
  have hmarked : ∀ mark, mark ≠ [] →
      above ++ [name] ≠ outputPlace world.home settings.outputDir input ++ [mark ++ name] := by
    intro mark hmark hsame
    have hlast := List.singleton_inj.mp (List.append_inj_right' hsame rfl)
    exact hmark (List.self_eq_append_left.mp hlast)
  rcases hplace with ⟨-, hsame⟩ | ⟨hsame, -⟩
  · exact hmarked "stripped_".toList (by decide) hsame
  · rw [canonicalName] at hsame
    split at hsame
    · exact hmarked "expanded_".toList (by decide) hsame
    · rw [← List.append_assoc "expanded_".toList] at hsame
      exact hmarked _ (by decide) hsame

/-- Nothing is done to an input that cannot be read. -/
theorem run_canonicalizeStripped_of_error {settings : Settings} {input : Path} {error : Error}
    (hfail : (readText input).run world = (.error error, world)) (names : List Text) :
    (canonicalizeStripped settings input names).run world = (.error error, world) := by
  rw [canonicalizeStripped]
  split
  · exact run_bind_of_error (run_bind_of_error hfail _) _
  · exact run_bind_of_error (run_bind_of_error hfail _) _

/-- A canonicalization changes nothing but the files it derives, whether it succeeds or not. No
directory comes or goes, and the input stays as it is; the stripped file is written only when all
functions were stripped, and the expanded one only when the preprocessor, which is run next, exited
with 0. -/
theorem only_derived_files_change (settings : Settings) (input : Path) (names : List Text)
    (world : World) (hrooted : world.tree.Rooted) :
    canonicalizeStripped settings input [] = canonicalize settings input ∧
    ∃ result after, (canonicalizeStripped settings input names).run world = (result, after) ∧
      (∀ location, after.tree.isDirectory location = world.tree.isDirectory location) ∧
      (∀ content, world.tree.read world.home input = .ok content →
        placeOf world.home input ∉ world.logPlaces →
        after.tree.read after.home input = .ok content) ∧
      ∀ location ∉ world.logPlaces, after.tree.get? location ≠ world.tree.get? location →
        location ∈ writtenPlaces settings input names world after := by
  rcases hrun : (canonicalizeStripped settings input names).run world with ⟨result, after⟩
  refine ⟨rfl, result, after, rfl, ?_⟩
  rcases readText_cases input world with ⟨error, hfail⟩ | ⟨text, htext, -⟩
  · rw [run_canonicalizeStripped_of_error hfail names] at hrun
    cases hrun
    exact ⟨fun _ => rfl, fun _ hread _ => hread, fun location _ hchanged => absurd rfl hchanged⟩
  · obtain ⟨name, hname⟩ := hrooted.exists_fileName? (World.readText_eq_ok_iff.mp htext)
    have hspares : world.Spares (writtenPlaces settings input names world after) after := by
      by_cases hne : names = []
      · subst hne
        have hcanonical := spares_canonicalize hrooted settings hname htext
        rwa [← canonicalizeStripped_nil, hrun] at hcanonical
      · have hstripped := spares_canonicalizeStripped hrooted settings hname hne
        rwa [hrun] at hstripped
    refine ⟨hspares.tree.directory, ?_, ?_⟩
    · intro content hread hlog
      rw [hspares.home]
      apply hspares.tree.read hread
      rintro (hwritten | hlogged)
      · exact placeOf_notMem_writtenPlaces hwritten
      · exact hlog hlogged
    · intro location hlog hchanged
      by_contra hout
      apply hchanged
      apply hspares.tree.elsewhere
      rintro (hwritten | hlogged)
      · exact hout hwritten
      · exact hlog hlogged

/-- A world in which the compiler accepts nothing, while all other tools print the same dump. -/
def uncompilableWorld : World :=
  { Stripping.prototypeWorld with
    launcher := fun _ _ invocation =>
      .ok ⟨Text.toBytes Stripping.prototypeDump, [],
        if invocation.program = "cc".toList then .code 1 else .code 0⟩ }

theorem only_derived_files_change_before_failed_compilation :
    uncompilableWorld.tree.Rooted ∧
    ∃ error after, (canonicalizeStripped .standard "f.c".toList ["f".toList]).run uncompilableWorld =
        (.error error, after) ∧
      (∀ location, after.tree.isDirectory location = uncompilableWorld.tree.isDirectory location) ∧
      after.tree.read after.home "f.c".toList = .ok (Text.toBytes Stripping.prototypeText) ∧
      after.tree.get? ["stripped_f.c".toList] =
        some (.file (Text.toBytes "int f(void);\nint f(void) \x7b\x7d\n".toList)) ∧
      (after.tree.get? ["expanded_stripped_f.c".toList]).isSome ∧
      ∀ location, after.tree.get? location ≠ uncompilableWorld.tree.get? location →
        location ∈ writtenPlaces .standard "f.c".toList ["f".toList] uncompilableWorld after := by
  have hrooted : uncompilableWorld.tree.Rooted := rooted_of_entries (by decide +kernel)
  obtain ⟨-, result, after, hrun, hdirectory, hread, hwritten⟩ :=
    only_derived_files_change .standard "f.c".toList ["f".toList] uncompilableWorld hrooted
  have hlog : ∀ location, location ∉ uncompilableWorld.logPlaces := by
    rintro location ⟨file, hfile, -⟩
    cases hfile
  have hfacts : ((canonicalizeStripped .standard "f.c".toList ["f".toList]).run
        uncompilableWorld).1.toOption = none ∧
      ((canonicalizeStripped .standard "f.c".toList ["f".toList]).run
        uncompilableWorld).2.tree.get? ["stripped_f.c".toList] =
        some (.file (Text.toBytes "int f(void);\nint f(void) \x7b\x7d\n".toList)) ∧
      (((canonicalizeStripped .standard "f.c".toList ["f".toList]).run
        uncompilableWorld).2.tree.get? ["expanded_stripped_f.c".toList]).isSome := by
    decide +kernel
  rw [hrun] at hfacts
  obtain ⟨hfail, hstripped, hexpanded⟩ := hfacts
  cases result with
  | ok path => cases hfail
  | error error =>
      exact ⟨hrooted, error, after, hrun, hdirectory, hread _ (by decide +kernel) (hlog _), hstripped,
        hexpanded, fun location => hwritten location (hlog location)⟩

end Canonicalization

end PlainC
