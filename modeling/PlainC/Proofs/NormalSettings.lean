import PlainC.Settings
import PlainC.Proofs.Margins

/-!
# Settings in normal form

Reading settings is two steps: what a document gives under the known keys takes the place of the
defaults, and the whole is brought into normal form. The first step sees the known keys and nothing
else. The second one forgets the blanks around commands and entries, and entries that are blank. So the
settings are a function of what the known keys say, up to blanks, and are normal whatever they say.
-/

namespace PlainC

namespace Settings

variable {document other : Toml.Entries} {settings : Settings}

/-! ### What a document gives -/

/-- The value under a key of a table of the document. -/
def valueAt (document : Toml.Entries) (table key : String) : Option Toml.Value :=
  Toml.Entries.get? (((document.get? table.toList).bind asTable?).getD []) key.toList

def textAt (document : Toml.Entries) (table key : String) : Option Text :=
  (valueAt document table key).bind asText?

def textsAt (document : Toml.Entries) (table key : String) : Option (List Text) :=
  (valueAt document table key).bind asTexts?

def levelAt (document : Toml.Entries) : Option LogLevel :=
  (valueAt document "logging" "level").bind asLevel?

/-- A tool with what a document gives for it in place of the default. -/
def toolAt (document : Toml.Entries) (key flagsKey : String) (default : Tool) : Tool :=
  ⟨(textAt document "tools" key).getD default.program,
    (textsAt document "tools" flagsKey).getD default.flags⟩

/-- The defaults with what a document gives in their place. -/
def given (document : Toml.Entries) : Settings where
  tools := {
    clang := toolAt document "clang" "clang_flags" Toolchain.standard.clang
    preprocessor :=
      toolAt document "preprocessor" "preprocessor_flags" Toolchain.standard.preprocessor
    compiler := toolAt document "compiler" "compiler_flags" Toolchain.standard.compiler
    includePaths :=
      (textsAt document "tools" "include_paths").getD Toolchain.standard.includePaths }
  outputDir := textAt document "output" "directory"
  level := (levelAt document).getD .standard

theorem exists_of_bind {α β : Type} {reading : Reading α} {next : α → Reading β} {result : β}
    (h : reading >>= next = .ok result) : ∃ value, reading = .ok value ∧ next value = .ok result := by
  cases reading with
  | error wrong => cases h
  | ok value => exact ⟨value, rfl, h⟩

theorem eq_of_field {α : Type} {entries : Toml.Entries} {key : String} {read? : Toml.Value → Option α}
    {content : Option α} (h : field entries key read? = .ok content) :
    content = (entries.get? key.toList).bind read? := by
  unfold field at h
  split at h <;> rename_i hget
  · rw [hget]
    exact (Except.ok.inj h).symm
  · split at h <;> rename_i hread
    · rw [hget, Option.bind_some, hread]
      exact (Except.ok.inj h).symm
    · cases h

theorem eq_toolAt_of_readTool {key flagsKey : String} {default tool : Tool}
    (h : readTool (((document.get? "tools".toList).bind asTable?).getD []) key flagsKey default =
      .ok tool) : tool = toolAt document key flagsKey default := by
  obtain ⟨program, hprogram, h⟩ := exists_of_bind h
  obtain ⟨flags, hflags, h⟩ := exists_of_bind h
  rw [← Except.ok.inj h, eq_of_field hprogram, eq_of_field hflags]
  rfl

theorem eq_given_of_readTools {tools : Toolchain}
    (h : readTools (((document.get? "tools".toList).bind asTable?).getD []) = .ok tools) :
    tools = (given document).tools := by
  obtain ⟨-, -, h⟩ := exists_of_bind h
  obtain ⟨clang, hclang, h⟩ := exists_of_bind h
  obtain ⟨preprocessor, hpreprocessor, h⟩ := exists_of_bind h
  obtain ⟨compiler, hcompiler, h⟩ := exists_of_bind h
  obtain ⟨includePaths, hincludePaths, h⟩ := exists_of_bind h
  rw [← Except.ok.inj h, eq_toolAt_of_readTool hclang, eq_toolAt_of_readTool hpreprocessor,
    eq_toolAt_of_readTool hcompiler, eq_of_field hincludePaths]
  rfl

/-- A document that is accepted describes what it gives, in normal form. -/
theorem eq_normalize_given (h : ofEntries document = .ok settings) :
    settings = normalize (given document) := by
  obtain ⟨-, -, h⟩ := exists_of_bind h
  obtain ⟨table, htable, h⟩ := exists_of_bind h
  obtain ⟨tools, htools, h⟩ := exists_of_bind h
  obtain ⟨output, houtput, h⟩ := exists_of_bind h
  obtain ⟨-, -, h⟩ := exists_of_bind h
  obtain ⟨outputDir, houtputDir, h⟩ := exists_of_bind h
  obtain ⟨logging, hlogging, h⟩ := exists_of_bind h
  obtain ⟨-, -, h⟩ := exists_of_bind h
  obtain ⟨level, hlevel, h⟩ := exists_of_bind h
  rw [eq_of_field htable] at htools
  rw [eq_of_field houtput] at houtputDir
  rw [eq_of_field hlogging] at hlevel
  rw [← Except.ok.inj h, eq_given_of_readTools htools, eq_of_field houtputDir, eq_of_field hlevel]
  rfl

theorem exists_document_of_parse {text : Text} (h : parse text = .ok settings) :
    ∃ document, Toml.parse? text = some document ∧ settings = normalize (given document) := by
  unfold parse at h
  split at h
  · cases h
  · rename_i document hdocument
    split at h <;> rename_i hread
    · cases h
      exact ⟨document, hdocument, eq_normalize_given hread⟩
    · cases h

/-! ### Tidy lists and commands -/

/-- That a text is there and has no blank at its ends. -/
def IsTidy (text : Text) : Prop := text ≠ [] ∧ text.IsTrimmed

/-- The entries of a list in their order, without the blanks around them and without blank entries. -/
inductive Tidies : List Text → List Text → Prop where
  | nil : Tidies [] []
  | blank {item : Text} {items tidy : List Text} (hblank : ∀ c ∈ item, isBlank c)
      (hitems : Tidies items tidy) : Tidies (item :: items) tidy
  | entry {item core : Text} {items tidy : List Text} (hpads : item.Pads core) (hcore : IsTidy core)
      (hitems : Tidies items tidy) : Tidies (item :: items) (core :: tidy)

/-- A command as it is written, without the blanks around it; the default if none is written or a blank
one. -/
def CommandFrom (written : Option Text) (default command : Text) : Prop :=
  (∃ text, written = some text ∧ text.Pads command ∧ IsTidy command) ∨
    (∀ text, written = some text → ∀ c ∈ text, isBlank c) ∧ command = default

theorem normalList_cons (item : Text) (items : List Text) :
    normalList (item :: items) =
      if Text.trim item = [] then normalList items else Text.trim item :: normalList items := by
  simp [normalList, List.filter_cons]

theorem tidies_iff {items tidy : List Text} : Tidies items tidy ↔ normalList items = tidy := by
  constructor
  · intro h
    induction h with
    | nil => rfl
    | blank hblank _ ih => rw [normalList_cons, if_pos (Text.trim_eq_nil_iff.mpr hblank), ih]
    | entry hpads hcore _ ih =>
        rw [normalList_cons, Text.trim_eq_iff.mpr ⟨hpads, hcore.2⟩, if_neg hcore.1, ih]
  · rintro rfl
    induction items with
    | nil => exact .nil
    | cons item items ih =>
        rw [normalList_cons]
        split <;> rename_i hitem
        · exact .blank (Text.trim_eq_nil_iff.mp hitem) ih
        · exact .entry (Text.pads_trim item) ⟨hitem, Text.isTrimmed_trim item⟩ ih

theorem Tidies.isTidy {items tidy : List Text} (h : Tidies items tidy) :
    ∀ entry ∈ tidy, IsTidy entry := by
  induction h with
  | nil => simp
  | blank _ _ ih => exact ih
  | entry _ hcore _ ih => exact List.forall_mem_cons.mpr ⟨hcore, ih⟩

theorem tidies_self {tidy : List Text} (h : ∀ entry ∈ tidy, IsTidy entry) : Tidies tidy tidy := by
  induction tidy with
  | nil => exact .nil
  | cons entry tidy ih =>
      obtain ⟨hentry, hrest⟩ := List.forall_mem_cons.mp h
      exact .entry ⟨[], [], by simp, by simp, by simp⟩ hentry (ih hrest)

theorem normalCommand_of_isTidy {command : Text} (h : IsTidy command) (default : Text) :
    normalCommand command default = command := by
  simp [normalCommand, Text.isTrimmed_iff.mp h.2, h.1]

theorem isTidy_normalCommand {default : Text} (hdefault : IsTidy default) (command : Text) :
    IsTidy (normalCommand command default) := by
  rw [normalCommand]
  split <;> rename_i hempty
  · exact hdefault
  · exact ⟨by simpa using hempty, Text.isTrimmed_trim command⟩

theorem commandFrom_normalCommand {default : Text} (hdefault : IsTidy default) (written : Option Text) :
    CommandFrom written default (normalCommand (written.getD default) default) := by
  cases written with
  | none =>
      refine .inr ⟨fun text h => ?_, normalCommand_of_isTidy hdefault default⟩
      cases h
  | some text =>
      rw [Option.getD_some, normalCommand]
      split <;> rename_i hempty
      · refine .inr ⟨fun text' h => ?_, rfl⟩
        cases h
        exact Text.trim_eq_nil_iff.mp (List.isEmpty_iff.mp hempty)
      · exact .inl ⟨text, rfl, Text.pads_trim text, by simpa using hempty, Text.isTrimmed_trim text⟩

/-! ### Normal settings -/

def commands (settings : Settings) : List Text :=
  [settings.tools.clang.program, settings.tools.preprocessor.program, settings.tools.compiler.program]

def lists (settings : Settings) : List (List Text) :=
  [settings.tools.clang.flags, settings.tools.preprocessor.flags, settings.tools.compiler.flags,
    settings.tools.includePaths]

/-- That commands, flags and directories are there and have no blanks around them, and that the output
directory is not the empty path. -/
structure IsNormal (settings : Settings) : Prop where
  commands : ∀ command ∈ settings.commands, IsTidy command
  lists : ∀ list ∈ settings.lists, ∀ entry ∈ list, IsTidy entry
  outputDir : settings.outputDir ≠ some []

theorem isNormal_standard : standard.IsNormal where
  commands := by
    simp only [commands, IsTidy, Text.isTrimmed_iff]
    decide
  lists := by
    simp only [lists, IsTidy, Text.isTrimmed_iff]
    decide
  outputDir := by decide

theorem isNormal_normalize (settings : Settings) : (normalize settings).IsNormal where
  commands := by
    have hdefaults := isNormal_standard.commands
    simp only [commands, List.forall_mem_cons] at hdefaults ⊢
    exact ⟨isTidy_normalCommand hdefaults.1 _, isTidy_normalCommand hdefaults.2.1 _,
      isTidy_normalCommand hdefaults.2.2.1 _, List.forall_mem_nil _⟩
  lists := by
    have hlist : ∀ items, ∀ entry ∈ normalList items, IsTidy entry :=
      fun items => (tidies_iff.mpr rfl).isTidy
    simp only [lists, List.forall_mem_cons]
    exact ⟨hlist _, hlist _, hlist _, hlist _, List.forall_mem_nil _⟩
  outputDir := by
    intro hempty
    obtain ⟨-, hne⟩ := Option.filter_eq_some_iff.mp hempty
    cases hne

theorem normalize_of_isNormal (h : settings.IsNormal) : normalize settings = settings := by
  obtain ⟨⟨⟨clang, clangFlags⟩, ⟨preprocessor, preprocessorFlags⟩, ⟨compiler, compilerFlags⟩,
    includePaths⟩, outputDir, level⟩ := settings
  obtain ⟨hcommands, hlists, hdir⟩ := h
  simp only [commands, List.forall_mem_cons] at hcommands
  simp only [lists, List.forall_mem_cons] at hlists
  have hlist : ∀ {items : List Text}, (∀ entry ∈ items, IsTidy entry) → normalList items = items :=
    fun hitems => tidies_iff.mp (tidies_self hitems)
  have houtput : outputDir.filter (!·.isEmpty) = outputDir := by
    cases outputDir with
    | none => rfl
    | some dir =>
        have hne : dir ≠ [] := fun hempty => hdir (congrArg some hempty)
        simp [hne]
  simp only [normalize, normalTools, normalTool, normalCommand_of_isTidy hcommands.1,
    normalCommand_of_isTidy hcommands.2.1, normalCommand_of_isTidy hcommands.2.2.1,
    hlist hlists.1, hlist hlists.2.1, hlist hlists.2.2.1, hlist hlists.2.2.2.1, houtput]

/-! ### What settings say of a document -/

structure ToolFrom (document : Toml.Entries) (key flagsKey : String) (default tool : Tool) : Prop where
  program : CommandFrom (textAt document "tools" key) default.program tool.program
  flags : Tidies ((textsAt document "tools" flagsKey).getD default.flags) tool.flags

/-- That settings are what a document gives, with lists in the order of the document. -/
structure Describes (document : Toml.Entries) (settings : Settings) : Prop where
  clang : ToolFrom document "clang" "clang_flags" Toolchain.standard.clang settings.tools.clang
  preprocessor : ToolFrom document "preprocessor" "preprocessor_flags"
    Toolchain.standard.preprocessor settings.tools.preprocessor
  compiler :
    ToolFrom document "compiler" "compiler_flags" Toolchain.standard.compiler settings.tools.compiler
  includePaths : Tidies
    ((textsAt document "tools" "include_paths").getD Toolchain.standard.includePaths)
    settings.tools.includePaths
  outputDir : ∀ dir, settings.outputDir = some dir ↔
    textAt document "output" "directory" = some dir ∧ dir ≠ []
  level : settings.level = (levelAt document).getD .standard

theorem toolFrom_normalTool {key flagsKey : String} {default : Tool}
    (hdefault : IsTidy default.program) :
    ToolFrom document key flagsKey default
      (normalTool (toolAt document key flagsKey default) default) where
  program := commandFrom_normalCommand hdefault _
  flags := tidies_iff.mpr rfl

theorem describes_normalize_given (document : Toml.Entries) :
    Describes document (normalize (given document)) := by
  have hdefaults := isNormal_standard.commands
  simp only [commands, List.forall_mem_cons] at hdefaults
  exact {
    clang := toolFrom_normalTool hdefaults.1
    preprocessor := toolFrom_normalTool hdefaults.2.1
    compiler := toolFrom_normalTool hdefaults.2.2.1
    includePaths := tidies_iff.mpr rfl
    outputDir := fun dir => by simp [normalize, given, Option.filter_eq_some_iff]
    level := rfl }

/-! ### Documents that agree -/

/-- That two texts differ in the blanks around them only. -/
def SameCommand (text other : Text) : Prop := ∃ core : Text, text.Pads core ∧ other.Pads core

/-- That two lists differ in the blanks around their entries and in blank entries only. -/
def SameEntries (items others : List Text) : Prop := ∃ tidy, Tidies items tidy ∧ Tidies others tidy

/-- That two documents say the same under the known keys, up to blanks around commands and entries and
up to blank entries. What stands under other keys may differ. -/
structure Agree (document other : Toml.Entries) : Prop where
  commands : ∀ key ∈ ["clang", "preprocessor", "compiler"],
    Option.Rel SameCommand (textAt document "tools" key) (textAt other "tools" key)
  lists : ∀ key ∈ ["clang_flags", "preprocessor_flags", "compiler_flags", "include_paths"],
    Option.Rel SameEntries (textsAt document "tools" key) (textsAt other "tools" key)
  outputDir : textAt document "output" "directory" = textAt other "output" "directory"
  level : levelAt document = levelAt other

theorem sameCommand_iff {text other : Text} : SameCommand text other ↔ text.trim = other.trim := by
  constructor
  · rintro ⟨core, hpads, hpads'⟩
    rw [hpads.trim_eq, hpads'.trim_eq]
  · intro h
    exact ⟨text.trim, text.pads_trim, h ▸ other.pads_trim⟩

theorem sameEntries_iff {items others : List Text} :
    SameEntries items others ↔ normalList items = normalList others := by
  constructor
  · rintro ⟨tidy, htidy, htidy'⟩
    rw [tidies_iff.mp htidy, tidies_iff.mp htidy']
  · intro h
    exact ⟨normalList others, tidies_iff.mpr h, tidies_iff.mpr rfl⟩

theorem rel_iff_map_eq {α β : Type} {same : α → α → Prop} {view : α → β}
    (hsame : ∀ a b, same a b ↔ view a = view b) {one other : Option α} :
    Option.Rel same one other ↔ one.map view = other.map view := by
  constructor
  · rintro (h | -)
    · rw [Option.map_some, Option.map_some, (hsame _ _).mp h]
    · rfl
  · cases one <;> cases other <;> intro h
    · exact .none
    · cases h
    · cases h
    · exact .some ((hsame _ _).mpr (Option.some.inj h))

theorem rel_sameCommand_iff {one other : Option Text} :
    Option.Rel SameCommand one other ↔ one.map Text.trim = other.map Text.trim := by
  apply rel_iff_map_eq
  exact fun _ _ => sameCommand_iff

theorem rel_sameEntries_iff {one other : Option (List Text)} :
    Option.Rel SameEntries one other ↔ one.map normalList = other.map normalList := by
  apply rel_iff_map_eq
  exact fun _ _ => sameEntries_iff

theorem agree_iff :
    Agree document other ↔
      (∀ key ∈ ["clang", "preprocessor", "compiler"],
        (textAt document "tools" key).map Text.trim = (textAt other "tools" key).map Text.trim) ∧
      (∀ key ∈ ["clang_flags", "preprocessor_flags", "compiler_flags", "include_paths"],
        (textsAt document "tools" key).map normalList = (textsAt other "tools" key).map normalList) ∧
      textAt document "output" "directory" = textAt other "output" "directory" ∧
      levelAt document = levelAt other := by
  constructor
  · rintro ⟨hcommands, hlists, houtput, hlevel⟩
    exact ⟨fun key hkey => rel_sameCommand_iff.mp (hcommands key hkey),
      fun key hkey => rel_sameEntries_iff.mp (hlists key hkey), houtput, hlevel⟩
  · rintro ⟨hcommands, hlists, houtput, hlevel⟩
    exact ⟨fun key hkey => rel_sameCommand_iff.mpr (hcommands key hkey),
      fun key hkey => rel_sameEntries_iff.mpr (hlists key hkey), houtput, hlevel⟩

instance (document other : Toml.Entries) : Decidable (Agree document other) :=
  decidable_of_iff _ agree_iff.symm

theorem normalCommand_congr {one other : Option Text} (h : Option.Rel SameCommand one other)
    (default : Text) :
    normalCommand (one.getD default) default = normalCommand (other.getD default) default := by
  cases h with
  | none => rfl
  | some hsame => simp only [Option.getD_some, normalCommand, sameCommand_iff.mp hsame]

theorem normalList_congr {one other : Option (List Text)} (h : Option.Rel SameEntries one other)
    (default : List Text) : normalList (one.getD default) = normalList (other.getD default) := by
  cases h with
  | none => rfl
  | some hsame => exact sameEntries_iff.mp hsame

theorem Agree.normalTool_toolAt (h : Agree document other) {key flagsKey : String}
    (hkey : key ∈ ["clang", "preprocessor", "compiler"])
    (hflagsKey : flagsKey ∈ ["clang_flags", "preprocessor_flags", "compiler_flags", "include_paths"])
    (default : Tool) :
    normalTool (toolAt document key flagsKey default) default =
      normalTool (toolAt other key flagsKey default) default := by
  rw [normalTool, normalTool, toolAt, toolAt, normalCommand_congr (h.commands key hkey),
    normalList_congr (h.lists flagsKey hflagsKey)]

theorem Agree.normalize_given (h : Agree document other) :
    normalize (given document) = normalize (given other) := by
  simp only [normalize, normalTools, given]
  rw [h.normalTool_toolAt (by decide) (by decide), h.normalTool_toolAt (by decide) (by decide),
    h.normalTool_toolAt (by decide) (by decide), normalList_congr (h.lists _ (by decide)),
    h.outputDir, h.level]

/-- The settings of an accepted text are what its document gives, the entries of lists in their order.
They are normal, and bringing them into normal form again changes nothing. Any other accepted text whose
document agrees under the known keys has the same settings, whatever its other keys are. -/
theorem settings_normal_and_set_by_known_keys {text : Text} {settings : Settings}
    (haccepted : parse text = .ok settings) :
    ∃ document, Toml.parse? text = some document ∧ Describes document settings ∧ settings.IsNormal ∧
      normalize settings = settings ∧
      ∀ text' document' settings', Toml.parse? text' = some document' → Agree document document' →
        parse text' = .ok settings' → settings' = settings := by
  obtain ⟨document, hdocument, rfl⟩ := exists_document_of_parse haccepted
  have hnormal := isNormal_normalize (given document)
  refine ⟨document, hdocument, describes_normalize_given document, hnormal,
    normalize_of_isNormal hnormal, ?_⟩
  intro text' document' settings' hdocument' hagree haccepted'
  obtain ⟨found, hfound, rfl⟩ := exists_document_of_parse haccepted'
  obtain rfl : found = document' := Option.some.inj (hfound.symm.trans hdocument')
  exact hagree.normalize_given.symm

/-- Blanks around commands and entries, and blank ones among them. -/
def paddedText : Text := [
  "[tools]\n", "clang = \" clang-17\\t\"\n", "clang_flags = [\"-x\", \" \", \"\u00a0c\"]\n",
  "compiler = \"\"\n", "[output]\n", "directory = \" out\"\n", "[logging]\n",
  "level = \"warn\"\n"].flatMap String.toList

/-- The same under the known keys, among keys that are not known. -/
def extendedText : Text := [
  "retries = 3\n", "logging.color = true\n", "logging.level.warn = []\n", "[tools]\n",
  "clang = \"clang-17\"\n", "linker = \"ld\"\n", "clang_flags = [\"\", \"-x \", \"c\"]\n",
  "compiler = \" \"\n", "[tools.extra]\n", "clang = 1\n", "[output]\n", "mode = 7\n",
  "directory = \" out\"\n"].flatMap String.toList

theorem settings_normal_and_set_by_known_keys_among_blanks :
    let settings : Settings := {
      tools := { Toolchain.standard with clang := ⟨"clang-17".toList, ["-x".toList, "c".toList]⟩ }
      outputDir := some " out".toList
      level := .warn }
    parse paddedText = .ok settings ∧ parse extendedText = .ok settings ∧ settings.IsNormal ∧
      normalize settings = settings := by
  intro settings
  have haccepted : parse paddedText = .ok settings := by decide +kernel
  obtain ⟨document, hdocument, -, hnormal, hagain, hsame⟩ :=
    settings_normal_and_set_by_known_keys haccepted
  obtain rfl : (Toml.parse? paddedText).getD [] = document := by rw [hdocument, Option.getD_some]
  obtain ⟨extended, hextended⟩ : ∃ extended, parse extendedText = .ok extended := by
    cases hparse : parse extendedText with
    | ok extended => exact ⟨extended, rfl⟩
    | error refusal =>
        have hok : (parse extendedText).isOk := by decide +kernel
        rw [hparse] at hok
        cases hok
  obtain ⟨document', hdocument', -⟩ := exists_document_of_parse hextended
  obtain rfl : (Toml.parse? extendedText).getD [] = document' := by rw [hdocument', Option.getD_some]
  obtain rfl := hsame extendedText _ extended hdocument' (by decide +kernel) hextended
  exact ⟨haccepted, hextended, hnormal, hagain⟩

end Settings

end PlainC
