import PlainC.Stripping
import PlainC.Proofs.Effects
import PlainC.Proofs.Lexing

/-!
# Stripping deletes `static` and nothing else

Whatever the compiler prints, a text that is stripped loses at most two words for each function, and
each of them is `static`, the first token of a span that the last dump gave for that function. The span
is used on the text that the compiler saw when it printed the dump: what was written to the working copy
is what the compiler finds there, and what is read from it again.
-/

namespace PlainC

open FileTree Position

namespace Stripping

/-! ### What a run may do -/

/-- A node of a dump that gives a span for a function, with both ends in one of the files. -/
def Places (files : List Text) (name : Text) (span : Span) (node : Dump.Node) : Prop :=
  node.kind = .function ∧ node.name = some name ∧ ∃ range first last, node.range = some range ∧
    range.first.place? = some first ∧ range.last.place? = some last ∧
    first.file ∈ files ∧ last.file ∈ files ∧
    span.first = ⟨Dump.word first.line, Dump.word first.col⟩ ∧
    span.last = ⟨Dump.word last.line, Dump.word (last.col + max last.tokenLength 1 - 1)⟩

/-- A unit that was read from a text and from the dump that the compiler printed for the file with that
text. Only a log that is kept in the very file could make the compiler see another one. -/
structure ReadBy (reader : UnitReader) (world : World) (run : Run) (text : Text)
    (unit : CompilationUnit) : Prop where
  invocation : run.invocation = ⟨reader.tools.clang.program, reader.dumpArgs unit.path⟩
  sees : placeOf world.home unit.path ∉ world.logPlaces → run.Sees world.home unit.path text
  read : run.unit? world.home text = some unit
  printed : ∃ root, Dump.parse? run.stdout = some root ∧
    ∀ function ∈ unit.functions, ∀ span, function.span = some span →
      ∃ node ∈ root.inner, Places (run.spellings world.home) function.name span node

/-- One deletion from the text of a unit: `static` is the first token of the span of a function of the
unit, and it goes with one space or tab at most directly behind it. -/
structure Deletes (unit : CompilationUnit) (name : Text) (isDefinition : Bool)
    (before after : Text) : Prop where
  source : unit.source = .ofText before
  keyword : ∃ function ∈ unit.functions, function.name = name ∧
    function.isDefinition = isDefinition ∧ ∃ span token others, function.span = some span ∧
      unit.source.tokens span = .ok (token :: others) ∧ token.kind = some .staticKeyword ∧
      token.spelling = "static".toList ∧ ∃ front blank rest,
        origin.after front = token.span.first ∧
        origin.after (front ++ token.spelling) = ⟨token.span.last.line, token.span.last.col + 1⟩ ∧
        (blank = [] ∨ blank = [' '] ∨ blank = ['\t']) ∧
        before = front ++ token.spelling ++ blank ++ rest ∧ after = front ++ rest

/-- What becomes of a text when one function is stripped, with the runs of the compiler that it takes. A
second run comes exactly behind a deletion from the declaration. -/
inductive Pass (reader : UnitReader) (world : World) (name : Text) : Text → List Run → Text → Prop where
  | once {run : Run} {unit : CompilationUnit} {before after : Text} :
      ReadBy reader world run before unit →
      (before = after ∨ Deletes unit name true before after) →
      Pass reader world name before [run] after
  | twice {run again : Run} {unit reread : CompilationUnit} {before between after : Text} :
      ReadBy reader world run before unit → Deletes unit name false before between →
      ReadBy reader world again between reread →
      (between = after ∨ Deletes reread name true between after) →
      Pass reader world name before [run, again] after

/-- Functions stripped one after another. -/
inductive Passes (reader : UnitReader) (world : World) :
    List Text → Text → List Run → Text → Prop where
  | done {text : Text} : Passes reader world [] text [] text
  | pass {name : Text} {names : List Text} {before between after : Text} {runs more : List Run} :
      Pass reader world name before runs between → Passes reader world names between more after →
      Passes reader world (name :: names) before (runs ++ more) after

/-- A text that lost the word `static` a number of times, each time with one blank at most. -/
inductive LosesStatic : Nat → Text → Text → Prop where
  | never {text : Text} : LosesStatic 0 text text
  | again {times : Nat} {before front blank rest : Text} :
      LosesStatic times before (front ++ "static".toList ++ blank ++ rest) →
      (blank = [] ∨ blank = [' '] ∨ blank = ['\t']) →
      LosesStatic (times + 1) before (front ++ rest)

/-! ### Counting -/

theorem LosesStatic.trans {m n : Nat} {before between after : Text}
    (hfirst : LosesStatic m before between) (hsecond : LosesStatic n between after) :
    LosesStatic (m + n) before after := by
  induction hsecond with
  | never => exact hfirst
  | again _ hblank ih => exact .again (ih hfirst) hblank

theorem LosesStatic.length_lines {times : Nat} {before after : Text}
    (h : LosesStatic times before after) :
    (Text.lines after).length = (Text.lines before).length := by
  induction h with
  | never => rfl
  | again _ hblank ih =>
      rw [← ih, Text.length_lines, Text.length_lines]
      rcases hblank with rfl | rfl | rfl <;> simp

theorem LosesStatic.sublist {times : Nat} {before after : Text} (h : LosesStatic times before after) :
    after.Sublist before := by
  induction h with
  | never => exact List.Sublist.refl _
  | @again times before front blank rest _ _ ih =>
      refine List.Sublist.trans ?_ ih
      rw [List.append_assoc, List.append_assoc]
      exact List.Sublist.append_left ((List.sublist_append_right blank rest).trans
        (List.sublist_append_right _ _)) front

theorem Deletes.losesStatic {unit : CompilationUnit} {name : Text} {isDefinition : Bool}
    {before after : Text} (h : Deletes unit name isDefinition before after) :
    LosesStatic 1 before after := by
  obtain ⟨_, _, _, _, _, token, _, _, _, _, hspelling, front, blank, rest, _, _, hblank, rfl, rfl⟩ :=
    h.keyword
  rw [hspelling]
  exact .again .never hblank

theorem losesStatic_of_or {unit : CompilationUnit} {name : Text} {isDefinition : Bool}
    {before after : Text} (h : before = after ∨ Deletes unit name isDefinition before after) :
    ∃ times ≤ 1, LosesStatic times before after := by
  rcases h with rfl | h
  · exact ⟨0, Nat.zero_le 1, .never⟩
  · exact ⟨1, Nat.le_refl 1, h.losesStatic⟩

section Counts

variable {reader : UnitReader} {world : World} {before after : Text} {runs : List Run}

theorem Pass.losesStatic {name : Text} (h : Pass reader world name before runs after) :
    ∃ times ≤ 2, LosesStatic times before after := by
  cases h with
  | once _ hdefinition =>
      obtain ⟨times, hle, hloses⟩ := losesStatic_of_or hdefinition
      exact ⟨times, Nat.le_succ_of_le hle, hloses⟩
  | twice _ hdeclaration _ hdefinition =>
      obtain ⟨times, hle, hloses⟩ := losesStatic_of_or hdefinition
      exact ⟨1 + times, by omega, hdeclaration.losesStatic.trans hloses⟩

theorem Passes.losesStatic {names : List Text} (h : Passes reader world names before runs after) :
    ∃ times ≤ 2 * names.length, LosesStatic times before after := by
  induction h with
  | done => exact ⟨0, Nat.zero_le _, .never⟩
  | pass hpass _ ih =>
      obtain ⟨m, hm, hfirst⟩ := hpass.losesStatic
      obtain ⟨n, hn, hrest⟩ := ih
      refine ⟨m + n, ?_, hfirst.trans hrest⟩
      rw [List.length_cons]
      omega

end Counts

/-! ### One text -/

/-- Removing the leading keyword is a deletion from the text that the tokens were taken from. -/
theorem exists_deletes_of_removeLeadingStatic? {unit : CompilationUnit} {function : Function}
    {tokens : List Token} {before : Text} {edited : Source} (hsource : unit.source = .ofText before)
    (hmem : function ∈ unit.functions) (htokens : unit.tokensOf function = .ok tokens)
    (hremove : removeLeadingStatic? unit.source tokens = some edited) :
    ∃ after, edited = .ofText after ∧
      Deletes unit function.name function.isDefinition before after := by
  cases tokens with
  | nil => cases hremove
  | cons token others =>
      rw [removeLeadingStatic?] at hremove
      split at hremove <;> rename_i hkind
      · rw [CompilationUnit.tokensOf] at htokens
        split at htokens <;> rename_i hspan
        · rename_i span
          rw [hsource] at htokens hremove
          obtain ⟨hspelling, front, gap, behind, rest, hbefore, -, -, hfirst, hlast⟩ :=
            Source.standsFirst_of_tokens pattern_of_static (by decide) (by decide) htokens hkind
          have htext : before = front ++ gap ++ "static".toList ++ (behind ++ rest) := by
            rw [hbefore]
            simp
          have hdelete := Source.deleteToken?_ofText (behind ++ rest) (by decide) hfirst hlast
          rw [htext, hdelete] at hremove
          cases hremove
          obtain ⟨blank, hblank, hkinds⟩ := Text.exists_blank (behind ++ rest)
          refine ⟨front ++ gap ++ (behind ++ rest).dropBlank, rfl, hsource, function, hmem, rfl, rfl,
            span, token, others, hspan, hsource ▸ htokens, hkind, hspelling, front ++ gap, blank,
            (behind ++ rest).dropBlank, hfirst, hspelling ▸ hlast, hkinds, ?_, rfl⟩
          rw [htext, hspelling, List.append_assoc _ blank, ← hblank]
        · cases htokens
      · cases hremove

theorem lookup_eq_ok {unit : CompilationUnit} {name : Text} {pair : FunctionPair}
    (hlookup : unit.lookup name = .ok pair) :
    pair.name = name ∧ pair.definition ∈ unit.functions ∧ pair.definition.name = name ∧
      pair.definition.isDefinition = true ∧
      ∀ declaration, pair.declaration = some declaration → declaration ∈ unit.functions ∧
        declaration.name = name ∧ declaration.isDefinition = false := by
  rw [CompilationUnit.lookup] at hlookup
  dsimp only at hlookup
  split at hlookup
  · rename_i definition hdefinition
    cases hlookup
    have hnamed := List.find?_some hdefinition
    simp only [Bool.and_eq_true, decide_eq_true_eq, beq_iff_eq] at hnamed
    refine ⟨rfl, List.mem_of_find?_eq_some hdefinition, hnamed.1, hnamed.2, ?_⟩
    intro declaration hdeclaration
    have hother := List.find?_some hdeclaration
    simp only [Bool.and_eq_true, decide_eq_true_eq, beq_iff_eq] at hother
    exact ⟨List.mem_of_find?_eq_some hdeclaration, hother.1, hother.2⟩
  · cases hlookup

/-! ### One function -/

section Run

open PlainC.Action

variable {reader : UnitReader} {dir : Path} {name : Text} {base world after : World}

theorem exists_of_mainSpan? {files : List Text} {range : Dump.Range} {span : Span}
    (h : Dump.mainSpan? files range = some span) :
    ∃ first last, range.first.place? = some first ∧ range.last.place? = some last ∧
      first.file ∈ files ∧ last.file ∈ files ∧
      span.first = ⟨Dump.word first.line, Dump.word first.col⟩ ∧
      span.last = ⟨Dump.word last.line, Dump.word (last.col + max last.tokenLength 1 - 1)⟩ := by
  rw [Dump.mainSpan?] at h
  obtain ⟨first, hfirst, h⟩ := Option.bind_eq_some_iff.mp h
  obtain ⟨last, hlast, h⟩ := Option.bind_eq_some_iff.mp h
  split at h
  · rename_i hown
    cases h
    simp only [Dump.isOwnFile, Bool.and_eq_true, List.contains_iff_mem] at hown
    exact ⟨first, last, hfirst, hlast, hown.1.2.2, hown.2.2, rfl, rfl⟩
  · cases h

theorem places_of_function? {files : List Text} {node : Dump.Node} {function : Function} {span : Span}
    (h : Dump.function? files node = some function) (hspan : function.span = some span) :
    Places files function.name span node := by
  rw [Dump.function?] at h
  dsimp only at h
  split at h
  · cases h
  · rename_i hkind
    obtain ⟨name, hname, h⟩ := Option.bind_eq_some_iff.mp h
    obtain ⟨hname, -⟩ := Option.filter_eq_some_iff.mp hname
    split at h
    · cases h
      cases hspan
    · obtain ⟨own, hown, h⟩ := Option.bind_eq_some_iff.mp h
      cases h
      cases hspan
      obtain ⟨range, hrange, hmain⟩ := Option.bind_eq_some_iff.mp hown
      obtain ⟨first, last, hends⟩ := exists_of_mainSpan? hmain
      exact ⟨not_not.mp hkind, hname, range, first, last, hrange, hends⟩

theorem ReadBy.source {run : Run} {text : Text} {unit : CompilationUnit}
    (h : ReadBy reader base run text unit) : unit.source = .ofText text :=
  Run.source_of_unit? h.read

theorem exists_readBy_of_yields_parse {path : Path} {text : Text} {unit : CompilationUnit}
    (hbase : base.Continues world) (hread : world.readText path = .ok text)
    (h : (reader.parse path).Yields world unit after) :
    ∃ run, after.runs = world.runs ++ [run] ∧ base.Continues after ∧
      ReadBy reader base run text unit := by
  have hasks : (reader.parse path).AsksOnce world _ _ := UnitReader.asksOnce_parse world hread
  obtain ⟨run, hruns, hinvocation, htree, hunit⟩ := hasks.exists_of_yields h
  have hspares := hasks.spares
  rw [h] at hspares
  have hcontent := World.readText_eq_ok_iff.mp hread
  rw [hbase.home] at hunit hcontent
  rw [hbase.logPlaces_eq] at htree
  obtain ⟨root, hroot, rfl⟩ := Run.exists_of_unit? hunit
  have hfile := UnitReader.file_of_dumpArgs hinvocation
  refine ⟨run, hruns, hbase.trans hspares.toContinues, ?_, ?_, hunit, root, hroot, ?_⟩
  · change run.invocation = ⟨_, reader.dumpArgs run.file⟩
    rw [hinvocation, hfile]
  · change placeOf base.home run.file ∉ base.logPlaces → run.Sees base.home run.file text
    rw [hfile]
    exact htree.read hcontent
  · intro function hfunction span hspan
    obtain ⟨node, hnode, hfound⟩ := List.mem_filterMap.mp hfunction
    exact ⟨node, hnode, places_of_function? hfound hspan⟩

theorem exists_readBy_of_yields_write {text : Text} {unit : CompilationUnit}
    (hbase : base.Continues world)
    (h : (Scratch.write dir copyName text >>= reader.parse).Yields world unit after) :
    ∃ run, after.runs = world.runs ++ [run] ∧ base.Continues after ∧
      ReadBy reader base run text unit := by
  rw [yields_bind_iff] at h
  obtain ⟨path, written, hwrite, hparse⟩ := h
  obtain ⟨hread, hruns, hwritten⟩ := Scratch.readText_of_yields_write hwrite
  rw [← hruns]
  exact exists_readBy_of_yields_parse (hbase.trans hwritten) hread hparse

theorem lookup_of_findAgain {unit : CompilationUnit} {definition : Function}
    (hfind : findAgain unit name = .ok definition) :
    ∃ pair, unit.lookup name = .ok pair ∧ pair.definition = definition := by
  rw [findAgain] at hfind
  split at hfind
  · rename_i pair hlookup
    cases hfind
    exact ⟨pair, hlookup, rfl⟩
  · cases hfind

/-- Behind the declaration, the source is still that of the unit in which the definition stands; if it
was edited, it has been read again. -/
theorem exists_of_yields_stripDeclaration {unit : CompilationUnit} {pair : FunctionPair}
    {stage : Stage} {before : Text} (hbase : base.Continues world)
    (hsource : unit.source = .ofText before) (hlookup : unit.lookup name = .ok pair)
    (h : (stripDeclaration reader dir unit pair).Yields world stage after) :
    stage.source = stage.unit.source ∧ base.Continues after ∧
      (∃ pair', stage.unit.lookup name = .ok pair' ∧ pair'.definition = stage.definition) ∧
      (stage.unit = unit ∧ after.runs = world.runs ∨
        ∃ run between, Deletes unit name false before between ∧
          ReadBy reader base run between stage.unit ∧ after.runs = world.runs ++ [run]) := by
  obtain ⟨hname, -, -, -, hdeclared⟩ := lookup_eq_ok hlookup
  rw [stripDeclaration] at h
  dsimp only at h
  split at h
  · rw [yields_pure_iff] at h
    obtain ⟨rfl, rfl⟩ := h
    exact ⟨rfl, hbase, ⟨pair, hlookup, rfl⟩, .inl ⟨rfl, rfl⟩⟩
  · rename_i declaration hdeclaration
    obtain ⟨hmem, hdeclaredName, hprototype⟩ := hdeclared declaration hdeclaration
    rw [yields_bind_iff] at h
    obtain ⟨tokens, _, hplaced, h⟩ := h
    obtain ⟨htokens, rfl⟩ := yields_placed_iff.mp hplaced
    -- Logging that there are no tokens changes neither text nor runs.
    obtain ⟨start, hstart, hnoted, h⟩ := exists_yields_of_debug h
    have hstarted := hbase.trans hnoted
    split at h
    · rw [yields_pure_iff] at h
      obtain ⟨rfl, rfl⟩ := h
      exact ⟨rfl, hstarted, ⟨pair, hlookup, rfl⟩, .inl ⟨rfl, hstart⟩⟩
    · rename_i source hremove
      obtain ⟨between, rfl, hdeletes⟩ :=
        exists_deletes_of_removeLeadingStatic? hsource hmem htokens hremove
      rw [yields_bind_iff] at h
      obtain ⟨again, rereadWorld, hreread, h⟩ := h
      rw [reread, Source.toText_ofText] at hreread
      obtain ⟨run, hruns, hafter, hreadBy⟩ := exists_readBy_of_yields_write hstarted hreread
      rw [yields_bind_iff] at h
      obtain ⟨definition, _, hlift, h⟩ := h
      obtain ⟨hfind, rfl⟩ := yields_lift_iff.mp hlift
      obtain ⟨rfl, rfl⟩ := yields_pure_iff.mp h
      rw [hname] at hfind
      rw [hdeclaredName, hprototype] at hdeletes
      refine ⟨hreadBy.source.symm, hafter, lookup_of_findAgain hfind,
        .inr ⟨run, between, hdeletes, hreadBy, ?_⟩⟩
      rw [hruns, hstart]

/-- The definition loses its keyword from the source of the unit in which it stands, or nothing. -/
theorem eq_or_deletes_definition {unit : CompilationUnit} {pair : FunctionPair} {tokens : List Token}
    {before : Text} (hsource : unit.source = .ofText before) (hlookup : unit.lookup name = .ok pair)
    (htokens : unit.tokensOf pair.definition = .ok tokens) :
    before = ((removeLeadingStatic? unit.source tokens).getD unit.source).toText ∨
      Deletes unit name true before
        ((removeLeadingStatic? unit.source tokens).getD unit.source).toText := by
  obtain ⟨-, hmem, hdefinedName, hdefined, -⟩ := lookup_eq_ok hlookup
  cases hremove : removeLeadingStatic? unit.source tokens with
  | none =>
      left
      rw [Option.getD_none, hsource, Source.toText_ofText]
  | some edited =>
      right
      obtain ⟨between, rfl, hdeletes⟩ :=
        exists_deletes_of_removeLeadingStatic? hsource hmem htokens hremove
      rw [hdefinedName, hdefined] at hdeletes
      rw [Option.getD_some, Source.toText_ofText]
      exact hdeletes

theorem exists_pass_of_yields_stripIn {text out : Text} (hbase : base.Continues world)
    (h : (stripIn reader name text dir).Yields world out after) :
    ∃ runs, after.runs = world.runs ++ runs ∧ base.Continues after ∧
      Pass reader base name text runs out := by
  rw [stripIn, ← bind_assoc, yields_bind_iff] at h
  obtain ⟨unit, parsed, hparse, h⟩ := h
  obtain ⟨run, hruns, hparsed, hreadBy⟩ := exists_readBy_of_yields_write hbase hparse
  rw [yields_bind_iff] at h
  obtain ⟨pair, _, hlift, h⟩ := h
  obtain ⟨hlookup, rfl⟩ := yields_lift_iff.mp hlift
  rw [yields_bind_iff] at h
  obtain ⟨stage, declared, hstage, h⟩ := h
  obtain ⟨hsame, hafter, ⟨pair', hlookup', hdefinition⟩, hcases⟩ :=
    exists_of_yields_stripDeclaration hparsed hreadBy.source hlookup hstage
  rw [yields_bind_iff] at h
  obtain ⟨tokens, _, hplaced, h⟩ := h
  obtain ⟨htokens, rfl⟩ := yields_placed_iff.mp hplaced
  obtain ⟨rfl, rfl⟩ := yields_pure_iff.mp h
  rw [← hdefinition] at htokens
  rw [hsame]
  rcases hcases with ⟨hunit, hruns'⟩ | ⟨again, between, hdeletes, hreadBy', hruns'⟩
  · rw [← hunit] at hreadBy
    have hdone := eq_or_deletes_definition hreadBy.source hlookup' htokens
    exact ⟨[run], by rw [hruns', hruns], hafter, .once hreadBy hdone⟩
  · have hdone := eq_or_deletes_definition hreadBy'.source hlookup' htokens
    refine ⟨[run, again], ?_, hafter, .twice hreadBy hdeletes hreadBy' hdone⟩
    rw [hruns', hruns, List.append_assoc]
    rfl

theorem exists_pass_of_yields_stripOne {label : Path} {text out : Text}
    (hbase : base.Continues world) (h : (stripOne reader label name text).Yields world out after) :
    ∃ runs, after.runs = world.runs ++ runs ∧ base.Continues after ∧
      Pass reader base name text runs out := by
  rw [stripOne, yields_bind_iff] at h
  obtain ⟨stripped, left, hrun, h⟩ := h
  obtain ⟨dir, start, finish, hopens, hstrip, hcloses⟩ := Scratch.exists_of_yields_run hrun
  rw [yields_adapt_iff] at hstrip
  obtain ⟨runs, hruns, hfinish, hpass⟩ :=
    exists_pass_of_yields_stripIn (hbase.trans hopens.toContinues) hstrip
  rw [yields_bind_iff] at h
  obtain ⟨_, logged, hlog, h⟩ := h
  obtain rfl := yields_log_iff.mp hlog
  obtain ⟨rfl, rfl⟩ := yields_pure_iff.mp h
  refine ⟨runs, ?_, (hfinish.trans hcloses.toContinues).trans ⟨rfl, rfl⟩, hpass⟩
  rw [World.runs_addRecord, hcloses.runs, hruns, hopens.runs]

theorem exists_passes_of_yields_foldlM {label : Path} {names : List Text} {text out : Text}
    (hbase : base.Continues world)
    (h : (names.foldlM (fun text name => stripOne reader label name text) text).Yields world out
      after) :
    ∃ runs, after.runs = world.runs ++ runs ∧ Passes reader base names text runs out := by
  induction names generalizing text world with
  | nil =>
      rw [List.foldlM_nil, yields_pure_iff] at h
      obtain ⟨rfl, rfl⟩ := h
      exact ⟨[], by simp, .done⟩
  | cons name names ih =>
      rw [List.foldlM_cons, yields_bind_iff] at h
      obtain ⟨between, left, hone, hmore⟩ := h
      obtain ⟨runs, hruns, hleft, hpass⟩ := exists_pass_of_yields_stripOne hbase hone
      obtain ⟨more, hmoreRuns, hpasses⟩ := ih hleft hmore
      refine ⟨runs ++ more, ?_, .pass hpass hpasses⟩
      rw [hmoreRuns, hruns, List.append_assoc]

/-- Stripping can only delete `static`: a text that is stripped of some functions loses the word twice
at most for each of them, by passes of which each deletes what the last dump pointed at in the text that
the compiler saw, and keeps all else in its order and the number of its lines. -/
theorem stripping_only_deletes_static (reader : UnitReader) (world after : World) (out : Text) :
    (∀ names path, (stripAll reader names path).run world = (.ok out, after) →
      ∃ text runs, world.readText path = .ok text ∧ after.runs = world.runs ++ runs ∧
        Passes (reader.lookingBeside path) world names text runs out ∧
        (∃ times ≤ 2 * names.length, LosesStatic times text out) ∧ out.Sublist text ∧
        (Text.lines out).length = (Text.lines text).length) ∧
    ∀ name text, (stripText reader name text).run world = (.ok out, after) →
      ∃ runs, after.runs = world.runs ++ runs ∧ Passes reader world [name] text runs out ∧
        (∃ times ≤ 2, LosesStatic times text out) ∧ out.Sublist text ∧
        (Text.lines out).length = (Text.lines text).length := by
  constructor
  · intro names path hrun
    have h : (stripAll reader names path).Yields world out after := hrun
    rw [stripAll, yields_bind_iff] at h
    obtain ⟨text, _, hread, h⟩ := h
    obtain ⟨htext, rfl⟩ := yields_readText_iff.mp hread
    obtain ⟨runs, hruns, hpasses⟩ := exists_passes_of_yields_foldlM (.refl world) h
    obtain ⟨times, hle, hloses⟩ := hpasses.losesStatic
    exact ⟨text, runs, htext, hruns, hpasses, ⟨times, hle, hloses⟩, hloses.sublist,
      hloses.length_lines⟩
  · intro name text hrun
    obtain ⟨runs, hruns, -, hpass⟩ := exists_pass_of_yields_stripOne (.refl world) hrun
    obtain ⟨times, hle, hloses⟩ := hpass.losesStatic
    refine ⟨runs, hruns, ?_, ⟨times, hle, hloses⟩, hloses.sublist, hloses.length_lines⟩
    simpa using Passes.pass hpass .done

/-- A dump that declares a function on the first line of a file and defines it on the second. -/
def prototypeDump : Text :=
  ["\x7b\"kind\":\"TranslationUnitDecl\",", "\"inner\":[",
    "\x7b\"kind\":\"FunctionDecl\",", "\"name\":\"f\",", "\"range\":\x7b\"begin\":",
    "\x7b\"offset\":0,\"file\":", "\"/t/c-normalizer-strip-0/unit.c\",",
    "\"line\":1,\"col\":1,\"tokLen\":6\x7d,", "\"end\":\x7b\"offset\":17,\"col\":18,",
    "\"tokLen\":1\x7d\x7d\x7d,", "\x7b\"kind\":\"FunctionDecl\",", "\"name\":\"f\",",
    "\"inner\":[\x7b\"kind\":\"CompoundStmt\"\x7d],", "\"range\":\x7b\"begin\":\x7b\"offset\":20,",
    "\"line\":2,\"col\":1,\"tokLen\":6\x7d,", "\"end\":\x7b\"offset\":39,\"col\":20,",
    "\"tokLen\":1\x7d\x7d\x7d]\x7d"].flatMap String.toList

def prototypeText : Text := "static int f(void);\nstatic int f(void) \x7b\x7d\n".toList

/-- A world with one file, in which the compiler prints the same dump for whatever it is asked. -/
def prototypeWorld : World where
  tree := ⟨[(["t".toList], .directory), (["f.c".toList], .file (Text.toBytes prototypeText))]⟩
  home := []
  tempDir := "/t".toList
  ending := Text.ofNat
  clock := []
  launcher := fun _ _ _ => .ok ⟨Text.toBytes prototypeDump, [], .code 0⟩
  runs := []
  records := []
  logFile := none

/-- A dump of a file that declares a function and defines it on the same line, where `cut` characters
were cut from the declaration. -/
def joinedDump (cut : Nat) : Text :=
  ["\x7b\"kind\":\"TranslationUnitDecl\",", "\"inner\":[",
      "\x7b\"kind\":\"FunctionDecl\",", "\"name\":\"f\",", "\"range\":\x7b\"begin\":",
      "\x7b\"offset\":0,\"file\":", "\"/t/c-normalizer-strip-0/unit.c\",",
      "\"line\":1,\"col\":1,\"tokLen\":6\x7d,", "\"end\":\x7b\"offset\":"].flatMap String.toList
    ++ Text.ofNat (17 - cut) ++ ",\"col\":".toList ++ Text.ofNat (18 - cut)
    ++ [",\"tokLen\":1\x7d\x7d\x7d,", "\x7b\"kind\":\"FunctionDecl\",", "\"name\":\"f\",",
      "\"inner\":[\x7b\"kind\":\"CompoundStmt\"\x7d],", "\"range\":\x7b\"begin\":",
      "\x7b\"offset\":"].flatMap String.toList
    ++ Text.ofNat (20 - cut) ++ ",\"col\":".toList ++ Text.ofNat (21 - cut)
    ++ ",\"tokLen\":6\x7d,\"end\":\x7b\"offset\":".toList
    ++ Text.ofNat (40 - cut) ++ ",\"col\":".toList ++ Text.ofNat (41 - cut)
    ++ ",\"tokLen\":1\x7d\x7d\x7d]\x7d".toList

def joinedText : Text := "static int f(void); static int f(void) \x7b\x7d\n".toList

def copyPlace : Location := ["t".toList, "c-normalizer-strip-0".toList, "unit.c".toList]

/-- A world in which the compiler prints where things are in the file that it sees. -/
def joinedWorld : World :=
  { prototypeWorld with
    tree := ⟨[(["t".toList], .directory), (["f.c".toList], .file (Text.toBytes joinedText))]⟩
    launcher := fun _ tree _ =>
      match tree.get? copyPlace with
      | some (.file content) =>
        .ok ⟨Text.toBytes (joinedDump (joinedText.length - content.length)), [], .code 0⟩
      | _ => .error .notFound }

/-- The definition is found where the second dump has it, seven columns before the place that the first
dump gave for it. -/
theorem stripping_only_deletes_static_twice :
    ∃ after runs,
      (stripAll (.ofTools .standard) ["f".toList] "f.c".toList).run joinedWorld =
        (.ok "int f(void); int f(void) \x7b\x7d\n".toList, after) ∧
      after.runs = runs ∧
      runs.map (·.tree.get? copyPlace) =
        [some (.file (Text.toBytes joinedText)),
          some (.file (Text.toBytes "int f(void); static int f(void) \x7b\x7d\n".toList))] ∧
      Passes (.ofTools .standard) joinedWorld ["f".toList] joinedText runs
        "int f(void); int f(void) \x7b\x7d\n".toList ∧
      ∃ times ≤ 2, LosesStatic times joinedText "int f(void); int f(void) \x7b\x7d\n".toList := by
  have hfacts : ((stripAll (.ofTools .standard) ["f".toList] "f.c".toList).run joinedWorld).1 =
        .ok "int f(void); int f(void) \x7b\x7d\n".toList ∧
      ((stripAll (.ofTools .standard) ["f".toList] "f.c".toList).run joinedWorld).2.runs.map
          (·.tree.get? copyPlace) =
        [some (.file (Text.toBytes joinedText)),
          some (.file (Text.toBytes "int f(void); static int f(void) \x7b\x7d\n".toList))] := by
    decide +kernel
  obtain ⟨after, hrun⟩ := exists_yields_of_fst hfacts.1
  obtain ⟨text, runs, hread, hruns, hpasses, hloses, -⟩ :=
    (stripping_only_deletes_static _ _ after _).1 _ _ hrun
  have htext : joinedWorld.readText "f.c".toList = .ok joinedText := by decide +kernel
  obtain rfl : joinedText = text := Except.ok.inj (htext.symm.trans hread)
  obtain rfl : after.runs = runs := hruns
  rw [hrun] at hfacts
  exact ⟨after, after.runs, hrun, rfl, hfacts.2, hpasses, hloses⟩

end Run

end Stripping

end PlainC
