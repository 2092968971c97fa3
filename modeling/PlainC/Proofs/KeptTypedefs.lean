import PlainC.CompilationUnit
import PlainC.Proofs.TagBodies

/-!
# Typedefs that are kept

An alias can be unfolded if some typedef of that name can be, and unfolding goes by name: it edits every
declaration of the name, also one that could not be unfolded by itself. So a declaration stays as it is
just when none of the names it declares is unfolded, and a tag body that has to stay whole does so just
when no owner of it is declared again elsewhere.
-/

namespace PlainC

namespace Aliases

theorem contains_insert (aliases : Aliases) (name canonical other : Text) :
    (aliases.insert name canonical).contains other ↔ aliases.contains other ∨ name = other := by
  rw [insert]
  split
  · rename_i hthere
    constructor
    · exact .inl
    · rintro (hother | rfl)
      · exact hother
      · exact hthere
  · rw [contains_iff_mem, contains_iff_mem, List.map_append, List.mem_append, List.map_singleton,
      List.mem_singleton, eq_comm (b := name)]

theorem contains_foldl_insert (entries : List (Text × Text)) (aliases : Aliases) (name : Text) :
    (entries.foldl (fun aliases (name, canonical) => aliases.insert name canonical)
      aliases).contains name ↔ aliases.contains name ∨ name ∈ entries.map Prod.fst := by
  induction entries generalizing aliases with
  | nil => simp
  | cons entry entries ih =>
      rw [List.foldl_cons, ih, contains_insert, List.map_cons, List.mem_cons, or_assoc,
        eq_comm (b := name)]

theorem contains_ofList (entries : List (Text × Text)) (name : Text) :
    (ofList entries).contains name ↔ name ∈ entries.map Prod.fst := by
  rw [ofList, contains_foldl_insert]
  simp [contains, get?, empty]

end Aliases

namespace CompilationUnit

/-- A typedef that can be unfolded by itself. -/
def Unfoldable (unit : CompilationUnit) (typedef : Typedef) : Prop :=
  typedef.isSubstitutable ∧ ∀ tag ∈ typedef.body, ¬unit.isPinned tag

theorem contains_aliases_iff (unit : CompilationUnit) (name : Text) :
    unit.aliases.contains name ↔ ∃ typedef ∈ unit.typedefs, unit.Unfoldable typedef ∧
      typedef.name = name := by
  have hfilter : ∀ typedef : Typedef, (typedef.isSubstitutable && !typedef.body.any unit.isPinned) ↔
      unit.Unfoldable typedef := by
    intro typedef
    rw [Unfoldable]
    cases typedef.body with
    | none => simp
    | some tag => simp
  rw [aliases, Aliases.contains_ofList, List.map_map, List.mem_map]
  simp only [List.mem_filter, hfilter, Function.comp_apply, and_assoc]

theorem isPinned_iff (unit : CompilationUnit) (tag : Span) :
    unit.isPinned tag ↔ ∃ typedef ∈ unit.typedefs, typedef.body = some tag ∧
      ¬typedef.isSubstitutable := by
  simp [isPinned, List.any_eq_true]

/-- The typedefs whose declarations are edited when the aliases of a unit are unfolded. -/
def unfolded (unit : CompilationUnit) : List Typedef :=
  unit.typedefs.filter fun typedef => unit.aliases.contains typedef.name

theorem mem_unfolded {unit : CompilationUnit} {typedef : Typedef} :
    typedef ∈ unit.unfolded ↔ typedef ∈ unit.typedefs ∧ unit.aliases.contains typedef.name :=
  List.mem_filter

end CompilationUnit

open Unfolding

theorem removeDeclarations_unit (unit : CompilationUnit) :
    removeDeclarations unit.source unit.typedefs unit.aliases =
      detachAll (bodies unit.unfolded) ⟨blankPlain unit.source unit.unfolded, []⟩ := rfl

/-! ### Declarations that are kept -/

section Kept

variable {unit : CompilationUnit} {text : Text} {progress : Progress}

/-- The tag body of each typedef of a unit is a span inside that typedef. -/
def BodiesInside (unit : CompilationUnit) : Prop :=
  ∀ typedef ∈ unit.typedefs, ∀ tag ∈ typedef.body,
    typedef.span.contains tag ∧ tag.first.before tag.last

/-- Only the lines of unfolded typedefs are edited. -/
theorem trims_removeDeclarations (hsource : unit.source = .ofText text) (hinside : BodiesInside unit)
    (hremove : removeDeclarations unit.source unit.typedefs unit.aliases = .ok progress) :
    Source.Trims (fun n => ∃ typedef ∈ unit.unfolded, typedef.span.Covers n) unit.source
      progress.source := by
  rw [hsource] at hremove ⊢
  refine (trims_of_removeDeclarations ?_ hremove).mono ?_
  · intro typedef htypedef tag htag
    obtain ⟨hcontains, hordered⟩ := hinside typedef htypedef tag htag
    rw [Position.before_iff] at hordered
    exact ⟨hcontains, by omega⟩
  · rintro n ⟨typedef, htypedef, hcontains, hcovers⟩
    exact ⟨typedef, CompilationUnit.mem_unfolded.mpr ⟨htypedef, hcontains⟩, hcovers⟩

theorem line_eq_nil_of_removeDeclarations (hsource : unit.source = .ofText text)
    (hremove : removeDeclarations unit.source unit.typedefs unit.aliases = .ok progress)
    {typedef : Typedef} (htypedef : typedef ∈ unit.unfolded) (hplain : typedef.body = none) {n : Nat}
    (hcovers : typedef.span.Covers n) {line : Text} (hline : progress.source.line? n = some line) :
    line = [] := by
  rw [removeDeclarations_unit] at hremove
  obtain ⟨text', htext'⟩ := (trims_blankPlain unit.source unit.unfolded).exists_ofText hsource
  have htrims : Source.Trims (fun _ => True) (blankPlain unit.source unit.unfolded) progress.source :=
    trims_detachAll htext' (fun _ _ _ _ => trivial) hremove
  exact htrims.line?_eq_nil
    (fun old hold => line_eq_nil_of_blankPlain htypedef hplain hcovers hold) hline

end Kept

/-- If only declarators of its own declaration share a line with a typedef, its lines stay as they are
so long as the name of none of these is unfolded. Where one is that owns no tag body, all its lines are
blanked, whether or not the others of the declaration can be unfolded. -/
theorem declaration_kept_unless_unfolded (unit : CompilationUnit) (text : Text)
    (hsource : unit.source = .ofText text) (hinside : BodiesInside unit) (typedef : Typedef)
    (hcover : ∀ other ∈ unit.typedefs, ∀ n, typedef.span.Covers n → other.span.Covers n →
      other.span.first = typedef.span.first) (progress : Progress)
    (hremove : removeDeclarations unit.source unit.typedefs unit.aliases = .ok progress) :
    ((∀ other ∈ unit.typedefs, other.span.first = typedef.span.first →
        ¬unit.aliases.contains other.name) →
      ∀ n, typedef.span.Covers n → progress.source.line? n = unit.source.line? n) ∧
    ∀ other ∈ unit.typedefs, other.span.first = typedef.span.first →
      unit.aliases.contains other.name → other.body = none →
        ∀ n, other.span.Covers n → ∀ line, progress.source.line? n = some line → line = [] := by
  constructor
  · intro hnone n hcovers
    apply (trims_removeDeclarations hsource hinside hremove).kept n
    rintro ⟨other, hother, hcovers'⟩
    obtain ⟨hmem, hcontains⟩ := CompilationUnit.mem_unfolded.mp hother
    exact hnone other hmem (hcover other hmem n hcovers hcovers') hcontains
  · intro other hmem _ hcontains hplain n hcovers line hline
    exact line_eq_nil_of_removeDeclarations hsource hremove
      (CompilationUnit.mem_unfolded.mpr ⟨hmem, hcontains⟩) hplain hcovers hline

/-- An array on the first line and a plain type on the second. -/
def separateUnit : CompilationUnit where
  path := "u.c".toList
  source := .ofText "typedef int B[3];\ntypedef int A;\n".toList
  functions := []
  typedefs := [⟨"B".toList, "int[3]".toList, ⟨⟨1, 1⟩, ⟨1, 16⟩⟩, none⟩,
    ⟨"A".toList, "int".toList, ⟨⟨2, 1⟩, ⟨2, 13⟩⟩, none⟩]

theorem declaration_kept_unless_unfolded_on_separate_lines :
    removeDeclarations separateUnit.source separateUnit.typedefs separateUnit.aliases =
        .ok ⟨.ofText "typedef int B[3];\n\n".toList, []⟩ ∧
      (Source.ofText "typedef int B[3];\n\n".toList).line? 1 = separateUnit.source.line? 1 := by
  have hremove : removeDeclarations separateUnit.source separateUnit.typedefs separateUnit.aliases =
      .ok ⟨.ofText "typedef int B[3];\n\n".toList, []⟩ := by decide +kernel
  have hinside : BodiesInside separateUnit := by
    intro typedef htypedef tag htag
    rcases List.mem_pair.mp htypedef with rfl | rfl <;> cases htag
  have hcover : ∀ other ∈ separateUnit.typedefs, ∀ n, (⟨⟨1, 1⟩, ⟨1, 16⟩⟩ : Span).Covers n →
      other.span.Covers n → other.span.first = ⟨1, 1⟩ := by
    intro other hother n hn hn'
    rcases List.mem_pair.mp hother with rfl | rfl
    · rfl
    · exact absurd (Nat.le_trans hn'.1 hn.2) (by decide)
  exact ⟨hremove, (declaration_kept_unless_unfolded separateUnit _ rfl hinside
    ⟨"B".toList, "int[3]".toList, ⟨⟨1, 1⟩, ⟨1, 16⟩⟩, none⟩ hcover _ hremove).1 (by decide +kernel) 1
    (by decide)⟩

/-- A plain type and an array in one declaration. -/
def sharedUnit : CompilationUnit where
  path := "u.c".toList
  source := .ofText "typedef int A, B[3];\n".toList
  functions := []
  typedefs := [⟨"A".toList, "int".toList, ⟨⟨1, 1⟩, ⟨1, 13⟩⟩, none⟩,
    ⟨"B".toList, "int[3]".toList, ⟨⟨1, 1⟩, ⟨1, 19⟩⟩, none⟩]

/-- The declaration of an array goes with that of the plain type beside it, though the array cannot be
unfolded. -/
theorem declaration_blanked_with_its_neighbour :
    (∃ typedef ∈ sharedUnit.typedefs, ¬typedef.isSubstitutable ∧ typedef.span.Covers 1) ∧
      (∀ other ∈ sharedUnit.typedefs, other.span.first = ⟨1, 1⟩) ∧
      removeDeclarations sharedUnit.source sharedUnit.typedefs sharedUnit.aliases =
        .ok ⟨.ofText "\n".toList, []⟩ ∧
      (Source.ofText "\n".toList).line? 1 ≠ sharedUnit.source.line? 1 := by
  refine ⟨⟨⟨"B".toList, "int[3]".toList, ⟨⟨1, 1⟩, ⟨1, 19⟩⟩, none⟩, ?_, ?_, ?_⟩, ?_, ?_, ?_⟩
  · decide
  · decide +kernel
  · decide
  · decide
  · decide +kernel
  · decide +kernel

/-! ### Tag bodies that stay whole -/

/-- A typedef whose name is declared again by a typedef that can be unfolded and that does not own the
tag body. -/
def Redeclared (unit : CompilationUnit) (tag : Span) (typedef : Typedef) : Prop :=
  ∃ again ∈ unit.typedefs, again.name = typedef.name ∧ again.body ≠ some tag ∧ unit.Unfoldable again

theorem contains_aliases_iff_redeclared {unit : CompilationUnit} {tag : Span}
    (hpinned : unit.isPinned tag) (typedef : Typedef) :
    unit.aliases.contains typedef.name ↔ Redeclared unit tag typedef := by
  rw [CompilationUnit.contains_aliases_iff]
  constructor
  · rintro ⟨again, hagain, hunfoldable, hname⟩
    exact ⟨again, hagain, hname, fun hbody => hunfoldable.2 tag hbody hpinned, hunfoldable⟩
  · rintro ⟨again, hagain, hname, -, hunfoldable⟩
    exact ⟨again, hagain, hunfoldable, hname⟩

/-- A tag body that also belongs to a typedef which cannot be unfolded is detached just when an owner
of it is declared again by one which can, for only then is the name of an owner among the aliases. -/
theorem shared_body_detached_iff_redeclared (unit : CompilationUnit) (tag : Span)
    (hshared : ∃ typedef ∈ unit.typedefs, typedef.body = some tag ∧ ¬typedef.isSubstitutable) :
    (∀ typedef ∈ unit.typedefs, typedef.body = some tag →
      (unit.aliases.contains typedef.name ↔ Redeclared unit tag typedef)) ∧
    removeDeclarations unit.source unit.typedefs unit.aliases =
        detachAll (bodies unit.unfolded) ⟨blankPlain unit.source unit.unfolded, []⟩ ∧
      (tag ∈ (bodies unit.unfolded).map Prod.fst ↔
        ∃ typedef ∈ unit.typedefs, typedef.body = some tag ∧ Redeclared unit tag typedef) := by
  have hpinned : unit.isPinned tag := (unit.isPinned_iff tag).mpr hshared
  refine ⟨fun typedef _ _ => contains_aliases_iff_redeclared hpinned typedef,
    removeDeclarations_unit unit, ?_⟩
  rw [mem_map_fst_bodies]
  constructor
  · rintro ⟨typedef, hmem, hbody⟩
    obtain ⟨htypedef, hcontains⟩ := CompilationUnit.mem_unfolded.mp hmem
    exact ⟨typedef, htypedef, hbody, (contains_aliases_iff_redeclared hpinned typedef).mp hcontains⟩
  · rintro ⟨typedef, htypedef, hbody, hredeclared⟩
    have hcontains := (contains_aliases_iff_redeclared hpinned typedef).mpr hredeclared
    exact ⟨typedef, CompilationUnit.mem_unfolded.mpr ⟨htypedef, hcontains⟩, hbody⟩

/-- A structure and an array of two of them in one declaration. -/
def arrayBesideUnit : CompilationUnit where
  path := "u.c".toList
  source := .ofText "typedef struct P \x7b int x; \x7d P, Ps[2];\n".toList
  functions := []
  typedefs := [⟨"P".toList, "struct P".toList, ⟨⟨1, 1⟩, ⟨1, 29⟩⟩, some ⟨⟨1, 9⟩, ⟨1, 27⟩⟩⟩,
    ⟨"Ps".toList, "struct P[2]".toList, ⟨⟨1, 1⟩, ⟨1, 36⟩⟩, some ⟨⟨1, 9⟩, ⟨1, 27⟩⟩⟩]

theorem shared_body_detached_iff_redeclared_beside_array :
    (∃ typedef ∈ arrayBesideUnit.typedefs, typedef.body = some ⟨⟨1, 9⟩, ⟨1, 27⟩⟩ ∧
      ¬typedef.isSubstitutable) ∧
    ¬(∃ typedef ∈ arrayBesideUnit.typedefs, typedef.body = some ⟨⟨1, 9⟩, ⟨1, 27⟩⟩ ∧
      Redeclared arrayBesideUnit ⟨⟨1, 9⟩, ⟨1, 27⟩⟩ typedef) := by
  have hshared : ∃ typedef ∈ arrayBesideUnit.typedefs, typedef.body = some ⟨⟨1, 9⟩, ⟨1, 27⟩⟩ ∧
      ¬typedef.isSubstitutable := by decide +kernel
  refine ⟨hshared, ?_⟩
  rw [← (shared_body_detached_iff_redeclared arrayBesideUnit ⟨⟨1, 9⟩, ⟨1, 27⟩⟩ hshared).2.2]
  decide +kernel

/-- The same where the structure is also declared on a line of its own. -/
def declaredAgainUnit : CompilationUnit where
  path := "u.c".toList
  source := .ofText "typedef struct P P;\ntypedef struct P \x7b int x; \x7d P, Ps[2];\n".toList
  functions := []
  typedefs := [⟨"P".toList, "struct P".toList, ⟨⟨1, 1⟩, ⟨1, 18⟩⟩, none⟩,
    ⟨"P".toList, "struct P".toList, ⟨⟨2, 1⟩, ⟨2, 29⟩⟩, some ⟨⟨2, 9⟩, ⟨2, 27⟩⟩⟩,
    ⟨"Ps".toList, "struct P[2]".toList, ⟨⟨2, 1⟩, ⟨2, 36⟩⟩, some ⟨⟨2, 9⟩, ⟨2, 27⟩⟩⟩]

/-- The declaration of the shared body is torn apart. -/
theorem shared_body_detached_when_declared_again :
    (∃ typedef ∈ declaredAgainUnit.typedefs, typedef.body = some ⟨⟨2, 9⟩, ⟨2, 27⟩⟩ ∧
      ¬typedef.isSubstitutable) ∧
    (∃ typedef ∈ declaredAgainUnit.typedefs, typedef.body = some ⟨⟨2, 9⟩, ⟨2, 27⟩⟩ ∧
      declaredAgainUnit.aliases.contains typedef.name) ∧
    removeDeclarations declaredAgainUnit.source declaredAgainUnit.typedefs declaredAgainUnit.aliases =
      .ok ⟨.ofText "\nstruct P \x7b int x; \x7d, Ps[2];\n".toList, []⟩ := by
  refine ⟨?_, ?_, ?_⟩
  · decide +kernel
  · decide +kernel
  · decide +kernel

end PlainC
