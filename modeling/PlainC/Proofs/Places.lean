import Mathlib.Data.List.DropRight
import PlainC.Proofs.FileTree
import PlainC.Proofs.Text

/-!
# Where paths lead

Without links, the place that a path leads to can be read off its text: two dots go up, and each other
step that means something goes down. A tree only says whether the way is open. The file name of a path
is then the last name of its place, and its parent leads to the place above.
-/

namespace PlainC

namespace Text

theorem split_append_cons (mark : Char) (text more : Text) :
    split mark (text ++ mark :: more) = split mark text ++ split mark more := by
  induction text with
  | nil => exact split_cons_mark mark more
  | cons c text ih =>
      obtain ⟨piece, others, hsplit⟩ := List.exists_cons_of_ne_nil (split_ne_nil mark text)
      rw [hsplit] at ih
      by_cases hc : c = mark
      · rw [hc, List.cons_append, split_cons_mark, split_cons_mark, ih, hsplit]
        rfl
      · rw [List.cons_append, split_cons_of_ne hc ih, split_cons_of_ne hc hsplit]
        rfl

theorem split_join {mark : Char} {pieces : List Text} (hne : pieces ≠ [])
    (hpieces : ∀ piece ∈ pieces, mark ∉ piece) : split mark (join [mark] pieces) = pieces := by
  induction pieces with
  | nil => exact absurd rfl hne
  | cons piece others ih =>
      have hpiece : mark ∉ piece := hpieces piece List.mem_cons_self
      cases others with
      | nil => exact split_of_not_mem hpiece
      | cons next others =>
          have hrest := ih (by simp) fun other hother => hpieces other (List.mem_cons_of_mem _ hother)
          rw [join, List.append_assoc, List.singleton_append, split_append_mark hpiece, hrest]
          simp

/-- Whether a text begins with the mark shows in its pieces. -/
theorem head?_eq_mark_iff {mark : Char} {text : Text} :
    text.head? = some mark ↔ ∃ next others, split mark text = [] :: next :: others := by
  cases text with
  | nil => simp [split]
  | cons c text =>
      obtain ⟨piece, others, hsplit⟩ := List.exists_cons_of_ne_nil (split_ne_nil mark text)
      rw [List.head?_cons, Option.some.injEq]
      by_cases hc : c = mark
      · rw [hc, split_cons_mark, hsplit]
        simp
      · rw [split_cons_of_ne hc hsplit]
        simp [hc]

end Text

namespace Path

/-- A step that leads down. -/
def IsName (step : Text) : Prop := ¬isIdle step ∧ step ≠ ['.', '.']

theorem trimParts_eq_rdropWhile (parts : List Text) : trimParts parts = parts.rdropWhile isIdle := rfl

/-- A path begins with a slash, with a dot that is a part of its own, or with neither. -/
theorem head_cases (path : Path) :
    (∃ rest, path = '/' :: rest ∧ head path = ['/'] ∧ parts path = Text.split '/' rest) ∨
    (∃ others, path.head? ≠ some '/' ∧ head path = ['.'] ∧
      Text.split '/' path = ['.'] :: others ∧ parts path = [] :: others) ∨
    (path.head? ≠ some '/' ∧ head path = [] ∧ parts path = Text.split '/' path) := by
  rw [parts]
  unfold head
  split
  · rename_i rest
    exact .inl ⟨rest, rfl, rfl, rfl⟩
  · exact .inr (.inl ⟨[], by simp, rfl, rfl, rfl⟩)
  · rename_i rest
    have hdot : '/' ∉ ['.'] := by decide
    refine .inr (.inl ⟨Text.split '/' rest, by simp, rfl, Text.split_append_mark hdot rest, ?_⟩)
    exact Text.split_cons_mark '/' rest
  · rename_i hslash _ _
    refine .inr (.inr ⟨?_, rfl, rfl⟩)
    intro hhead
    obtain ⟨rest, hrest⟩ := List.head?_eq_some_iff.mp hhead
    exact hslash rest hrest

theorem exists_of_fileName? {path : Path} {name : Text} (hname : fileName? path = some name) :
    IsName name ∧ '/' ∉ name ∧ ∃ above, trimParts (parts path) = above ++ [name] := by
  obtain ⟨hlast, hup⟩ := Option.filter_eq_some_iff.mp hname
  obtain ⟨above, habove⟩ := List.getLast?_eq_some_iff.mp hlast
  have hmem : name ∈ parts path := by
    apply (List.rdropWhile_prefix isIdle (parts path)).subset
    rw [← trimParts_eq_rdropWhile, habove]
    simp
  have hidle : ¬isIdle name := by
    have hkept := List.rdropWhile_last_not isIdle (parts path) (by
      rw [← trimParts_eq_rdropWhile, habove]
      simp)
    simpa only [← trimParts_eq_rdropWhile, habove, List.getLast_append_singleton] using hkept
  exact ⟨⟨hidle, by simpa using hup⟩, Text.not_mem_of_mem_split hmem, above, habove⟩

theorem fileName?_of_split {path : Path} {above : List Text} {name : Text} (hname : IsName name)
    (hsplit : Text.split '/' path = above ++ [name]) : fileName? path = some name := by
  have hparts : ∃ front, parts path = front ++ [name] := by
    rcases head_cases path with ⟨rest, rfl, -, hparts⟩ | ⟨others, -, -, hpath, hparts⟩ |
      ⟨-, -, hparts⟩
    · rw [Text.split_cons_mark] at hsplit
      obtain ⟨front, hfront⟩ := List.suffix_of_suffix_length_le (List.suffix_append above [name])
        (hsplit ▸ List.suffix_cons [] (Text.split '/' rest))
        (List.length_pos_iff.mpr (Text.split_ne_nil '/' rest))
      exact ⟨front, hparts.trans hfront.symm⟩
    · cases above with
      | nil =>
          rw [hpath, List.nil_append, List.cons.injEq] at hsplit
          exact absurd (show isIdle name by rw [← hsplit.1]; rfl) hname.1
      | cons first above =>
          rw [hpath, List.cons_append, List.cons.injEq] at hsplit
          exact ⟨[] :: above, by rw [hparts, hsplit.2, List.cons_append]⟩
    · exact ⟨above, hparts.trans hsplit⟩
  obtain ⟨front, hfront⟩ := hparts
  rw [fileName?, hfront, trimParts_eq_rdropWhile, List.rdropWhile_concat_neg _ _ _ hname.1,
    List.getLast?_concat]
  simpa using hname.2

theorem parent?_of_trimParts {path : Path} {above : List Text} {name : Text}
    (h : trimParts (parts path) = above ++ [name]) :
    parent? path = some (head path ++ Text.join ['/'] (trimParts above)) := by
  rw [parent?, h]
  split
  · rename_i hnil
    simp at hnil
  · rw [List.dropLast_concat]

theorem isName_cons {c : Char} (hc : c ≠ '.') (rest : Text) : IsName (c :: rest) := by
  simp [IsName, isIdle, hc]

end Path

namespace FileTree

open Path

/-! ### Following steps -/

/-- Where one step leads from a place. -/
def advance (location : Location) (step : Text) : Location :=
  if isIdle step then location
  else if step = ['.', '.'] then location.dropLast
  else location ++ [step]

def follow (start : Location) (steps : List Text) : Location := steps.foldl advance start

/-- The place that a path leads to from `base`, whatever is there. -/
def placeOf (base : Location) (path : Path) : Location :=
  follow (origin base path) (Text.split '/' path)

theorem advance_of_isIdle {step : Text} (hidle : isIdle step) (location : Location) :
    advance location step = location := if_pos hidle

theorem advance_of_isName {step : Text} (hname : IsName step) (location : Location) :
    advance location step = location ++ [step] := by
  rw [advance, if_neg hname.1, if_neg hname.2]

@[simp]
theorem follow_nil (start : Location) : follow start [] = start := rfl

@[simp]
theorem follow_cons (start : Location) (step : Text) (steps : List Text) :
    follow start (step :: steps) = follow (advance start step) steps := rfl

theorem follow_append (start : Location) (steps more : List Text) :
    follow start (steps ++ more) = follow (follow start steps) more := List.foldl_append

theorem follow_concat {name : Text} (hname : IsName name) (start : Location) (steps : List Text) :
    follow start (steps ++ [name]) = follow start steps ++ [name] := by
  rw [follow_append, follow_cons, follow_nil, advance_of_isName hname]

theorem follow_of_idle {steps : List Text} (hidle : ∀ step ∈ steps, isIdle step) (start : Location) :
    follow start steps = start := by
  induction steps with
  | nil => rfl
  | cons step steps ih =>
      rw [follow_cons, advance_of_isIdle (hidle step List.mem_cons_self)]
      exact ih fun other hother => hidle other (List.mem_cons_of_mem _ hother)

theorem follow_trimParts (start : Location) (steps : List Text) :
    follow start (trimParts steps) = follow start steps := by
  have hidle : ∀ step ∈ steps.rtakeWhile isIdle, isIdle step := fun _ => List.mem_rtakeWhile_imp
  calc follow start (trimParts steps)
      = follow (follow start (steps.rdropWhile isIdle)) (steps.rtakeWhile isIdle) := by
        rw [follow_of_idle hidle, trimParts_eq_rdropWhile]
    _ = follow start steps := by
        rw [← follow_append, List.rdropWhile_append_rtakeWhile]

/-- The head of a path is a step that means nothing. -/
theorem placeOf_eq_follow_parts (base : Location) (path : Path) :
    placeOf base path = follow (origin base path) (parts path) := by
  rcases head_cases path with ⟨rest, rfl, -, hparts⟩ | ⟨others, -, -, hpath, hparts⟩ |
    ⟨-, -, hparts⟩
  · rw [hparts, placeOf, Text.split_cons_mark, follow_cons]
    rfl
  · rw [hparts, placeOf, hpath, follow_cons, follow_cons]
    rfl
  · rw [hparts, placeOf]

theorem placeOf_of_fileName? {path : Path} {name : Text} (hname : fileName? path = some name)
    (base : Location) : ∃ above, placeOf base path = above ++ [name] := by
  obtain ⟨hisName, -, above, habove⟩ := exists_of_fileName? hname
  refine ⟨follow (origin base path) above, ?_⟩
  rw [placeOf_eq_follow_parts, ← follow_trimParts, habove, follow_concat hisName]

/-! ### Joined and derived paths -/

theorem origin_of_relative {path : Path} (hrelative : path.head? ≠ some '/') (base : Location) :
    origin base path = base := by
  rw [origin, isAbsolute, if_neg (by simpa using hrelative)]

/-- A name behind a directory is the last step, and those before it lead to the directory. -/
theorem exists_split_join {name : Text} (hslash : '/' ∉ name) (base : Location) (dir : Path) :
    ∃ above, Text.split '/' (Path.join dir name) = above ++ [name] ∧
      follow (origin base (Path.join dir name)) above = placeOf base dir := by
  have hsplit : Text.split '/' name = [name] := Text.split_of_not_mem hslash
  have hrelative : name.head? ≠ some '/' := fun hhead => hslash (List.mem_of_head? hhead)
  rw [Path.join, if_neg (by simpa [isAbsolute] using hrelative), placeOf]
  cases dir with
  | nil =>
      refine ⟨[], hsplit, ?_⟩
      exact origin_of_relative hrelative base
  | cons c dir =>
      have horigin : ∀ more, origin base (c :: dir ++ more) = origin base (c :: dir) := by
        intro more
        rw [origin, origin, isAbsolute, isAbsolute, List.cons_append, List.head?_cons,
          List.head?_cons]
      split
      · rename_i hend
        obtain ⟨front, hfront⟩ := List.getLast?_eq_some_iff.mp (show (c :: dir).getLast? = some '/' by
          simpa using hend)
        refine ⟨Text.split '/' front, ?_, ?_⟩
        · rw [hfront, List.append_assoc, List.singleton_append, Text.split_append_cons, hsplit]
        · rw [horigin, hfront, Text.split_append_cons, follow_append]
          rfl
      · refine ⟨Text.split '/' (c :: dir), ?_, ?_⟩
        · rw [Text.split_append_cons, hsplit]
        · rw [horigin]

theorem placeOf_join {name : Text} (hname : IsName name) (hslash : '/' ∉ name) (base : Location)
    (dir : Path) : placeOf base (Path.join dir name) = placeOf base dir ++ [name] := by
  obtain ⟨above, hsplit, habove⟩ := exists_split_join hslash base dir
  rw [placeOf, hsplit, follow_concat hname, habove]

theorem fileName?_join {name : Text} (hname : IsName name) (hslash : '/' ∉ name) (dir : Path) :
    fileName? (Path.join dir name) = some name := by
  obtain ⟨above, hsplit, -⟩ := exists_split_join hslash [] dir
  exact fileName?_of_split hname hsplit

/-- The first parts of a path lead where they lead as a path of their own. -/
theorem placeOf_head_append_join {path : Path} {steps : List Text} (hparts : steps <+: parts path)
    (base : Location) :
    placeOf base (head path ++ Text.join ['/'] steps) = follow (origin base path) steps := by
  have hslash : ∀ step ∈ steps, '/' ∉ step := fun step hstep =>
    Text.not_mem_of_mem_split (hparts.subset hstep)
  have hsplit : steps ≠ [] → Text.split '/' (Text.join ['/'] steps) = steps := fun hne =>
    Text.split_join hne hslash
  obtain ⟨more, hmore⟩ := hparts
  rcases head_cases path with ⟨rest, rfl, hhead, -⟩ | ⟨others, hrelative, hhead, -, hpath⟩ |
    ⟨hrelative, hhead, hpath⟩
  · rw [hhead, placeOf, List.singleton_append, Text.split_cons_mark, follow_cons]
    cases steps with
    | nil => rfl
    | cons step steps =>
        rw [hsplit (List.cons_ne_nil step steps)]
        rfl
  · rw [hhead, List.singleton_append, origin_of_relative hrelative, placeOf,
      origin_of_relative (by simp)]
    cases steps with
    | nil => rfl
    | cons step steps =>
        rw [hpath, List.cons_append, List.cons.injEq] at hmore
        rw [Text.split_cons_of_ne (by decide) (hsplit (List.cons_ne_nil step steps)), hmore.1]
        rfl
  · rw [hhead, List.nil_append, origin_of_relative hrelative, placeOf]
    cases steps with
    | nil => rfl
    | cons step steps =>
        -- A slash at the start would be one of the path too.
        have hjoin : (Text.join ['/'] (step :: steps)).head? ≠ some '/' := by
          intro habsolute
          obtain ⟨next, others, hcons⟩ := Text.head?_eq_mark_iff.mp habsolute
          rw [hsplit (List.cons_ne_nil step steps)] at hcons
          rw [hpath, hcons] at hmore
          exact hrelative (Text.head?_eq_mark_iff.mpr ⟨next, others ++ more, hmore.symm⟩)
        rw [origin_of_relative hjoin, hsplit (List.cons_ne_nil step steps)]

/-- The parent of a path leads to the place above that of the path. -/
theorem exists_parent?_of_fileName? {path : Path} {name : Text} (hname : fileName? path = some name)
    (base : Location) :
    ∃ parent, parent? path = some parent ∧ placeOf base path = placeOf base parent ++ [name] := by
  obtain ⟨hisName, -, above, habove⟩ := exists_of_fileName? hname
  refine ⟨_, parent?_of_trimParts habove, ?_⟩
  rw [placeOf_eq_follow_parts, ← follow_trimParts, habove, follow_concat hisName,
    List.append_left_inj, ← follow_trimParts]
  symm
  apply placeOf_head_append_join
  have hbody : above ++ [name] <+: parts path := by
    rw [← habove]
    exact List.rdropWhile_prefix isIdle (parts path)
  apply (List.rdropWhile_prefix isIdle above).trans
  exact (List.prefix_append above [name]).trans hbody

/-- The directory that files derived from a path go to. -/
def outputPlace (base : Location) (outputDir : Option Path) (input : Path) : Location :=
  placeOf base ((outputDir.or (parent? input)).getD [])

section Derived

variable {mark name : Text} {input : Path}

theorem placeOf_derived (hmark : ∀ rest, IsName (mark ++ rest)) (hslash : '/' ∉ mark)
    (hname : fileName? input = some name) (base : Location) (outputDir : Option Path) :
    placeOf base (derived mark input outputDir) =
      outputPlace base outputDir input ++ [mark ++ name] := by
  obtain ⟨-, hplain, -⟩ := exists_of_fileName? hname
  rw [derived, hname, outputPlace]
  exact placeOf_join (hmark name) (by simp [hslash, hplain]) base _

theorem fileName?_derived (hmark : ∀ rest, IsName (mark ++ rest)) (hslash : '/' ∉ mark)
    (hname : fileName? input = some name) (outputDir : Option Path) :
    fileName? (derived mark input outputDir) = some (mark ++ name) := by
  obtain ⟨-, hplain, -⟩ := exists_of_fileName? hname
  rw [derived, hname]
  exact fileName?_join (hmark name) (by simp [hslash, hplain]) _

/-- What is derived from a derived file goes to the same directory. -/
theorem outputPlace_derived (hmark : ∀ rest, IsName (mark ++ rest)) (hslash : '/' ∉ mark)
    (hname : fileName? input = some name) (base : Location) (outputDir : Option Path) :
    outputPlace base outputDir (derived mark input outputDir) =
      outputPlace base outputDir input := by
  cases outputDir with
  | some dir => rfl
  | none =>
      obtain ⟨parent, hparent, hplace⟩ :=
        exists_parent?_of_fileName? (fileName?_derived hmark hslash hname none) base
      rw [placeOf_derived hmark hslash hname, List.append_left_inj] at hplace
      rw [outputPlace, hparent]
      exact hplace.symm

end Derived

theorem isName_expanded (rest : Text) : IsName ("expanded_".toList ++ rest) :=
  isName_cons (by decide) _

theorem isName_stripped (rest : Text) : IsName ("stripped_".toList ++ rest) :=
  isName_cons (by decide) _

/-! ### Trees -/

section Trees

variable {tree : FileTree} {base location : Location} {path : Path}

/-- One step of a walk leaves a directory, and goes down only to what is there. -/
theorem walk_cons_eq_ok_iff {start : Location} {step : Text} {steps : List Text} :
    tree.walk start (step :: steps) = .ok location ↔
      tree.isDirectory start ∧
        (IsName step → ¬isTooLong step ∧ (tree.get? (start ++ [step])).isSome) ∧
        tree.walk (advance start step) steps = .ok location := by
  rw [walk, advance]
  by_cases hdir : tree.isDirectory start
  · rw [if_neg (by simp [hdir]), and_iff_right hdir]
    by_cases hidle : isIdle step
    · have hnot : ¬IsName step := fun hname => hname.1 hidle
      simp [hidle, hnot]
    rw [if_neg hidle, if_neg hidle]
    by_cases hup : step = ['.', '.']
    · have hnot : ¬IsName step := fun hname => hname.2 hup
      simp only [if_pos hup, hnot, false_implies, true_and]
    have hname : IsName step := ⟨hidle, hup⟩
    rw [if_neg hup, if_neg hup]
    by_cases hlong : isTooLong step
    · simp [hlong, hname]
    · cases tree.get? (start ++ [step]) <;> simp [hlong, hname]
  · simp [hdir]

theorem eq_follow_of_walk {start : Location} {steps : List Text}
    (hwalk : tree.walk start steps = .ok location) : location = follow start steps := by
  induction steps generalizing start with
  | nil => exact (Except.ok.inj hwalk).symm
  | cons step steps ih =>
      obtain ⟨-, -, hrest⟩ := walk_cons_eq_ok_iff.mp hwalk
      exact ih hrest

theorem eq_split_of_steps {all : List Text} (hsteps : steps path = .ok all) :
    all = Text.split '/' path := by
  rw [steps] at hsteps
  split at hsteps
  · cases hsteps
  split at hsteps
  · cases hsteps
  split at hsteps
  · cases hsteps
  · exact (Except.ok.inj hsteps).symm

theorem resolve_eq_ok_iff :
    tree.resolve base path = .ok location ↔
      (∃ all, steps path = .ok all) ∧
        tree.walk (origin base path) (Text.split '/' path) = .ok location := by
  rw [resolve]
  cases hsteps : steps path with
  | error cause => simp [bind, Except.bind]
  | ok all =>
      rw [eq_split_of_steps hsteps]
      simp [bind, Except.bind]

theorem eq_placeOf_of_resolve (hresolve : tree.resolve base path = .ok location) :
    location = placeOf base path :=
  eq_follow_of_walk (resolve_eq_ok_iff.mp hresolve).2

theorem eq_placeOf_of_target (htarget : tree.target base path = .ok location) :
    location = placeOf base path := by
  obtain ⟨above, name, parent, hsteps, hwalk, -, hidle, hup, -, rfl⟩ := exists_of_target htarget
  rw [placeOf, ← eq_split_of_steps hsteps, follow_concat ⟨hidle, hup⟩, eq_follow_of_walk hwalk]

end Trees

end FileTree

end PlainC
