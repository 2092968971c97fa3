import PlainC.Settings.Discovery
import PlainC.Proofs.DerivedPaths

/-!
# The nearest settings

The parent of a path is a beginning of its text and shorter than the path, however the path is spelled.
So going up from a path comes to an end: at the empty path, or at the root if the path is absolute. The
search for settings looks into each directory on this way once, from the nearest one up.
-/

namespace PlainC

namespace Text

theorem join_isPrefix {separator : Text} {pieces others : List Text} (h : pieces <+: others) :
    join separator pieces <+: join separator others := by
  obtain ⟨more, rfl⟩ := h
  induction pieces with
  | nil => exact List.nil_prefix
  | cons piece pieces ih =>
      cases pieces with
      | cons next pieces => exact (List.prefix_append_right_inj (piece ++ separator)).mpr ih
      | nil =>
          cases more with
          | nil => exact List.prefix_rfl
          | cons next more => exact ⟨separator ++ join separator (next :: more), by simp [join]⟩

end Text

namespace Path

variable {path parent : Path}

/-! ### Parents -/

theorem trimParts_of_parent? (h : parent? path = none) :
    trimParts (parts path) = [] ∧ head path ≠ ['.'] := by
  rcases List.eq_nil_or_concat (trimParts (parts path)) with hbody | ⟨above, name, hbody⟩
  · rw [parent?_of_trimParts_nil hbody] at h
    exact ⟨hbody, by simpa using h⟩
  · rw [List.concat_eq_append] at hbody
    rw [parent?_of_trimParts hbody] at h
    cases h

theorem head_append_join_parts (path : Path) : head path ++ Text.join ['/'] (parts path) = path := by
  rw [parts, Text.join_split]
  unfold head
  split <;> rfl

theorem isPrefix_of_parent? (h : parent? path = some parent) : parent <+: path := by
  rcases cases_of_parent? h with ⟨-, rfl⟩ | ⟨above, name, hbody, rfl⟩
  · exact List.nil_prefix
  · conv => rhs; rw [← head_append_join_parts path]
    exact (List.prefix_append_right_inj _).mpr (Text.join_isPrefix (trimParts_isPrefix_parts hbody))

theorem ne_of_parent? (h : parent? path = some parent) : parent ≠ path := by
  rintro rfl
  rcases cases_of_parent? h with ⟨hdot, rfl⟩ | ⟨above, name, hbody, hparent⟩
  · cases hdot
  · -- A path that is its own parent would have fewer parts than it has.
    obtain ⟨-, hparts⟩ := head_and_trimParts_of_prefix (trimParts_isPrefix_parts hbody)
    rw [← hparent, hbody] at hparts
    have hshort := (trimParts_isPrefix (trimParts above)).length_le.trans
      (trimParts_isPrefix above).length_le
    rw [← hparts, List.length_append, List.length_singleton] at hshort
    omega

theorem length_lt_of_parent? (h : parent? path = some parent) : parent.length < path.length :=
  Nat.lt_of_le_of_ne (isPrefix_of_parent? h).length_le
    fun hlength => ne_of_parent? h ((isPrefix_of_parent? h).eq_of_length hlength)

theorem isAbsolute_iff_head : isAbsolute path ↔ head path = ['/'] := by
  rw [isAbsolute, decide_eq_true_eq]
  rcases head_cases path with ⟨rest, rfl, hhead, -⟩ | ⟨-, hrelative, hhead, -⟩ | ⟨hrelative, hhead, -⟩
  · simp [hhead]
  · simp [hhead, hrelative]
  · simp [hhead, hrelative]

theorem isAbsolute_of_parent? (h : parent? path = some parent) :
    isAbsolute parent ↔ isAbsolute path := by
  rw [isAbsolute_iff_head, isAbsolute_iff_head]
  rcases cases_of_parent? h with ⟨hdot, rfl⟩ | ⟨above, name, hbody, rfl⟩
  · rw [hdot]
    decide
  · obtain ⟨hhead, -⟩ := head_and_trimParts_of_prefix (trimParts_isPrefix_parts hbody)
    rw [hhead]

/-- A path that has no head and nothing but idle parts is empty. -/
theorem eq_nil_of_trimParts (hhead : head path = []) (hparts : trimParts (parts path) = []) :
    path = [] := by
  cases path with
  | nil => rfl
  | cons c path =>
      obtain ⟨piece, others, hrest⟩ := List.exists_cons_of_ne_nil (Text.split_ne_nil '/' path)
      have hc : c ≠ '/' := by
        rintro rfl
        cases hhead
      have hsplit := Text.split_cons_of_ne hc hrest
      have hidle : isIdle (c :: piece) := by
        rw [trimParts_eq_rdropWhile, List.rdropWhile_eq_nil_iff] at hparts
        apply hparts
        rw [parts, hhead, List.length_nil, List.drop_zero, hsplit]
        exact List.mem_cons_self
      rw [isIdle, List.isEmpty_cons, Bool.false_or, decide_eq_true_eq] at hidle
      rw [hidle] at hsplit
      rw [head_of_split_dot hsplit] at hhead
      cases hhead

/-- Only the empty path and the root have no parent. -/
theorem top_of_parent? (h : parent? path = none) :
    if isAbsolute path then components path = [['/']] else path = [] := by
  obtain ⟨hparts, hdot⟩ := trimParts_of_parent? h
  split <;> rename_i habsolute
  · rw [isAbsolute_iff_head] at habsolute
    rw [components_eq, hparts, habsolute]
    rfl
  · rw [isAbsolute_iff_head] at habsolute
    apply eq_nil_of_trimParts _ hparts
    rcases head_cases path with ⟨-, -, hhead, -⟩ | ⟨-, -, hhead, -⟩ | ⟨-, hhead, -⟩
    · exact absurd hhead habsolute
    · exact absurd hhead hdot
    · exact hhead

/-! ### The way up -/

/-- A path with its parent, the parent of that, and so on up to one without a parent. -/
inductive Ascent : Path → List Path → Prop where
  | top {path : Path} (h : parent? path = none) : Ascent path [path]
  | step {path parent : Path} {above : List Path} (h : parent? path = some parent)
      (habove : Ascent parent above) : Ascent path (path :: above)

/-- The length of a path is enough fuel for the whole way up. -/
theorem ascent_ancestorsFrom {fuel : Nat} (hfuel : path.length ≤ fuel) :
    Ascent path (ancestorsFrom fuel path) := by
  induction fuel generalizing path with
  | zero =>
      obtain rfl := List.length_eq_zero_iff.mp (Nat.le_zero.mp hfuel)
      exact .top rfl
  | succ fuel ih =>
      rw [ancestorsFrom]
      cases hparent : parent? path with
      | none => exact .top hparent
      | some parent =>
          have hlength := length_lt_of_parent? hparent
          exact .step hparent (ih (by omega))

theorem ascent_ancestors (path : Path) : Ascent path (ancestors path) :=
  ascent_ancestorsFrom (Nat.le_refl _)

theorem Ascent.length_le {chain : List Path} (h : Ascent path chain) :
    chain.length ≤ path.length + 1 := by
  induction h with
  | top h => simp
  | step hparent _ ih =>
      have hlength := length_lt_of_parent? hparent
      rw [List.length_cons]
      omega

theorem Ascent.exists_top {chain : List Path} (h : Ascent path chain) :
    ∃ top, chain.getLast? = some top ∧
      if isAbsolute path then components top = [['/']] else top = [] := by
  induction h with
  | top h => exact ⟨_, rfl, top_of_parent? h⟩
  | step hparent habove ih =>
      obtain ⟨top, hlast, htop⟩ := ih
      refine ⟨top, ?_, ?_⟩
      · rw [List.getLast?_cons, hlast]
        rfl
      · simpa only [isAbsolute_of_parent? hparent] using htop

-- Slashes and dots that mean nothing go with the part that they stand behind.
example : ancestors "./a/../b//c/.".toList =
    ["./a/../b//c/.", "./a/../b", "./a/..", "./a", ".", ""].map String.toList := by
  decide

end Path

namespace FileTree

theorem isFile_iff {tree : FileTree} {base : Location} {path : Path} :
    tree.isFile base path ↔
      ∃ location content, tree.resolve base path = .ok location ∧
        tree.get? location = some (.file content) := by
  rw [isFile, lookup]
  cases hresolve : tree.resolve base path with
  | error cause => simp [bind, Except.bind]
  | ok location =>
      cases hget : tree.get? location with
      | none => simp [bind, Except.bind, hget, throw, throwThe, MonadExceptOf.throw]
      | some entry => cases entry <;> simp [bind, Except.bind, hget, pure, Except.pure]

/-- A file is no top, so it has a directory above it. -/
theorem exists_parent?_of_isFile {tree : FileTree} {base : Location} {path : Path}
    (hfile : tree.isFile base path) : ∃ parent, Path.parent? path = some parent := by
  rw [← Option.isSome_iff_exists, ← Option.ne_none_iff_isSome]
  intro hnone
  obtain ⟨location, content, hresolve, hget⟩ := isFile_iff.mp hfile
  have htop := Path.top_of_parent? hnone
  split at htop <;> rename_i habsolute
  · have hplace : location = [] := by
      rw [eq_placeOf_of_resolve hresolve, placeOf_eq_follow_parts, ← follow_trimParts,
        (Path.trimParts_of_parent? hnone).1, follow_nil, origin, if_pos habsolute]
    rw [hplace] at hget
    cases hget
  · subst htop
    cases hresolve

end FileTree

namespace Settings

variable {world : World} {start first dir : Path}

/-! ### The search -/

/-- That a search begins at `first`: above the start if that is a file, and otherwise at the start. -/
def Begins (world : World) (start first : Path) : Prop :=
  if world.isFile start then Path.parent? start = some first else first = start

/-- That a directory has a regular file with settings in it, to which the path of the file leads. -/
def Holds (world : World) (dir : Path) : Prop :=
  world.tree.resolve world.home (Path.join dir fileName) =
      .ok (FileTree.placeOf world.home dir ++ [fileName]) ∧
    ∃ content, world.tree.get? (FileTree.placeOf world.home dir ++ [fileName]) = some (.file content)

theorem isFile_join_iff : world.isFile (Path.join dir fileName) ↔ Holds world dir := by
  have hplace : FileTree.placeOf world.home (Path.join dir fileName) =
      FileTree.placeOf world.home dir ++ [fileName] :=
    FileTree.placeOf_join (Path.isName_cons (by decide) _) (by decide) world.home dir
  rw [World.isFile, FileTree.isFile_iff, Holds]
  constructor
  · rintro ⟨location, content, hresolve, hget⟩
    obtain rfl := (FileTree.eq_placeOf_of_resolve hresolve).trans hplace
    exact ⟨hresolve, content, hget⟩
  · rintro ⟨hresolve, content, hget⟩
    exact ⟨_, content, hresolve, hget⟩

theorem exists_begins (world : World) (start : Path) :
    ∃ first, Begins world start first ∧ directories world start = Path.ancestors first := by
  by_cases hfile : world.isFile start
  · obtain ⟨parent, hparent⟩ := FileTree.exists_parent?_of_isFile hfile
    refine ⟨parent, ?_, ?_⟩
    · rwa [Begins, if_pos hfile]
    · rw [directories, if_pos hfile, hparent]
  · refine ⟨start, ?_, ?_⟩
    · rw [Begins, if_neg hfile]
    · rw [directories, if_neg hfile]

theorem Begins.length_le (h : Begins world start first) : first.length ≤ start.length := by
  rw [Begins] at h
  split at h
  · exact Nat.le_of_lt (Path.length_lt_of_parent? h)
  · exact Nat.le_of_eq (congrArg List.length h)

theorem Begins.isAbsolute_iff (h : Begins world start first) :
    Path.isAbsolute first ↔ Path.isAbsolute start := by
  rw [Begins] at h
  split at h
  · exact Path.isAbsolute_of_parent? h
  · rw [h]

theorem nearest?_eq_some_iff {path : Path} :
    nearest? world start = some path ↔
      ∃ passed dir rest, directories world start = passed ++ dir :: rest ∧ Holds world dir ∧
        (∀ other ∈ passed, ¬Holds world other) ∧ path = Path.join dir fileName := by
  simp only [nearest?, List.find?_map, Option.map_eq_some_iff, List.find?_eq_some_iff_append,
    Function.comp_apply, isFile_join_iff, Bool.not_eq_true', Bool.eq_false_iff, Ne]
  constructor
  · rintro ⟨dir, ⟨hholds, passed, rest, hdirs, hpassed⟩, rfl⟩
    exact ⟨passed, dir, rest, hdirs, hholds, hpassed, rfl⟩
  · rintro ⟨passed, dir, rest, hdirs, hholds, hpassed, rfl⟩
    exact ⟨dir, ⟨hholds, passed, rest, hdirs, hpassed⟩, rfl⟩

theorem nearest?_eq_none_iff :
    nearest? world start = none ↔ ∀ dir ∈ directories world start, ¬Holds world dir := by
  simp only [nearest?, List.find?_map, Option.map_eq_none_iff, List.find?_eq_none,
    Function.comp_apply, isFile_join_iff]

/-- The search for settings goes up from the start, or from its parent if the start is a file. It looks
into at most one directory more than the start has characters, and the last of them is the empty path
or, for an absolute start, the root. What is found is the file in the first of these directories that
holds one, and nothing is found exactly if none of them does. -/
theorem nearest_settings_win (world : World) (start : Path) :
    ∃ first chain, Begins world start first ∧ Path.Ascent first chain ∧
      chain.length ≤ start.length + 1 ∧
      (∃ top, chain.getLast? = some top ∧
        if Path.isAbsolute start then Path.components top = [['/']] else top = []) ∧
      (∀ path, nearest? world start = some path ↔
        ∃ passed dir rest, chain = passed ++ dir :: rest ∧ Holds world dir ∧
          (∀ other ∈ passed, ¬Holds world other) ∧ path = Path.join dir fileName) ∧
      (nearest? world start = none ↔ ∀ dir ∈ chain, ¬Holds world dir) := by
  obtain ⟨first, hbegins, hdirs⟩ := exists_begins world start
  have hascent := Path.ascent_ancestors first
  have hlength : (Path.ancestors first).length ≤ start.length + 1 :=
    hascent.length_le.trans (Nat.succ_le_succ hbegins.length_le)
  have htop := hascent.exists_top
  simp only [hbegins.isAbsolute_iff] at htop
  refine ⟨first, Path.ancestors first, hbegins, hascent, hlength, htop, fun path => ?_, ?_⟩
  · rw [nearest?_eq_some_iff, hdirs]
  · rw [nearest?_eq_none_iff, hdirs]

end Settings

end PlainC
