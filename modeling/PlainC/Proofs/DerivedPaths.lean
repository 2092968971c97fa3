import PlainC.Proofs.Places

/-!
# Derived paths

A path is judged by its components. A name that is joined to a directory becomes the last component, and
the parent of the joined path is the directory again, up to what means nothing at its end. So a derived
file is in the directory it is meant for, and its longer name tells it from the input.
-/

namespace PlainC

namespace Path

variable {path dir : Path} {name : Text}

/-! ### The parts of joined paths -/

theorem head_append_slash (hne : path ≠ []) (rest : Text) :
    head (path ++ '/' :: rest) = head path := by
  cases path with
  | nil => exact absurd rfl hne
  | cons c path =>
      by_cases hslash : c = '/'
      · subst hslash
        rfl
      by_cases hdot : c = '.'
      · subst hdot
        cases path with
        | nil => rfl
        | cons d path =>
            by_cases hd : d = '/'
            · subst hd
              rfl
            · simp [head, hd]
      · simp [head, hslash, hdot]

theorem length_head_le (path : Path) : (head path).length ≤ path.length := by
  unfold head
  split <;> simp

theorem parts_append_slash (hne : path ≠ []) (rest : Text) :
    parts (path ++ '/' :: rest) = parts path ++ Text.split '/' rest := by
  rw [parts, parts, head_append_slash hne, List.drop_append_of_le_length (length_head_le path),
    Text.split_append_cons]

theorem head_of_not_slash (hslash : '/' ∉ name) (hdot : name ≠ ['.']) : head name = [] := by
  unfold head
  split
  · simp at hslash
  · exact absurd rfl hdot
  · simp at hslash
  · rfl

/-- A name that is joined to a directory stands behind the parts of the directory, of which an empty one
at the end is filled. -/
theorem exists_parts_join (hname : IsName name) (hslash : '/' ∉ name) (dir : Path) :
    head (join dir name) = head dir ∧
      ∃ front, parts (join dir name) = front ++ [name] ∧
        (parts dir = front ∨ parts dir = front ++ [[]]) := by
  have hsplit : Text.split '/' name = [name] := Text.split_of_not_mem hslash
  have hrelative : ¬isAbsolute name := by
    rw [isAbsolute, decide_eq_true_eq]
    exact fun hhead => hslash (List.mem_of_head? hhead)
  rw [join, if_neg hrelative]
  split <;> rename_i hend
  · rw [Bool.or_eq_true, List.isEmpty_iff, decide_eq_true_eq] at hend
    rcases hend with rfl | hend
    · have hhead : head name = [] := by
        apply head_of_not_slash hslash
        rintro rfl
        exact hname.1 rfl
      refine ⟨hhead, [], ?_, .inr rfl⟩
      rw [List.nil_append, parts, hhead]
      exact hsplit
    · obtain ⟨base, rfl⟩ := List.getLast?_eq_some_iff.mp hend
      rw [List.append_assoc, List.singleton_append]
      by_cases hbase : base = []
      · subst hbase
        exact ⟨rfl, [], hsplit, .inr rfl⟩
      · refine ⟨?_, parts base, ?_, .inr (parts_append_slash hbase [])⟩
        · rw [head_append_slash hbase, head_append_slash hbase]
        · rw [parts_append_slash hbase, hsplit]
  · have hne : dir ≠ [] := by
      rintro rfl
      simp at hend
    refine ⟨head_append_slash hne name, parts dir, ?_, .inl rfl⟩
    rw [parts_append_slash hne, hsplit]

/-- A path whose first piece is a lone dot begins with it. -/
theorem head_of_split_dot {others : List Text} (hsplit : Text.split '/' path = ['.'] :: others) :
    head path = ['.'] := by
  cases path with
  | nil => cases hsplit
  | cons c path =>
      obtain ⟨piece, more, hpieces⟩ := List.exists_cons_of_ne_nil (Text.split_ne_nil '/' path)
      by_cases hc : c = '/'
      · rw [hc, Text.split_cons_mark] at hsplit
        cases hsplit
      rw [Text.split_cons_of_ne hc hpieces] at hsplit
      cases hsplit
      -- The piece ends here, so the path does, or a slash follows.
      cases path with
      | nil => rfl
      | cons d path =>
          by_cases hd : d = '/'
          · rw [hd]
            rfl
          · obtain ⟨piece, more, hrest⟩ := List.exists_cons_of_ne_nil (Text.split_ne_nil '/' path)
            rw [Text.split_cons_of_ne hd hrest] at hpieces
            cases hpieces

/-- The first parts of a path make a path with the same head and, up to an empty one, with those parts. -/
theorem head_and_trimParts_of_prefix {steps : List Text} (hparts : steps <+: parts path) :
    head (head path ++ Text.join ['/'] steps) = head path ∧
      trimParts (parts (head path ++ Text.join ['/'] steps)) = trimParts steps := by
  have hslash : ∀ step ∈ steps, '/' ∉ step := fun step hstep =>
    Text.not_mem_of_mem_split (hparts.subset hstep)
  suffices hhead : head (head path ++ Text.join ['/'] steps) = head path by
    refine ⟨hhead, ?_⟩
    rw [parts, hhead, List.drop_left]
    by_cases hsteps : steps = []
    · rw [hsteps]
      rfl
    · rw [Text.split_join hsteps hslash]
  obtain ⟨more, hmore⟩ := hparts
  rcases head_cases path with ⟨rest, rfl, hhead, -⟩ | ⟨others, -, hhead, -, hpath⟩ |
    ⟨hrelative, hhead, hpath⟩
  · rw [hhead]
    rfl
  · -- Behind the dot stands an empty part, and so a slash or nothing.
    rw [hhead]
    cases steps with
    | nil => rfl
    | cons step steps =>
        rw [hpath, List.cons_append, List.cons.injEq] at hmore
        rw [hmore.1]
        cases steps <;> rfl
  · rw [hhead, List.nil_append]
    cases steps with
    | nil => rfl
    | cons step steps =>
        have hsplit := Text.split_join (List.cons_ne_nil step steps) hslash
        rw [hpath] at hmore
        rcases head_cases (Text.join ['/'] (step :: steps)) with ⟨rest, hjoin, -⟩ |
          ⟨others, -, -, hjoin, -⟩ | ⟨-, hjoin, -⟩
        · -- A slash or a lone dot at the beginning would be one of the path too.
          rw [hjoin, Text.split_cons_mark] at hsplit
          obtain ⟨next, others, hrest⟩ := List.exists_cons_of_ne_nil (Text.split_ne_nil '/' rest)
          rw [← hsplit, hrest] at hmore
          exact absurd (Text.head?_eq_mark_iff.mpr ⟨next, others ++ more, hmore.symm⟩) hrelative
        · rw [hsplit] at hjoin
          rw [hjoin] at hmore
          rw [head_of_split_dot hmore.symm] at hhead
          cases hhead
        · exact hjoin

/-- A path without the parts at its end that mean nothing. -/
def trimmed (path : Path) : Path := head path ++ Text.join ['/'] (trimParts (parts path))

theorem trimParts_isPrefix (steps : List Text) : trimParts steps <+: steps :=
  List.rdropWhile_prefix isIdle steps

theorem parent?_join (hname : IsName name) (hslash : '/' ∉ name) (dir : Path) :
    parent? (join dir name) = some (trimmed dir) := by
  obtain ⟨hhead, front, hfront, hdir⟩ := exists_parts_join hname hslash dir
  have hkept : trimParts (parts (join dir name)) = front ++ [name] := by
    rw [hfront, trimParts_eq_rdropWhile, List.rdropWhile_concat_neg _ _ _ hname.1]
  have hfilled : trimParts (parts dir) = trimParts front := by
    rcases hdir with hdir | hdir
    · rw [hdir]
    · rw [hdir, trimParts_eq_rdropWhile, List.rdropWhile_concat_pos _ _ _ rfl,
        trimParts_eq_rdropWhile]
  rw [parent?_of_trimParts hkept, hhead, trimmed, hfilled]

theorem parent?_of_trimParts_nil (h : trimParts (parts path) = []) :
    parent? path = if head path = ['.'] then some [] else none := by
  rw [parent?, h]

/-- A parent leaves a lone dot off, or the last part and what means nothing before it. -/
theorem cases_of_parent? {parent : Path} (h : parent? path = some parent) :
    head path = ['.'] ∧ parent = [] ∨
      ∃ above name, trimParts (parts path) = above ++ [name] ∧
        parent = head path ++ Text.join ['/'] (trimParts above) := by
  rcases List.eq_nil_or_concat (trimParts (parts path)) with hbody | ⟨above, name, hbody⟩
  · rw [parent?_of_trimParts_nil hbody, Option.ite_none_right_eq_some] at h
    exact .inl ⟨h.1, (Option.some.inj h.2).symm⟩
  · rw [List.concat_eq_append] at hbody
    rw [parent?_of_trimParts hbody] at h
    exact .inr ⟨above, name, hbody, (Option.some.inj h).symm⟩

theorem trimParts_isPrefix_parts {above : List Text}
    (h : trimParts (parts path) = above ++ [name]) : trimParts above <+: parts path :=
  ((trimParts_isPrefix above).trans (List.prefix_append above [name])).trans
    (h ▸ trimParts_isPrefix (parts path))

theorem filter_trimParts (steps : List Text) :
    (trimParts steps).filter (!isIdle ·) = steps.filter (!isIdle ·) := by
  have hidle : (steps.rtakeWhile isIdle).filter (!isIdle ·) = [] := by
    rw [List.filter_eq_nil_iff]
    intro step hstep
    simpa using List.mem_rtakeWhile_imp hstep
  calc (trimParts steps).filter (!isIdle ·)
      = (steps.rdropWhile isIdle ++ steps.rtakeWhile isIdle).filter (!isIdle ·) := by
        rw [List.filter_append, hidle, List.append_nil, trimParts_eq_rdropWhile]
    _ = steps.filter (!isIdle ·) := by rw [List.rdropWhile_append_rtakeWhile]

/-- The components of a path do not change if its parts are trimmed. -/
theorem components_eq (path : Path) :
    components path = (if (head path).isEmpty then [] else [head path])
      ++ (trimParts (parts path)).filter (!isIdle ·) := by
  rw [components, filter_trimParts]
  split <;> rfl

theorem components_trimmed (path : Path) : components (trimmed path) = components path := by
  obtain ⟨hhead, hsteps⟩ := head_and_trimParts_of_prefix (trimParts_isPrefix (parts path))
  rw [components_eq, components_eq path, trimmed, hhead, hsteps, filter_trimParts]

theorem exists_components_of_fileName? (hname : fileName? path = some name) :
    ∃ front, components path = front ++ [name] := by
  obtain ⟨hisName, -, above, habove⟩ := exists_of_fileName? hname
  have hlast : [name].filter (!isIdle ·) = [name] := by
    rw [List.filter_cons_of_pos (by simpa using hisName.1), List.filter_nil]
  refine ⟨(if (head path).isEmpty then [] else [head path]) ++ above.filter (!isIdle ·), ?_⟩
  rw [components_eq, habove, List.filter_append, hlast, List.append_assoc]

/-- Paths with different file names differ in their components, and lead to different places. -/
theorem apart_of_fileName? {other : Path} {otherName : Text} (hname : fileName? path = some name)
    (hother : fileName? other = some otherName) (hne : name ≠ otherName) :
    components path ≠ components other ∧
      ∀ base, FileTree.placeOf base path ≠ FileTree.placeOf base other := by
  have hlast : ∀ front front' : List Text, front ++ [name] ≠ front' ++ [otherName] :=
    fun front front' hsame => hne (List.singleton_inj.mp (List.append_inj_right' hsame rfl))
  constructor
  · obtain ⟨front, hfront⟩ := exists_components_of_fileName? hname
    obtain ⟨front', hfront'⟩ := exists_components_of_fileName? hother
    rw [hfront, hfront']
    exact hlast front front'
  · intro base
    obtain ⟨above, habove⟩ := FileTree.placeOf_of_fileName? hname base
    obtain ⟨above', habove'⟩ := FileTree.placeOf_of_fileName? hother base
    rw [habove, habove']
    exact hlast above above'

/-- Whether the input has a name or not, what is derived from it is named by the mark. -/
theorem parent?_derived {mark : Text} (hmark : ∀ rest, IsName (mark ++ rest)) (hslash : '/' ∉ mark)
    (input : Path) (outputDir : Option Path) :
    parent? (derived mark input outputDir) =
      some (trimmed ((outputDir.or (parent? input)).getD [])) := by
  have hplain : '/' ∉ (fileName? input).getD [] := by
    cases hname : fileName? input with
    | none => simp
    | some name => exact (exists_of_fileName? hname).2.1
  rw [derived]
  exact parent?_join (hmark _) (by simp [hslash, hplain]) _

/-- A derived file has the marked name of its input and is in the output directory or in that of the
input. The input, its stripped file and the expanded files of both are four different files, however the
input and the directory are spelled. -/
theorem derived_paths_differ {input : Path} {name : Text} (hname : fileName? input = some name)
    (outputDir : Option Path) :
    (∀ mark ∈ ["expanded_".toList, "stripped_".toList], ∃ dir parent,
      outputDir.or (parent? input) = some dir ∧
      fileName? (derived mark input outputDir) = some (mark ++ name) ∧
      parent? (derived mark input outputDir) = some parent ∧ components parent = components dir) ∧
    [input, stripped input outputDir, expanded input outputDir,
        expanded (stripped input outputDir) outputDir].Pairwise fun one other =>
      components one ≠ components other ∧
        ∀ base, FileTree.placeOf base one ≠ FileTree.placeOf base other := by
  constructor
  · intro mark hmark
    obtain ⟨hisName, hslash⟩ : (∀ rest, IsName (mark ++ rest)) ∧ '/' ∉ mark := by
      rw [List.mem_pair] at hmark
      rcases hmark with rfl | rfl
      · exact ⟨FileTree.isName_expanded, by decide⟩
      · exact ⟨FileTree.isName_stripped, by decide⟩
    obtain ⟨dir, hdir⟩ : ∃ dir, outputDir.or (parent? input) = some dir := by
      obtain ⟨parent, hparent, -⟩ := FileTree.exists_parent?_of_fileName? hname []
      cases outputDir with
      | none => exact ⟨parent, hparent⟩
      | some dir => exact ⟨dir, rfl⟩
    have hparent := parent?_derived hisName hslash input outputDir
    rw [hdir] at hparent
    exact ⟨dir, trimmed dir, hdir, FileTree.fileName?_derived hisName hslash hname outputDir, hparent,
      components_trimmed dir⟩
  · have hstripped := FileTree.fileName?_derived FileTree.isName_stripped (by decide) hname outputDir
    have hexpanded := FileTree.fileName?_derived FileTree.isName_expanded (by decide) hname outputDir
    have hboth := FileTree.fileName?_derived FileTree.isName_expanded (by decide) hstripped outputDir
    have hmarked : ∀ mark text : Text, mark ≠ [] → text ≠ mark ++ text :=
      fun mark text hmark hsame => hmark (List.self_eq_append_left.mp hsame)
    have hmarks : "stripped_".toList ++ name ≠ "expanded_".toList ++ name := by
      rw [Ne, List.append_cancel_right_eq]
      decide
    have htwice : name ≠ "expanded_".toList ++ ("stripped_".toList ++ name) := by
      rw [← List.append_assoc]
      exact hmarked _ name (by decide)
    have hagain : "expanded_".toList ++ name ≠ "expanded_".toList ++ ("stripped_".toList ++ name) := by
      rw [Ne, List.append_cancel_left_eq]
      exact hmarked _ name (by decide)
    simp only [List.pairwise_cons, List.forall_mem_cons, List.not_mem_nil, false_implies, implies_true,
      List.Pairwise.nil, and_true]
    refine ⟨⟨?_, ?_, ?_⟩, ⟨?_, ?_⟩, ?_⟩
    · exact apart_of_fileName? hname hstripped (hmarked _ name (by decide))
    · exact apart_of_fileName? hname hexpanded (hmarked _ name (by decide))
    · exact apart_of_fileName? hname hboth htwice
    · exact apart_of_fileName? hstripped hexpanded hmarks
    · exact apart_of_fileName? hstripped hboth (hmarked _ _ (by decide))
    · exact apart_of_fileName? hexpanded hboth hagain

theorem derived_paths_differ_behind_dots :
    fileName? "./a/..//f.c/.".toList = some "f.c".toList ∧
    expanded "./a/..//f.c/.".toList none = "./a/../expanded_f.c".toList ∧
    parent? (stripped "./a/..//f.c/.".toList (some "/b//".toList)) = some "/b".toList ∧
    components "/b".toList = components "/b//".toList ∧
    ["./a/..//f.c/.".toList, stripped "./a/..//f.c/.".toList (some "/b//".toList),
        expanded "./a/..//f.c/.".toList (some "/b//".toList),
        expanded (stripped "./a/..//f.c/.".toList (some "/b//".toList)) (some "/b//".toList)].Pairwise
      fun one other => components one ≠ components other ∧
        ∀ base, FileTree.placeOf base one ≠ FileTree.placeOf base other := by
  have hname : fileName? "./a/..//f.c/.".toList = some "f.c".toList := by decide
  obtain ⟨hderived, hapart⟩ := derived_paths_differ hname (some "/b//".toList)
  obtain ⟨dir, parent, hdir, -, hparent, hcomponents⟩ :=
    hderived "stripped_".toList (List.mem_cons_of_mem _ (List.mem_singleton_self _))
  have hsame : parent = "/b".toList := by
    have hevaluated : parent? (stripped "./a/..//f.c/.".toList (some "/b//".toList)) =
        some "/b".toList := by decide
    exact Option.some.inj (hparent.symm.trans hevaluated)
  cases hdir
  rw [hsame] at hparent hcomponents
  exact ⟨hname, by decide, hparent, hcomponents, hapart⟩

end Path

end PlainC
