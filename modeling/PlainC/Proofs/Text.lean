import PlainC.Text
import Mathlib.Data.List.Basic

/-!
# Cutting and joining texts

A cut is found by counting bytes, and every character has one byte at least. So a text is cut behind
`n` bytes in one way or not at all, and the two parts of a cut are known from the text and the bytes of
the first part. Splitting a text into lines undoes joining them, since no line has a line feed in it.
-/

namespace PlainC

namespace Text

/-! ### Bytes -/

@[simp]
theorem byteLength_nil : byteLength [] = 0 := rfl

@[simp]
theorem byteLength_cons (c : Char) (text : Text) :
    byteLength (c :: text) = c.utf8Size + byteLength text := rfl

@[simp]
theorem byteLength_append (before after : Text) :
    byteLength (before ++ after) = byteLength before + byteLength after := by
  induction before with
  | nil => simp
  | cons c before ih => simp [ih, Nat.add_assoc]

theorem byteLength_eq_zero_iff {text : Text} : byteLength text = 0 ↔ text = [] := by
  cases text with
  | nil => simp
  | cons c text =>
      have hpos := c.utf8Size_pos
      simp only [byteLength_cons, reduceCtorEq, iff_false]
      omega

/-- Of two cuts of one text, the one behind fewer bytes comes first. -/
theorem exists_append_of_byteLength_le {before after before' after' : Text}
    (heq : before ++ after = before' ++ after') (hle : byteLength before ≤ byteLength before') :
    ∃ between, before' = before ++ between ∧ after = between ++ after' := by
  rcases List.append_eq_append_iff.mp heq with ⟨between, hbefore, hafter⟩ | ⟨between, hbefore, hafter⟩
  · exact ⟨between, hbefore, hafter⟩
  · have hempty : between = [] := by
      rw [hbefore, byteLength_append] at hle
      exact byteLength_eq_zero_iff.mp (by omega)
    subst hempty
    exact ⟨[], by simpa using hbefore.symm, by simpa using hafter.symm⟩

theorem append_inj_of_byteLength {before after before' after' : Text}
    (heq : before ++ after = before' ++ after') (hlength : byteLength before = byteLength before') :
    before = before' ∧ after = after' := by
  obtain ⟨between, rfl, rfl⟩ := exists_append_of_byteLength_le heq (Nat.le_of_eq hlength)
  have hempty : between = [] := by
    rw [byteLength_append] at hlength
    exact byteLength_eq_zero_iff.mp (by omega)
  subst hempty
  exact ⟨(List.append_nil before).symm, rfl⟩

/-! ### Cuts -/

theorem cut?_byteLength (before after : Text) :
    cut? (byteLength before) (before ++ after) = some (before, after) := by
  induction before with
  | nil => simp [cut?]
  | cons c before ih =>
      have hpos := c.utf8Size_pos
      obtain ⟨n, hn⟩ : ∃ n, c.utf8Size + byteLength before = n + 1 :=
        ⟨c.utf8Size + byteLength before - 1, by omega⟩
      have hrest : n + 1 - c.utf8Size = byteLength before := by omega
      rw [List.cons_append, byteLength_cons, hn, cut?, if_pos (by omega), hrest, ih]
      rfl

theorem cut?_eq_some_iff {n : Nat} {text before after : Text} :
    cut? n text = some (before, after) ↔ text = before ++ after ∧ byteLength before = n := by
  constructor
  · intro hcut
    fun_induction cut? n text generalizing before with
    | case1 text =>
        cases hcut
        simp
    | case2 => cases hcut
    | case3 n c rest hsize ih =>
        obtain ⟨⟨front, back⟩, hrest, hpair⟩ := Option.map_eq_some_iff.mp hcut
        cases hpair
        obtain ⟨htext, hlength⟩ := ih hrest
        refine ⟨by simp [htext], ?_⟩
        rw [byteLength_cons, hlength]
        omega
    | case4 => cases hcut
  · rintro ⟨rfl, rfl⟩
    exact cut?_byteLength before after

theorem take?_eq_some_iff {n : Nat} {text before : Text} :
    take? n text = some before ↔ ∃ after, text = before ++ after ∧ byteLength before = n := by
  simp only [take?, Option.map_eq_some_iff, Prod.exists, cut?_eq_some_iff]
  constructor
  · rintro ⟨_, after, hcut, rfl⟩
    exact ⟨after, hcut⟩
  · rintro ⟨after, hcut⟩
    exact ⟨before, after, hcut, rfl⟩

theorem drop?_eq_some_iff {n : Nat} {text after : Text} :
    drop? n text = some after ↔ ∃ before, text = before ++ after ∧ byteLength before = n := by
  simp only [drop?, Option.map_eq_some_iff, Prod.exists, cut?_eq_some_iff]
  constructor
  · rintro ⟨before, _, hcut, rfl⟩
    exact ⟨before, hcut⟩
  · rintro ⟨before, hcut⟩
    exact ⟨before, after, hcut, rfl⟩

theorem between?_eq_some_iff {start stop : Nat} {text middle : Text} :
    between? start stop text = some middle ↔
      ∃ before after, text = before ++ middle ++ after ∧ byteLength before = start ∧
        start + byteLength middle = stop := by
  simp only [between?]
  split <;> rename_i hle
  · simp only [bind, Option.bind_eq_some_iff, drop?_eq_some_iff, take?_eq_some_iff]
    constructor
    · rintro ⟨rest, ⟨before, rfl, hstart⟩, after, rfl, hlength⟩
      exact ⟨before, after, by simp, hstart, by omega⟩
    · rintro ⟨before, after, rfl, hstart, hlength⟩
      exact ⟨middle ++ after, ⟨before, by simp, hstart⟩, after, rfl, by omega⟩
  · simp only [reduceCtorEq, false_iff]
    rintro ⟨before, after, -, -, hlength⟩
    omega

/-! ### Pieces -/

theorem split_ne_nil (mark : Char) (text : Text) : split mark text ≠ [] := by
  cases text with
  | nil => simp [split]
  | cons c text =>
      rw [split]
      split
      · simp
      · split <;> simp

/-- The first piece of a text that begins with anything but the mark grows by that character. -/
theorem split_cons_of_ne {mark c : Char} {text piece : Text} {others : List Text} (hne : c ≠ mark)
    (hsplit : split mark text = piece :: others) :
    split mark (c :: text) = (c :: piece) :: others := by
  rw [split, if_neg hne, hsplit]

theorem split_cons_mark (mark : Char) (text : Text) :
    split mark (mark :: text) = [] :: split mark text := by
  rw [split, if_pos rfl]

theorem split_append_mark {mark : Char} {piece : Text} (hmark : mark ∉ piece) (text : Text) :
    split mark (piece ++ mark :: text) = piece :: split mark text := by
  induction piece with
  | nil => exact split_cons_mark mark text
  | cons c piece ih =>
      simp only [List.mem_cons, not_or] at hmark
      exact split_cons_of_ne (Ne.symm hmark.1) (ih hmark.2)

theorem split_of_not_mem {mark : Char} {piece : Text} (hmark : mark ∉ piece) :
    split mark piece = [piece] := by
  induction piece with
  | nil => rfl
  | cons c piece ih =>
      simp only [List.mem_cons, not_or] at hmark
      exact split_cons_of_ne (Ne.symm hmark.1) (ih hmark.2)

theorem not_mem_of_mem_split {mark : Char} {text piece : Text} (hpiece : piece ∈ split mark text) :
    mark ∉ piece := by
  induction text generalizing piece with
  | nil =>
      rw [split, List.mem_singleton] at hpiece
      simp [hpiece]
  | cons c text ih =>
      obtain ⟨first, others, hsplit⟩ := List.exists_cons_of_ne_nil (split_ne_nil mark text)
      rw [hsplit] at ih
      by_cases hc : c = mark
      · rw [hc, split_cons_mark, hsplit, List.mem_cons] at hpiece
        rcases hpiece with rfl | hmem
        · simp
        · exact ih hmem
      · rw [split_cons_of_ne hc hsplit, List.mem_cons] at hpiece
        rcases hpiece with rfl | hmem
        · simp only [List.mem_cons, not_or]
          exact ⟨Ne.symm hc, ih List.mem_cons_self⟩
        · exact ih (List.mem_cons_of_mem _ hmem)

theorem join_split (mark : Char) (text : Text) : join [mark] (split mark text) = text := by
  induction text with
  | nil => rfl
  | cons c text ih =>
      obtain ⟨piece, others, hsplit⟩ := List.exists_cons_of_ne_nil (split_ne_nil mark text)
      by_cases hc : c = mark
      · rw [hc, split_cons_mark, hsplit, join, ← hsplit, ih]
        · rfl
        · simp
      · rw [split_cons_of_ne hc hsplit]
        rw [hsplit] at ih
        cases others with
        | nil => exact congrArg (c :: ·) ih
        | cons next others => exact congrArg (c :: ·) ih

/-! ### Lines

A place in a text has whole lines above it, each closed by a line feed, and whole lines below it, each
opened by one. So a text that is cut at a place is `closed above ++ left` and `right ++ opened below`,
and its line at that place is `left ++ right`. -/

/-- Lines with a line feed behind each. -/
def closed (above : List Text) : Text := above.flatMap (· ++ ['\n'])

/-- Lines with a line feed before each. -/
def opened (below : List Text) : Text := below.flatMap ('\n' :: ·)

@[simp]
theorem closed_nil : closed [] = [] := rfl

@[simp]
theorem closed_cons (line : Text) (above : List Text) :
    closed (line :: above) = line ++ '\n' :: closed above := by
  simp [closed]

@[simp]
theorem closed_append (above below : List Text) :
    closed (above ++ below) = closed above ++ closed below := by
  simp [closed]

@[simp]
theorem opened_nil : opened [] = [] := rfl

@[simp]
theorem opened_cons (line : Text) (below : List Text) :
    opened (line :: below) = '\n' :: line ++ opened below := rfl

@[simp]
theorem opened_append (above below : List Text) :
    opened (above ++ below) = opened above ++ opened below := by
  simp [opened]

theorem append_opened_concat (line last : Text) (inner : List Text) :
    line ++ opened (inner ++ [last]) = closed (line :: inner) ++ last := by
  induction inner generalizing line with
  | nil => simp
  | cons next inner ih =>
      rw [List.cons_append, opened_cons, List.cons_append, ih]
      simp

theorem joinLines_cons (line : Text) (below : List Text) :
    joinLines (line :: below) = line ++ opened below := by
  induction below generalizing line with
  | nil => simp [joinLines, join]
  | cons next below ih =>
      have hrest := ih next
      rw [joinLines] at hrest ⊢
      rw [join, hrest]
      · simp
      · simp

theorem joinLines_append_cons (above : List Text) (line : Text) (below : List Text) :
    joinLines (above ++ line :: below) = closed above ++ line ++ opened below := by
  induction above with
  | nil => simp [joinLines_cons]
  | cons first above ih =>
      obtain ⟨next, others, hnext⟩ : ∃ next others, above ++ line :: below = next :: others :=
        List.exists_cons_of_ne_nil (by simp)
      rw [hnext, joinLines_cons] at ih
      rw [List.cons_append, joinLines_cons, hnext, opened_cons, List.cons_append, ih]
      simp

theorem lines_closed_append {above : List Text} (habove : ∀ line ∈ above, '\n' ∉ line)
    (text : Text) : lines (closed above ++ text) = above ++ lines text := by
  induction above with
  | nil => simp
  | cons first above ih =>
      have hrest := ih fun line hline => habove line (List.mem_cons_of_mem _ hline)
      have hfirst := split_append_mark (habove first List.mem_cons_self) (closed above ++ text)
      rw [lines] at hrest ⊢
      rw [closed_cons, List.append_assoc, List.cons_append, hfirst, hrest, List.cons_append]

theorem lines_append_opened {line : Text} {below : List Text} (hline : '\n' ∉ line)
    (hbelow : ∀ other ∈ below, '\n' ∉ other) : lines (line ++ opened below) = line :: below := by
  induction below generalizing line with
  | nil => simpa [lines] using split_of_not_mem hline
  | cons next below ih =>
      have hrest := ih (hbelow next List.mem_cons_self)
        fun other hother => hbelow other (List.mem_cons_of_mem _ hother)
      rw [lines] at hrest ⊢
      rw [opened_cons, List.cons_append, split_append_mark hline, hrest]

theorem not_mem_of_mem_lines {text line : Text} (hline : line ∈ lines text) : '\n' ∉ line :=
  not_mem_of_mem_split hline

theorem length_lines (text : Text) : (lines text).length = text.count '\n' + 1 := by
  have hsplit : ∀ text : Text, (split '\n' text).length = text.count '\n' + 1 := by
    intro text
    induction text with
    | nil => rfl
    | cons c text ih =>
        obtain ⟨line, below, hcons⟩ := List.exists_cons_of_ne_nil (split_ne_nil '\n' text)
        by_cases hc : c = '\n'
        · rw [hc, split_cons_mark, List.length_cons, ih, List.count_cons_self]
        · rw [split_cons_of_ne hc hcons, List.length_cons, ← List.length_cons (a := line), ← hcons,
            ih, List.count_cons_of_ne hc]
  exact hsplit text

/-- The lines of a text that is put together from lines. -/
theorem lines_place {above below : List Text} {line : Text}
    (habove : ∀ other ∈ above, '\n' ∉ other) (hline : '\n' ∉ line)
    (hbelow : ∀ other ∈ below, '\n' ∉ other) :
    lines (closed above ++ line ++ opened below) = above ++ line :: below := by
  rw [List.append_assoc, lines_closed_append habove, lines_append_opened hline hbelow]

theorem joinLines_lines (text : Text) : joinLines (lines text) = text := join_split '\n' text

theorem lines_joinLines {pieces : List Text} (hne : pieces ≠ [])
    (hpieces : ∀ piece ∈ pieces, '\n' ∉ piece) : lines (joinLines pieces) = pieces := by
  obtain ⟨line, below, rfl⟩ := List.exists_cons_of_ne_nil hne
  rw [joinLines_cons]
  exact lines_append_opened (hpieces line List.mem_cons_self)
    fun other hother => hpieces other (List.mem_cons_of_mem _ hother)

/-- What stands before a place, by lines. -/
theorem exists_closed (text : Text) :
    ∃ above left, text = closed above ++ left ∧ (∀ line ∈ above, '\n' ∉ line) ∧ '\n' ∉ left := by
  have hlines : ∀ line ∈ lines text, '\n' ∉ line := fun line => not_mem_of_mem_lines
  rcases List.eq_nil_or_concat (lines text) with hnil | ⟨above, left, hconcat⟩
  · exact absurd hnil (split_ne_nil '\n' text)
  · rw [List.concat_eq_append] at hconcat
    have htext := joinLines_lines text
    rw [hconcat, joinLines_append_cons] at htext
    rw [hconcat] at hlines
    exact ⟨above, left, by simpa using htext.symm,
      fun line hline => hlines line (by simp [hline]), hlines left (by simp)⟩

/-- What stands behind a place, by lines. -/
theorem exists_opened (text : Text) :
    ∃ right below, text = right ++ opened below ∧ '\n' ∉ right ∧
      ∀ line ∈ below, '\n' ∉ line := by
  have hlines : ∀ line ∈ lines text, '\n' ∉ line := fun line => not_mem_of_mem_lines
  obtain ⟨right, below, hcons⟩ := List.exists_cons_of_ne_nil (split_ne_nil '\n' text)
  have htext := joinLines_lines text
  rw [lines] at htext hlines
  rw [hcons, joinLines_cons] at htext
  rw [hcons] at hlines
  exact ⟨right, below, htext.symm, hlines right (by simp),
    fun line hline => hlines line (by simp [hline])⟩

/-! ### One blank -/

/-- What is left of a text without one space or tab at its start. -/
def dropBlank : Text → Text
  | c :: rest => if c = ' ' ∨ c = '\t' then rest else c :: rest
  | [] => []

theorem exists_blank (text : Text) :
    ∃ blank, text = blank ++ dropBlank text ∧ (blank = [] ∨ blank = [' '] ∨ blank = ['\t']) := by
  cases text with
  | nil => exact ⟨[], rfl, .inl rfl⟩
  | cons c rest =>
      by_cases hblank : c = ' ' ∨ c = '\t'
      · refine ⟨[c], by simp [dropBlank, hblank], .inr ?_⟩
        rcases hblank with rfl | rfl
        · exact .inl rfl
        · exact .inr rfl
      · exact ⟨[], by simp [dropBlank, hblank], .inl rfl⟩

end Text

end PlainC
