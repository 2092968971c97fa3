import PlainC.Proofs.Position

/-!
# Sources as texts

Every operation on the lines of a source is an operation on its text. A span addresses a piece of the
text that begins at its first position and ends behind its last one; deleting columns takes a piece
without a line feed out of the text. These statements hold in both directions, so they also say when an
operation is refused.
-/

namespace PlainC

open Position

namespace Source

theorem toText_ofText (text : Text) : (ofText text).toText = text := Text.joinLines_lines text

theorem ofText_place {above below : List Text} {line : Text}
    (habove : ∀ other ∈ above, '\n' ∉ other) (hline : '\n' ∉ line)
    (hbelow : ∀ other ∈ below, '\n' ∉ other) :
    ofText (Text.closed above ++ line ++ Text.opened below) = ⟨above ++ line :: below⟩ := by
  rw [ofText, Text.lines_place habove hline hbelow]

theorem not_mem_of_mem_lines_ofText {text line : Text} (hline : line ∈ (ofText text).lines) :
    '\n' ∉ line :=
  Text.not_mem_of_mem_lines hline

/-! ### Lines by number -/

theorem line?_eq_some_iff {source : Source} {n : Nat} {line : Text} :
    source.line? n = some line ↔
      ∃ above below, source.lines = above ++ line :: below ∧ n = above.length + 1 := by
  cases n with
  | zero => simp [line?]
  | succ n =>
      rw [line?, List.getElem?_eq_some_iff]
      constructor
      · rintro ⟨hn, hget⟩
        refine ⟨source.lines.take n, source.lines.drop (n + 1), ?_, ?_⟩
        · rw [← hget, ← List.drop_eq_getElem_cons hn, List.take_append_drop]
        · rw [List.length_take, Nat.min_eq_left (Nat.le_of_lt hn)]
      · rintro ⟨above, below, hlines, hn⟩
        have hn' : n = above.length := by omega
        subst hn'
        exact ⟨by simp [hlines], by simp [hlines]⟩

theorem line?_place (above below : List Text) (line : Text) :
    (⟨above ++ line :: below⟩ : Source).line? (above.length + 1) = some line :=
  line?_eq_some_iff.mpr ⟨above, below, rfl, rfl⟩

/-- The line on which a text goes on with something else than a line feed is not empty. -/
theorem exists_line?_ofText {c : Char} (hc : c ≠ '\n') (above rest : Text) :
    ∃ line, (ofText (above ++ c :: rest)).line? (origin.after above).line = some line ∧
      line ≠ [] := by
  obtain ⟨lines, left, rfl, hlines, hleft⟩ := Text.exists_closed above
  obtain ⟨right, below, hrest, hright, hbelow⟩ := Text.exists_opened (c :: rest)
  have hne : right ≠ [] := by
    rintro rfl
    cases below with
    | nil => cases hrest
    | cons line below =>
        rw [List.nil_append, Text.opened_cons, List.cons_append, List.cons.injEq] at hrest
        exact hc hrest.1
  have hjoined : '\n' ∉ left ++ right := by simp [hleft, hright]
  refine ⟨left ++ right, ?_, by simp [hne]⟩
  rw [hrest, List.append_assoc, ← List.append_assoc left, ← List.append_assoc,
    ofText_place hlines hjoined hbelow, origin_after_place hlines hleft]
  exact line?_place lines below (left ++ right)

theorem line?_clearLines (source : Source) (first last n : Nat) :
    (source.clearLines first last).line? n =
      if first ≤ n ∧ n ≤ last then (source.line? n).map fun _ => [] else source.line? n := by
  cases n with
  | zero => simp [line?]
  | succ n =>
      simp only [line?, clearLines, List.getElem?_mapIdx]
      split <;> simp

/-! ### Deleting columns -/

theorem withoutColumns?_eq_some_iff {line edited : Text} {first last : Nat} :
    withoutColumns? line first last = some edited ↔
      ∃ left cut right, line = left ++ cut ++ right ∧ first = Text.byteLength left + 1 ∧
        last = Text.byteLength left + Text.byteLength cut ∧ edited = left ++ right := by
  cases first with
  | zero => simp [withoutColumns?]
  | succ start =>
      rw [withoutColumns?]
      constructor
      · intro hedit
        split at hedit <;> rename_i hle
        · simp only [bind, Option.bind_eq_some_iff, Text.take?_eq_some_iff, Text.drop?_eq_some_iff,
            pure, Option.some.injEq] at hedit
          obtain ⟨left, ⟨after, hleft, hstart⟩, right, ⟨before, hright, hlast⟩, hedited⟩ := hedit
          obtain ⟨cut, hbefore, -⟩ := Text.exists_append_of_byteLength_le (hleft.symm.trans hright)
            (by omega)
          subst hbefore
          rw [Text.byteLength_append] at hlast
          exact ⟨left, cut, right, hright, by omega, hlast.symm, hedited.symm⟩
        · cases hedit
      · rintro ⟨left, cut, right, hline, hfirst, hlast, rfl⟩
        rw [if_pos (by omega)]
        have htake : Text.take? start line = some left :=
          Text.take?_eq_some_iff.mpr ⟨cut ++ right, by simp [hline], by omega⟩
        have hdrop : Text.drop? last line = some right :=
          Text.drop?_eq_some_iff.mpr ⟨left ++ cut, hline, by simp [hlast]⟩
        rw [htake, hdrop]
        rfl

theorem deleteColumns?_eq_some_iff {source edited : Source} {n first last : Nat} :
    source.deleteColumns? n first last = some edited ↔
      ∃ above left cut right below, source.lines = above ++ (left ++ cut ++ right) :: below ∧
        n = above.length + 1 ∧ first = Text.byteLength left + 1 ∧
        last = Text.byteLength left + Text.byteLength cut ∧
        edited = ⟨above ++ (left ++ right) :: below⟩ := by
  simp only [deleteColumns?, bind, Option.bind_eq_some_iff, line?_eq_some_iff,
    withoutColumns?_eq_some_iff, pure, Option.some.injEq]
  constructor
  · rintro ⟨_, ⟨above, below, hlines, hn⟩, _, ⟨left, cut, right, rfl, hfirst, hlast, rfl⟩, hedited⟩
    refine ⟨above, left, cut, right, below, hlines, hn, hfirst, hlast, ?_⟩
    rw [← hedited, hlines, hn]
    simp
  · rintro ⟨above, left, cut, right, below, hlines, hn, hfirst, hlast, hedited⟩
    refine ⟨_, ⟨above, below, hlines, hn⟩, _, ⟨left, cut, right, rfl, hfirst, hlast, rfl⟩, ?_⟩
    rw [hedited, hlines, hn]
    simp

/-- Deleting columns takes out of the text the piece without a line feed that stands in them. -/
theorem deleteColumns?_ofText_eq_some_iff {text : Text} {edited : Source} {n first last : Nat} :
    (ofText text).deleteColumns? n first last = some edited ↔
      ∃ front cut rest, text = front ++ cut ++ rest ∧ '\n' ∉ cut ∧
        origin.after front = ⟨n, first⟩ ∧ last + 1 = first + Text.byteLength cut ∧
        edited = ofText (front ++ rest) := by
  rw [deleteColumns?_eq_some_iff]
  constructor
  · rintro ⟨above, left, cut, right, below, hlines, rfl, rfl, rfl, rfl⟩
    have hfeed : ∀ line ∈ above ++ (left ++ cut ++ right) :: below, '\n' ∉ line := by
      rw [← hlines]
      exact fun line => not_mem_of_mem_lines_ofText
    have habove : ∀ line ∈ above, '\n' ∉ line := fun line hline => hfeed line (by simp [hline])
    have hbelow : ∀ line ∈ below, '\n' ∉ line := fun line hline => hfeed line (by simp [hline])
    have hline := hfeed (left ++ cut ++ right) (by simp)
    simp only [List.mem_append, not_or] at hline
    have htext : text = Text.closed above ++ (left ++ cut ++ right) ++ Text.opened below := by
      rw [← Text.joinLines_append_cons, ← hlines]
      exact (toText_ofText text).symm
    refine ⟨Text.closed above ++ left, cut, right ++ Text.opened below, by simp [htext], hline.1.2,
      origin_after_place habove hline.1.1, by omega, ?_⟩
    rw [← ofText_place habove (by simp [hline]) hbelow]
    simp
  · rintro ⟨front, cut, rest, rfl, hcut, hfirst, hlast, rfl⟩
    obtain ⟨above, left, rfl, habove, hleft⟩ := Text.exists_closed front
    obtain ⟨right, below, rfl, hright, hbelow⟩ := Text.exists_opened rest
    rw [origin_after_place habove hleft, Position.mk.injEq] at hfirst
    refine ⟨above, left, cut, right, below, ?_, hfirst.1.symm, hfirst.2.symm, by omega, ?_⟩
    · rw [show Text.closed above ++ left ++ cut ++ (right ++ Text.opened below) =
          Text.closed above ++ (left ++ cut ++ right) ++ Text.opened below by simp,
        ofText_place habove (by simp [hleft, hcut, hright]) hbelow]
    · rw [← ofText_place habove (by simp [hleft, hright]) hbelow]
      simp

/-! ### Addressed pieces

A position of a source has a line and a part of that line to its left; the text before the position is
made of the lines above and of that part. -/

section Extract

variable {source : Source} {text piece front : Text} {position : Position} {span : Span}

/-- That a text is what stands before a position. -/
def StandsBefore (source : Source) (position : Position) (front : Text) : Prop :=
  ∃ above left right below, source.lines = above ++ (left ++ right) :: below ∧
    position = ⟨above.length + 1, Text.byteLength left + 1⟩ ∧ front = Text.closed above ++ left

theorem StandsBefore.prefix_toText (h : source.StandsBefore position front) :
    front <+: source.toText := by
  obtain ⟨above, left, right, below, hlines, -, rfl⟩ := h
  refine ⟨right ++ Text.opened below, ?_⟩
  rw [toText, hlines, Text.joinLines_append_cons]
  simp only [List.append_assoc]

/-- The byte of the text at which a position stands. -/
def offset (source : Source) (position : Position) : Nat :=
  Text.byteLength (Text.closed (source.lines.take (position.line - 1))) + (position.col - 1)

theorem StandsBefore.byteLength (h : source.StandsBefore position front) :
    Text.byteLength front = source.offset position := by
  obtain ⟨above, left, right, below, hlines, rfl, rfl⟩ := h
  rw [offset, hlines, Text.byteLength_append, Nat.add_sub_cancel, Nat.add_sub_cancel, List.take_left]

/-- Before a position of a text stands what is read to reach it. -/
theorem standsBefore_ofText_iff :
    (ofText text).StandsBefore position front ↔ front <+: text ∧ origin.after front = position := by
  constructor
  · intro h
    refine ⟨toText_ofText text ▸ h.prefix_toText, ?_⟩
    obtain ⟨above, left, right, below, hlines, rfl, rfl⟩ := h
    have hfeed : ∀ line ∈ above ++ (left ++ right) :: below, '\n' ∉ line := by
      rw [← hlines]
      exact fun line => not_mem_of_mem_lines_ofText
    have habove : ∀ line ∈ above, '\n' ∉ line := fun line hline => hfeed line (by simp [hline])
    have hline := hfeed (left ++ right) (by simp)
    simp only [List.mem_append, not_or] at hline
    exact origin_after_place habove hline.1
  · rintro ⟨⟨rest, rfl⟩, rfl⟩
    obtain ⟨above, left, rfl, habove, hleft⟩ := Text.exists_closed front
    obtain ⟨right, below, rfl, hright, hbelow⟩ := Text.exists_opened rest
    refine ⟨above, left, right, below, ?_, origin_after_place habove hleft, rfl⟩
    rw [show Text.closed above ++ left ++ (right ++ Text.opened below) =
        Text.closed above ++ (left ++ right) ++ Text.opened below by simp,
      ofText_place habove (by simp [hleft, hright]) hbelow]

theorem standsBefore_of_extract?_within_line (hwithin : span.first.line = span.last.line)
    (hextract : source.extract? span = some piece) :
    ∃ front, source.StandsBefore span.first front ∧
      source.StandsBefore ⟨span.last.line, span.last.col + 1⟩ (front ++ piece) := by
  obtain ⟨⟨n, col⟩, ⟨n', last⟩⟩ := span
  simp only at hwithin
  subst hwithin
  cases col with
  | zero => simp [extract?] at hextract
  | succ start =>
      simp only [extract?, bind, Option.bind_eq_some_iff, if_pos, line?_eq_some_iff,
        Text.between?_eq_some_iff] at hextract
      obtain ⟨_, ⟨above, below, hlines, rfl⟩, _, -, left, right, rfl, rfl, rfl⟩ := hextract
      refine ⟨Text.closed above ++ left, ⟨above, left, piece ++ right, below, ?_, rfl, rfl⟩,
        above, left ++ piece, right, below, hlines, ?_, List.append_assoc _ _ _⟩
      · rw [hlines, List.append_assoc]
      · rw [Text.byteLength_append]

theorem standsBefore_of_extract?_across_lines (hacross : span.first.line < span.last.line)
    (hextract : source.extract? span = some piece) :
    ∃ front, source.StandsBefore span.first front ∧
      source.StandsBefore ⟨span.last.line, span.last.col + 1⟩ (front ++ piece) := by
  obtain ⟨⟨n, col⟩, ⟨n', last⟩⟩ := span
  simp only at hacross
  cases col with
  | zero => simp [extract?] at hextract
  | succ start =>
      simp only [extract?, bind, Option.bind_eq_some_iff, if_neg (Nat.ne_of_lt hacross),
        if_pos hacross, line?_eq_some_iff, Text.drop?_eq_some_iff, Text.take?_eq_some_iff, pure,
        Option.some.injEq] at hextract
      obtain ⟨_, ⟨above, behind, hlines, rfl⟩, _, ⟨before, below, hlines', rfl⟩, head,
        ⟨left, rfl, rfl⟩, tail, ⟨right, rfl, rfl⟩, rfl⟩ := hextract
      -- The last line stands behind the first one, with the inner lines between them.
      obtain ⟨inner, rfl, rfl⟩ : ∃ inner, before = above ++ (left ++ head) :: inner ∧
          behind = inner ++ (tail ++ right) :: below := by
        rcases List.append_eq_append_iff.mp (hlines.symm.trans hlines') with
          ⟨between, hbefore, hbehind⟩ | ⟨between, habove, -⟩
        · cases between with
          | nil => simp [hbefore] at hacross
          | cons first inner =>
              simp only [List.cons_append, List.cons.injEq] at hbehind
              exact ⟨inner, by rw [hbefore, hbehind.1], hbehind.2⟩
        · rw [habove, List.length_append] at hacross
          omega
      have hinner : (source.lines.take ((above ++ (left ++ head) :: inner).length + 1 - 1)).drop
          (above.length + 1) = inner := by
        rw [hlines', Nat.add_sub_cancel, List.take_left, List.drop_append]
        simp
      rw [hinner, List.cons_append, Text.joinLines_cons]
      refine ⟨Text.closed above ++ left, ⟨above, left, head, _, hlines, rfl, rfl⟩,
        above ++ (left ++ head) :: inner, tail, right, below, hlines', rfl, ?_⟩
      rw [Text.append_opened_concat]
      simp

theorem extract?_line (above below : List Text) (left middle right : Text) :
    (⟨above ++ (left ++ middle ++ right) :: below⟩ : Source).extract?
      ⟨⟨above.length + 1, Text.byteLength left + 1⟩,
        ⟨above.length + 1, Text.byteLength left + Text.byteLength middle⟩⟩ = some middle := by
  simp only [extract?, line?_place, bind, Option.bind_some, if_pos]
  exact Text.between?_eq_some_iff.mpr ⟨left, right, rfl, rfl, rfl⟩

theorem extract?_lines (above inner below : List Text) (left head tail right : Text) :
    (⟨above ++ (left ++ head) :: inner ++ (tail ++ right) :: below⟩ : Source).extract?
      ⟨⟨above.length + 1, Text.byteLength left + 1⟩,
        ⟨(above ++ (left ++ head) :: inner).length + 1, Text.byteLength tail⟩⟩ =
      some (head ++ Text.opened (inner ++ [tail])) := by
  have hacross : above.length + 1 < (above ++ (left ++ head) :: inner).length + 1 := by simp
  have hline : (⟨above ++ (left ++ head) :: inner ++ (tail ++ right) :: below⟩ : Source).line?
      (above.length + 1) = some (left ++ head) := by
    rw [List.append_assoc]
    exact line?_place above _ _
  have hdrop : Text.drop? (Text.byteLength left) (left ++ head) = some head :=
    Text.drop?_eq_some_iff.mpr ⟨left, rfl, rfl⟩
  have htake : Text.take? (Text.byteLength tail) (tail ++ right) = some tail :=
    Text.take?_eq_some_iff.mpr ⟨right, rfl, rfl⟩
  have hbetween : (above ++ (left ++ head) :: inner).drop (above.length + 1) = inner := by
    rw [List.drop_append]
    simp
  simp only [extract?, hline, line?_place, bind, Option.bind_some, if_neg (Nat.ne_of_lt hacross),
    if_pos hacross, hdrop, htake, pure, Nat.add_sub_cancel, List.take_left, hbetween]
  rw [List.cons_append, Text.joinLines_cons]

theorem extract?_of_standsBefore (hfirst : source.StandsBefore span.first front)
    (hlast : source.StandsBefore ⟨span.last.line, span.last.col + 1⟩ (front ++ piece)) :
    source.extract? span = some piece := by
  obtain ⟨⟨n, col⟩, ⟨n', last⟩⟩ := span
  obtain ⟨lines⟩ := source
  obtain ⟨above, left, right, below, hlines, hposition, rfl⟩ := hfirst
  obtain ⟨above', left', right', below', hlines', hposition', hfront⟩ := hlast
  simp only [Position.mk.injEq, Nat.add_right_cancel_iff] at hlines hlines' hposition hposition'
  obtain ⟨rfl, rfl⟩ := hposition
  obtain ⟨rfl, rfl⟩ := hposition'
  rcases List.append_eq_append_iff.mp (hlines.symm.trans hlines') with
    ⟨between, rfl, hbelow⟩ | ⟨between, rfl, hbelow⟩
  · cases between with
    | nil =>
        simp only [List.nil_append, List.cons.injEq] at hbelow
        rw [List.append_nil, List.append_assoc, List.append_cancel_left_eq] at hfront
        subst hfront
        rw [hlines', Text.byteLength_append, List.append_nil]
        exact extract?_line above below' left piece right'
    | cons line inner =>
        simp only [List.cons_append, List.cons.injEq] at hbelow
        obtain ⟨rfl, rfl⟩ := hbelow
        have hpiece : piece = right ++ Text.opened (inner ++ [left']) := by
          rw [Text.append_opened_concat]
          simpa using hfront
        rw [hlines', hpiece]
        exact extract?_lines above inner below' left right left' right'
  · cases between with
    | nil =>
        simp only [List.nil_append, List.cons.injEq] at hbelow
        rw [List.append_nil, List.append_assoc, List.append_cancel_left_eq] at hfront
        subst hfront
        rw [hlines', Text.byteLength_append, List.append_nil]
        exact extract?_line above' below' left piece right'
    | cons line inner =>
        simp only [List.cons_append, List.cons.injEq] at hbelow
        obtain ⟨rfl, rfl⟩ := hbelow
        -- The later position stands on a line above, so less is before it.
        have hlength := congrArg List.length hfront
        simp at hlength

/-- A span addresses what stands between its first position and the one behind its last. -/
theorem extract?_eq_some_iff :
    source.extract? span = some piece ↔
      ∃ front, source.StandsBefore span.first front ∧
        source.StandsBefore ⟨span.last.line, span.last.col + 1⟩ (front ++ piece) := by
  constructor
  · intro hextract
    rcases Nat.lt_trichotomy span.first.line span.last.line with hlt | heq | hgt
    · exact standsBefore_of_extract?_across_lines hlt hextract
    · exact standsBefore_of_extract?_within_line heq hextract
    · obtain ⟨⟨n, col⟩, ⟨n', last⟩⟩ := span
      simp only at hgt
      simp only [extract?, bind, Option.bind_eq_some_iff, if_neg (Nat.ne_of_gt hgt),
        if_neg (Nat.lt_asymm hgt)] at hextract
      obtain ⟨_, -, _, -, hnone⟩ := hextract
      cases col <;> simp at hnone
  · rintro ⟨front, hfirst, hlast⟩
    exact extract?_of_standsBefore hfirst hlast

/-- A span addresses the piece of a text that begins at its first position and ends behind its last. -/
theorem extract?_ofText_eq_some_iff :
    (ofText text).extract? span = some piece ↔
      ∃ front rest, text = front ++ piece ++ rest ∧ origin.after front = span.first ∧
        origin.after (front ++ piece) = ⟨span.last.line, span.last.col + 1⟩ := by
  simp only [extract?_eq_some_iff, standsBefore_ofText_iff]
  constructor
  · rintro ⟨front, ⟨-, hfirst⟩, ⟨rest, htext⟩, hlast⟩
    exact ⟨front, rest, htext.symm, hfirst, hlast⟩
  · rintro ⟨front, rest, rfl, hfirst, hlast⟩
    exact ⟨front, ⟨⟨piece ++ rest, by simp⟩, hfirst⟩, ⟨rest, rfl⟩, hlast⟩

end Extract

/-! ### Deleting a word -/

theorem blankFollows_ofText {front : Text} (rest : Text) {n col : Nat}
    (hfront : origin.after front = ⟨n, col + 1⟩) :
    (ofText (front ++ rest)).blankFollows n col ↔
      ∃ c behind, rest = c :: behind ∧ (c = ' ' ∨ c = '\t') := by
  obtain ⟨above, left, rfl, habove, hleft⟩ := Text.exists_closed front
  obtain ⟨right, below, rfl, hright, hbelow⟩ := Text.exists_opened rest
  rw [origin_after_place habove hleft, Position.mk.injEq] at hfront
  obtain ⟨rfl, hcol⟩ := hfront
  have hdrop : Text.drop? col (left ++ right) = some right :=
    Text.drop?_eq_some_iff.mpr ⟨left, rfl, Nat.succ.inj hcol⟩
  rw [show Text.closed above ++ left ++ (right ++ Text.opened below) =
      Text.closed above ++ (left ++ right) ++ Text.opened below by simp,
    ofText_place habove (by simp [hleft, hright]) hbelow]
  simp only [blankFollows, line?_place, bind, Option.bind_some, hdrop]
  cases right with
  | nil =>
      -- The line ends here, so what follows is a line feed or nothing.
      cases below with
      | nil => simp
      | cons line below => simp
  | cons c right => simp

/-- Deleting a word takes one blank behind it along. -/
theorem deleteToken?_ofText {front word : Text} (rest : Text) {span : Span} (hword : '\n' ∉ word)
    (hfirst : origin.after front = span.first)
    (hlast : origin.after (front ++ word) = ⟨span.last.line, span.last.col + 1⟩) :
    (ofText (front ++ word ++ rest)).deleteToken? span = some (ofText (front ++ rest.dropBlank)) := by
  have hend := hlast
  rw [after_append, hfirst, after_of_not_mem hword, Position.mk.injEq] at hend
  obtain ⟨hline, hcol⟩ := hend
  have hfollows := blankFollows_ofText rest hlast
  rw [deleteToken?, if_pos (by simp [Span.isWithinLine, hline]), hline]
  simp only [deleteColumns?_ofText_eq_some_iff]
  cases rest with
  | nil =>
      have hnone : (ofText (front ++ word ++ [])).blankFollows span.last.line span.last.col =
          false := by
        simpa using hfollows
      rw [hnone, if_neg Bool.false_ne_true]
      exact ⟨front, word, [], rfl, hword, by rw [hfirst, ← hline], by omega, rfl⟩
  | cons c rest =>
      by_cases hblank : c = ' ' ∨ c = '\t'
      · have hsome : (ofText (front ++ word ++ c :: rest)).blankFollows span.last.line span.last.col :=
          hfollows.mpr ⟨c, rest, rfl, hblank⟩
        rw [if_pos hsome]
        refine ⟨front, word ++ [c], rest, by simp, ?_, by rw [hfirst, ← hline], ?_, ?_⟩
        · rcases hblank with rfl | rfl <;> simp [hword]
        · have hsize : c.utf8Size = 1 := by rcases hblank with rfl | rfl <;> rfl
          simp only [Text.byteLength_append, Text.byteLength_cons, Text.byteLength_nil, hsize]
          omega
        · rw [Text.dropBlank, if_pos hblank]
      · have hnone : (ofText (front ++ word ++ c :: rest)).blankFollows span.last.line
            span.last.col = false := by
          rw [← Bool.not_eq_true, hfollows]
          rintro ⟨c', behind, heq, hblank'⟩
          cases heq
          exact hblank hblank'
        rw [hnone, if_neg Bool.false_ne_true]
        refine ⟨front, word, c :: rest, rfl, hword, by rw [hfirst, ← hline], by omega, ?_⟩
        rw [Text.dropBlank, if_neg hblank]

end Source

end PlainC
