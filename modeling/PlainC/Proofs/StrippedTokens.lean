import PlainC.Stripping
import PlainC.Proofs.Trivia

/-!
# The tokens that a stripped text keeps

The keyword `static` goes with one blank behind it, and the trivia in front of it meets what follows.
Nothing merges there but blanks with blanks, so the tokens that remain are those behind the keyword. On
the line of the keyword they move left by the bytes that went; all others stay where they are.
-/

namespace PlainC

namespace Position

variable {position : Position} {line n : Nat}

/-- A position in a text as one in the text with `n` more bytes before it, on one line. -/
def push (line n : Nat) (position : Position) : Position :=
  if position.line = line then ⟨position.line, position.col + n⟩ else position

theorem push_self (position : Position) (n : Nat) :
    position.push position.line n = ⟨position.line, position.col + n⟩ :=
  if_pos rfl

theorem push_of_lt (hline : line < position.line) : position.push line n = position :=
  if_neg (Nat.ne_of_gt hline)

theorem push_next (position : Position) (line n : Nat) :
    push line n ⟨position.line, position.col + 1⟩ =
      ⟨(position.push line n).line, (position.push line n).col + 1⟩ := by
  rw [push, push]
  split
  · rw [Nat.add_right_comm]
  · rfl

theorem after_push (hline : line ≤ position.line) (text : Text) :
    (position.push line n).after text = (position.after text).push line n := by
  induction text generalizing position with
  | nil => rfl
  | cons c text ih =>
      have hstep : (position.push line n).step c = (position.step c).push line n := by
        by_cases hfeed : c = '\n'
        · have hbeyond : line < (position.step c).line := by
            rw [step, if_pos hfeed]
            exact Nat.lt_succ_of_le hline
          rw [push_of_lt hbeyond, step, step, if_pos hfeed, if_pos hfeed, push]
          split <;> rfl
        · rw [step, step, if_neg hfeed, if_neg hfeed, push, push]
          split
          · rw [Nat.add_right_comm]
          · rfl
      have hline' : line ≤ (position.step c).line := by
        rw [step]
        split
        · exact Nat.le_succ_of_le hline
        · exact hline
      rw [after_cons, after_cons, hstep, ih hline']

theorem one_le_col_after (hcol : 1 ≤ position.col) (text : Text) : 1 ≤ (position.after text).col := by
  induction text generalizing position with
  | nil => exact hcol
  | cons c text ih =>
      refine ih ?_
      rw [step]
      split
      · exact Nat.le_refl 1
      · exact Nat.le_add_right_of_le hcol

end Position

open Position

namespace Token

variable {start : Position} {line n : Nat}

/-- A token of a text as one of the text with `n` more bytes before it, on one line. -/
def push (line n : Nat) (token : Token) : Token :=
  { token with span := ⟨token.span.first.push line n, token.span.last.push line n⟩ }

theorem lastPosition_push (hline : line ≤ start.line) (spelling : Text) :
    lastPosition (start.push line n) spelling = (lastPosition start spelling).map (·.push line n) := by
  rw [lastPosition, lastPosition, after_push hline]
  split <;> rfl

/-- Bytes before lexemes, on the line where these begin, move the tokens on that line alone. -/
theorem place_push (hline : line ≤ start.line) (lexemes : List Lexeme) :
    place (start.push line n) lexemes = (place start lexemes).map (List.map (push line n)) := by
  induction lexemes generalizing start with
  | nil => rfl
  | cons lexeme lexemes ih =>
      have hline' : line ≤ (start.after lexeme.text).line := by
        rw [line_after]
        exact Nat.le_add_right_of_le hline
      rw [place, place, after_push hline, ih hline', lastPosition_push hline]
      split
      · rfl
      · cases lastPosition start lexeme.text with
        | error cause => rfl
        | ok last =>
            cases place (start.after lexeme.text) lexemes with
            | error cause => rfl
            | ok others => rfl

end Token

theorem Text.dropBlank_append {text : Text} (hne : text ≠ []) (rest : Text) :
    (text ++ rest).dropBlank = text.dropBlank ++ rest := by
  obtain ⟨c, text, rfl⟩ := List.exists_cons_of_ne_nil hne
  rw [List.cons_append, Text.dropBlank, Text.dropBlank]
  split <;> rfl

namespace Stripping

open Source

variable {text : Text} {span : Span} {token : Token} {others : List Token}

/-- How a span is written whose first token is `static`. -/
structure LeadsWithStatic (text : Text) (span : Span) (token : Token) (others : List Token)
    (front gap behind rest : Text) : Prop where
  text : text = front ++ (gap ++ "static".toList ++ behind) ++ rest
  first : origin.after front = span.first
  last : origin.after (front ++ (gap ++ "static".toList ++ behind)) = ⟨span.last.line, span.last.col + 1⟩
  keyword : origin.after (front ++ gap) = token.span.first
  keyword_last : origin.after (front ++ gap ++ "static".toList) =
    ⟨token.span.last.line, token.span.last.col + 1⟩
  trivia : Token.Gap ("static".toList ++ behind) gap
  others : Token.place (origin.after (front ++ gap ++ "static".toList)) (lex behind) = .ok others

theorem exists_leadsWithStatic (htokens : (ofText text).tokens span = .ok (token :: others))
    (hkind : token.kind = some .staticKeyword) :
    ∃ front gap behind rest, LeadsWithStatic text span token others front gap behind rest := by
  rw [Source.tokens] at htokens
  split at htokens <;> rename_i hextract
  · cases htokens
  · rename_i piece
    obtain ⟨front, rest, htext, hfirst, hend⟩ := extract?_ofText_eq_some_iff.mp hextract
    obtain ⟨gap, behind, hpiece, hgap, hkind', hspelling, hstart, hlast, hothers⟩ :=
      Token.exists_gap_of_place htokens
    obtain ⟨pattern, hrule, hmatches⟩ := Lexer.exists_of_munch (hkind'.symm.trans hkind)
    rw [pattern_of_static hrule, Pattern.matches_literal_iff] at hmatches
    have hbehind : behind = "static".toList ++ behind.drop (Lexer.munch behind).2 := by
      rw [← hmatches, List.take_append_drop]
    rw [hbehind] at hgap
    rw [hbehind, ← List.append_assoc] at hpiece
    rw [hspelling, hmatches] at hlast hothers
    rw [← hfirst, ← after_append] at hstart hothers
    rw [hpiece] at htext hend
    rw [← List.append_assoc] at hothers
    refine ⟨front, gap, _, rest, htext, hfirst, hend, hstart.symm, ?_, hgap, hothers⟩
    rw [after_append, ← hstart]
    exact Token.after_of_lastPosition hlast (by decide) (by decide)

theorem LeadsWithStatic.removeLeadingStatic? {front gap behind rest : Text}
    (h : LeadsWithStatic text span token others front gap behind rest)
    (hkind : token.kind = some .staticKeyword) :
    removeLeadingStatic? (ofText text) (token :: others) =
      some (ofText (front ++ gap ++ (behind ++ rest).dropBlank)) := by
  rw [Stripping.removeLeadingStatic?, if_pos hkind,
    ← deleteToken?_ofText (behind ++ rest) (by decide) h.keyword h.keyword_last, h.text]
  simp only [List.append_assoc]

theorem removeLeadingStatic?_eq_none_iff (htokens : (ofText text).tokens span = .ok (token :: others)) :
    removeLeadingStatic? (ofText text) (token :: others) = none ↔ token.kind ≠ some .staticKeyword := by
  constructor
  · intro hnone hkind
    obtain ⟨front, gap, behind, rest, hleads⟩ := exists_leadsWithStatic htokens hkind
    rw [hleads.removeLeadingStatic? hkind] at hnone
    cases hnone
  · exact fun hkind => if_neg hkind

/-- Without the keyword and the blanks behind it, the span has the other tokens. -/
theorem LeadsWithStatic.exists_tokens {front gap behind rest blank : Text} {removed : Nat}
    (h : LeadsWithStatic text span token others front gap (blank ++ behind) rest)
    (hblank : ∀ c ∈ blank, c ∈ Token.blankChars) (hfeed : '\n' ∉ blank)
    (hremoved : removed = Text.byteLength ("static".toList ++ blank)) :
    ∃ last kept, span.last = last.push token.span.first.line removed ∧
      (ofText (front ++ (gap ++ behind) ++ rest)).tokens ⟨span.first, last⟩ = .ok kept ∧
      others = kept.map (Token.push token.span.first.line removed) := by
  -- Behind the keyword and the blanks, reading goes on as from the keyword, but further to the right.
  have hmove : token.span.first.after ("static".toList ++ blank) =
      token.span.first.push token.span.first.line removed := by
    rw [after_of_not_mem, push_self, hremoved]
    rw [List.mem_append, not_or]
    exact ⟨by decide, hfeed⟩
  have hend : (⟨span.last.line, span.last.col + 1⟩ : Position) =
      (token.span.first.after behind).push token.span.first.line removed :=
    calc (⟨span.last.line, span.last.col + 1⟩ : Position)
      _ = origin.after (front ++ gap ++ (("static".toList ++ blank) ++ behind)) := by
        rw [← h.last]
        simp only [List.append_assoc]
      _ = (token.span.first.push token.span.first.line removed).after behind := by
        rw [after_append, h.keyword, after_append, hmove]
      _ = _ := after_push (Nat.le_refl _) behind
  obtain ⟨last, hlast⟩ : ∃ last : Position, token.span.first.after behind = ⟨last.line, last.col + 1⟩ := by
    have hcol : 1 ≤ (token.span.first.after behind).col := by
      rw [← h.keyword, ← after_append]
      exact one_le_col_after (Nat.le_refl 1) _
    refine ⟨⟨(token.span.first.after behind).line, (token.span.first.after behind).col - 1⟩, ?_⟩
    rw [Nat.sub_add_cancel hcol]
  have hextract : (ofText (front ++ (gap ++ behind) ++ rest)).extract? ⟨span.first, last⟩ =
      some (gap ++ behind) := by
    refine extract?_ofText_eq_some_iff.mpr ⟨front, rest, rfl, h.first, ?_⟩
    rw [← List.append_assoc, after_append, h.keyword, hlast]
  have hplace : Token.place (token.span.first.push token.span.first.line removed) (lex behind) =
      .ok others := by
    rw [← h.others, Token.place_lex_blanks hblank, ← after_append, List.append_assoc, after_append,
      h.keyword, hmove]
  rw [Token.place_push (Nat.le_refl _)] at hplace
  cases hkept : Token.place token.span.first (lex behind) with
  | error cause =>
      rw [hkept] at hplace
      cases hplace
  | ok kept =>
      rw [hkept] at hplace
      cases hplace
      refine ⟨last, kept, ?_, ?_, rfl⟩
      · rw [hlast, push_next, Position.mk.injEq, Nat.add_right_cancel_iff] at hend
        exact congrArg₂ Position.mk hend.1 hend.2
      · rw [Source.tokens, hextract, ← hkept, ← h.keyword, after_append, h.first]
        exact h.trivia.place_lex ⟨'s', rfl, by decide⟩ behind span.first

/-- The tokens behind a leading `static` are what is left of a span when the keyword is removed. Behind
it on its line they were further to the right, by the bytes that went, and so was the end of the span. -/
theorem tokens_outlive_leading_static {second : Token}
    (htokens : (ofText text).tokens span = .ok (token :: second :: others))
    (hkind : token.kind = some .staticKeyword) :
    ∃ edited removed last next kept,
      removeLeadingStatic? (ofText text) (token :: second :: others) = some edited ∧
      Text.byteLength text = Text.byteLength edited.toText + removed ∧
      span.last = last.push token.span.first.line removed ∧
      edited.tokens ⟨span.first, last⟩ = .ok (next :: kept) ∧
      second :: others = (next :: kept).map (Token.push token.span.first.line removed) ∧
      (removeLeadingStatic? edited (next :: kept) = none ↔ second.kind ≠ some .staticKeyword) := by
  obtain ⟨front, gap, behind, rest, hleads⟩ := exists_leadsWithStatic htokens hkind
  have hremove := hleads.removeLeadingStatic? hkind
  have hne : behind ≠ [] := by
    rintro rfl
    cases hleads.others
  obtain ⟨blank, hbehind, hblank⟩ := Text.exists_blank behind
  have hblanks : (∀ c ∈ blank, c ∈ Token.blankChars) ∧ '\n' ∉ blank := by
    rcases hblank with rfl | rfl | rfl <;> simp [Token.blankChars]
  rw [Text.dropBlank_append hne] at hremove
  rw [hbehind] at hleads
  obtain ⟨last, kept, hlast, hkept, hothers⟩ := hleads.exists_tokens hblanks.1 hblanks.2 rfl
  cases kept with
  | nil => cases hothers
  | cons next kept =>
      rw [List.append_assoc, ← List.append_assoc gap, ← List.append_assoc front] at hremove
      refine ⟨_, _, last, next, kept, hremove, ?_, hlast, hkept, hothers, ?_⟩
      · rw [toText_ofText, hleads.text]
        simp only [Text.byteLength_append]
        omega
      · obtain ⟨hsecond, -⟩ := List.cons.inj hothers
        rw [removeLeadingStatic?_eq_none_iff hkept, hsecond]
        rfl

/-- A span behind a statement, with a comment before the keyword and another `static` behind it. The
last token is on the next line. -/
theorem tokens_outlive_leading_static_behind_comment :
    ∃ token second others,
      (ofText "a; /*s*/static static \\\nint".toList).tokens ⟨⟨1, 4⟩, ⟨2, 3⟩⟩ =
        .ok (token :: second :: others) ∧
      token.kind = some .staticKeyword ∧ second.kind = some .staticKeyword ∧
      ∃ edited removed last next kept,
        removeLeadingStatic? (ofText "a; /*s*/static static \\\nint".toList)
          (token :: second :: others) = some edited ∧
        27 = Text.byteLength edited.toText + removed ∧
        ⟨2, 3⟩ = last.push token.span.first.line removed ∧
        edited.tokens ⟨⟨1, 4⟩, last⟩ = .ok (next :: kept) ∧
        second :: others = (next :: kept).map (Token.push token.span.first.line removed) ∧
        (removeLeadingStatic? edited (next :: kept) = none ↔ second.kind ≠ some .staticKeyword) := by
  have htokens : (ofText "a; /*s*/static static \\\nint".toList).tokens ⟨⟨1, 4⟩, ⟨2, 3⟩⟩ =
      .ok [⟨some .staticKeyword, "static".toList, ⟨⟨1, 9⟩, ⟨1, 14⟩⟩⟩,
        ⟨some .staticKeyword, "static".toList, ⟨⟨1, 16⟩, ⟨1, 21⟩⟩⟩,
        ⟨some .identifier, "int".toList, ⟨⟨2, 1⟩, ⟨2, 3⟩⟩⟩] := by decide +kernel
  exact ⟨_, _, _, htokens, rfl, rfl, tokens_outlive_leading_static htokens rfl⟩

end Stripping

end PlainC
