import PlainC.Proofs.Edits
import PlainC.Proofs.LexedPieces
import PlainC.Proofs.OpenLiterals

/-!
# Tokens that end in a wide character

The end of a token is looked up at its last byte, and a text cannot be cut there if that byte lies inside a
character. So the tokens of a span have no places exactly if one of them ends in a character of several
bytes. Every rule for tokens that carry meaning describes only texts that end in ASCII; a token with such an
end is therefore one that no rule describes.
-/

namespace PlainC

namespace Text

/-- A text whose last character has several bytes. -/
def EndsWide (text : Text) : Prop := ∃ c, text.getLast? = some c ∧ 1 < c.utf8Size

theorem isCharBoundary_append {front text : Text} {n : Nat} :
    IsCharBoundary (toBytes (front ++ text)) (byteLength front + n) ↔
      IsCharBoundary (toBytes text) n := by
  induction front with
  | nil => rw [List.nil_append, byteLength_nil, Nat.zero_add]
  | cons c front ih =>
      have hpos := c.utf8Size_pos
      have hzero : c.utf8Size + byteLength front + n ≠ 0 := by omega
      have hle : c.utf8Size ≤ c.utf8Size + byteLength front + n := by omega
      have hrest : c.utf8Size + byteLength front + n - c.utf8Size = byteLength front + n := by omega
      rw [List.cons_append, byteLength_cons, isCharBoundary_cons, hrest, ih]
      simp only [hzero, hle, false_or, true_and]

/-- The byte before the end of a text begins a character unless the text ends wide. -/
theorem endsWide_iff {front text rest : Text} (hne : text ≠ []) :
    EndsWide text ↔
      ¬IsCharBoundary (toBytes (front ++ text ++ rest)) (byteLength front + byteLength text - 1) := by
  obtain ⟨inside, c, rfl⟩ := List.eq_nil_or_concat' text |>.resolve_left hne
  have hpos := c.utf8Size_pos
  have hbytes : byteLength front + byteLength (inside ++ [c]) - 1 =
      byteLength (front ++ inside) + (c.utf8Size - 1) := by
    simp only [byteLength_append, byteLength_cons, byteLength_nil]
    omega
  have htext : front ++ (inside ++ [c]) ++ rest = front ++ inside ++ c :: rest := by simp
  have hlast : EndsWide (inside ++ [c]) ↔ 1 < c.utf8Size := by simp [EndsWide]
  rw [hbytes, htext, isCharBoundary_append, isCharBoundary_cons, hlast]
  omega

end Text

namespace Pattern

variable {p : Pattern} {c : Char}

/-- Whether a text that is described ends in an ASCII character, if in any. -/
def endsAscii : Pattern → Bool
  | fail => true
  | done => true
  | char set => (char set).startsAscii
  | seq p q => q.endsAscii && (!q.nullable || p.endsAscii)
  | alt p q => p.endsAscii && q.endsAscii
  | star p => p.endsAscii

theorem toNat_lt_of_canEndIn (hascii : p.endsAscii) (hend : p.canEndIn c) : c.toNat < 128 := by
  induction p with
  | fail => cases hend
  | done => cases hend
  | char set => exact toNat_lt_of_mem hascii hend
  | seq p q ihp ihq =>
      rw [endsAscii, Bool.and_eq_true, Bool.or_eq_true] at hascii
      rw [canEndIn, Bool.or_eq_true, Bool.and_eq_true] at hend
      rcases hend with hend | ⟨hnullable, hend⟩
      · exact ihq hascii.1 hend
      · rw [hnullable] at hascii
        exact ihp (hascii.2.resolve_left Bool.false_ne_true) hend
  | alt p q ihp ihq =>
      rw [endsAscii, Bool.and_eq_true] at hascii
      rw [canEndIn, Bool.or_eq_true] at hend
      rcases hend with hend | hend
      · exact ihp hascii.1 hend
      · exact ihq hascii.2 hend
  | star p ih => exact ih hascii hend

end Pattern

section Lexemes

variable {text : Text} {lexeme : Lexeme}

theorem exists_append_of_mem_lex (hmem : lexeme ∈ lex text) :
    ∃ front rest, text = front ++ lexeme.text ++ rest ∧ lexeme.start = Text.byteLength front := by
  obtain ⟨earlier, later, hlex⟩ := List.append_of_mem hmem
  refine ⟨earlier.flatMap Lexeme.text, later.flatMap Lexeme.text, ?_, start_of_lex hlex⟩
  rw [← flatMap_text_lex text, hlex, List.flatMap_append, List.flatMap_cons, List.append_assoc]

theorem isCharBoundary_start (hmem : lexeme ∈ lex text) :
    Text.IsCharBoundary (Text.toBytes text) lexeme.start := by
  obtain ⟨front, rest, rfl, hstart⟩ := exists_append_of_mem_lex hmem
  rw [hstart, List.append_assoc, ← Nat.add_zero (Text.byteLength front), Text.isCharBoundary_append]
  exact Text.isCharBoundary_zero _

theorem endsWide_iff_stop (hmem : lexeme ∈ lex text) :
    Text.EndsWide lexeme.text ↔
      ¬Text.IsCharBoundary (Text.toBytes text) (lexeme.stop - 1) := by
  have hne := text_ne_nil_of_mem_lex hmem
  obtain ⟨front, rest, rfl, hstart⟩ := exists_append_of_mem_lex hmem
  rw [Lexeme.stop, hstart]
  exact Text.endsWide_iff hne

/-- What a rule describes ends wide only in a comment. -/
theorem kind_eq_none_of_endsWide (hmem : lexeme ∈ lex text) (htrivia : lexeme.isTrivia = false)
    (hwide : Text.EndsWide lexeme.text) : lexeme.kind = none := by
  have hrules : ∀ rule ∈ Token.rules, rule.1.isTrivia = false → rule.2.endsAscii := by decide
  obtain ⟨c, hlast, hsize⟩ := hwide
  cases hkind : lexeme.kind with
  | none => rfl
  | some kind =>
      obtain ⟨pattern, hrule, hmatches⟩ := exists_of_mem_lex hmem hkind
      rw [Lexeme.isTrivia, hkind, Option.any_some] at htrivia
      have hascii := Pattern.toNat_lt_of_canEndIn (hrules _ hrule htrivia)
        (Pattern.canEndIn_of_matches hmatches hlast)
      have hone : c.utf8Size = 1 := Char.utf8Size_eq_one_iff.mpr (Nat.le_of_lt_succ hascii)
      omega

end Lexemes

namespace Token

variable {start : Position}

theorem lastPosition_eq_error_iff {spelling : Text} {cause : Misplaced} :
    lastPosition start spelling = .error cause ↔ Text.EndsWide spelling ∧ cause = ⟨spelling⟩ := by
  have hwide : (spelling.getLast?.all fun c => c.utf8Size = 1) = false ↔ Text.EndsWide spelling := by
    rw [Text.EndsWide]
    cases hlast : spelling.getLast? with
    | none => simp
    | some c =>
        have hpos := c.utf8Size_pos
        simp only [Option.all_some, decide_eq_false_iff_not, Option.some.injEq, exists_eq_left']
        omega
  rw [lastPosition, ← hwide]
  split <;> rename_i hall
  · simp [hall]
  · simp [Bool.of_not_eq_true hall, eq_comm]

theorem place_cons_eq_error_iff {lexeme : Lexeme} {rest : List Lexeme} {cause : Misplaced} :
    place start (lexeme :: rest) = .error cause ↔
      lexeme.isTrivia = false ∧ Text.EndsWide lexeme.text ∧ cause = ⟨lexeme.text⟩ ∨
        (lexeme.isTrivia = false → ¬Text.EndsWide lexeme.text) ∧
          place (start.after lexeme.text) rest = .error cause := by
  rw [place]
  split <;> rename_i htrivia
  · simp [htrivia]
  · rw [Bool.of_not_eq_true htrivia]
    cases hlast : lastPosition start lexeme.text with
    | error cause' =>
        obtain ⟨hwide, rfl⟩ := lastPosition_eq_error_iff.mp hlast
        simp [hwide, bind, Except.bind, eq_comm]
    | ok last =>
        have hwide : ¬Text.EndsWide lexeme.text := by
          intro hwide
          have herror : lastPosition start lexeme.text = .error ⟨lexeme.text⟩ :=
            lastPosition_eq_error_iff.mpr ⟨hwide, rfl⟩
          rw [hlast] at herror
          cases herror
        cases hrest : place (start.after lexeme.text) rest <;>
          simp [hwide, bind, Except.bind, pure, Except.pure]

/-- Lexemes cannot be placed exactly if one that carries meaning ends wide. -/
theorem exists_place_eq_error_iff {lexemes : List Lexeme} :
    (∃ cause, place start lexemes = .error cause) ↔
      ∃ lexeme ∈ lexemes, lexeme.isTrivia = false ∧ Text.EndsWide lexeme.text := by
  induction lexemes generalizing start with
  | nil => simp [place]
  | cons lexeme rest ih =>
      rw [List.exists_mem_cons_iff, ← @ih (start.after lexeme.text)]
      simp only [place_cons_eq_error_iff, exists_or]
      by_cases hwide : lexeme.isTrivia = false ∧ Text.EndsWide lexeme.text
      · exact iff_of_true (.inl ⟨_, hwide.1, hwide.2, rfl⟩) (.inl hwide)
      · simp only [not_and] at hwide
        constructor
        · rintro (⟨_, htrivia, hends, -⟩ | ⟨cause, -, hrest⟩)
          · exact .inl ⟨htrivia, hends⟩
          · exact .inr ⟨cause, hrest⟩
        · rintro (⟨htrivia, hends⟩ | ⟨cause, hrest⟩)
          · exact absurd hends (hwide htrivia)
          · exact .inr ⟨cause, hwide, hrest⟩

end Token

namespace Source

/-- The tokens of a span have no places exactly if the span addresses a piece of text and a lexeme of it that
carries meaning ends in a character of several bytes. Of every lexeme the first byte begins a character, and
the last byte does unless it ends so; a lexeme that carries meaning and ends so has no kind. -/
theorem tokens_fail_iff_wide_end (source : Source) (span : Span) :
    ((∃ cause, source.tokens span = .error cause) ↔
      ∃ piece, source.extract? span = some piece ∧
        ∃ lexeme ∈ lex piece, lexeme.isTrivia = false ∧ Text.EndsWide lexeme.text) ∧
    ∀ piece, source.extract? span = some piece → ∀ lexeme ∈ lex piece,
      Text.IsCharBoundary (Text.toBytes piece) lexeme.start ∧
      (Text.EndsWide lexeme.text ↔
        ¬Text.IsCharBoundary (Text.toBytes piece) (lexeme.stop - 1)) ∧
      (lexeme.isTrivia = false → Text.EndsWide lexeme.text → lexeme.kind = none) := by
  refine ⟨?_, fun piece _ lexeme hmem => ⟨isCharBoundary_start hmem, endsWide_iff_stop hmem,
    kind_eq_none_of_endsWide hmem⟩⟩
  rw [Source.tokens]
  cases source.extract? span with
  | none => simp
  | some piece => simp [Token.exists_place_eq_error_iff]

-- A comment may end wide, an open literal may not.
theorem tokens_fail_iff_wide_end_behind_comment :
    (ofText "// ü\n\"é".toList).tokens ⟨⟨1, 1⟩, ⟨1, 5⟩⟩ = .ok [] ∧
      ∃ cause, (ofText "// ü\n\"é".toList).tokens ⟨⟨1, 1⟩, ⟨2, 3⟩⟩ = .error cause := by
  have hpiece : (ofText "// ü\n\"é".toList).extract? ⟨⟨1, 1⟩, ⟨2, 3⟩⟩ =
      some "// ü\n\"é".toList := by decide +kernel
  have hmem : ⟨none, "\"é".toList, 6⟩ ∈ lex "// ü\n\"é".toList := by decide +kernel
  have hwide : Text.EndsWide "\"é".toList := ⟨'é', by decide, by decide⟩
  refine ⟨by decide +kernel, ?_⟩
  exact (tokens_fail_iff_wide_end _ _).1.mpr ⟨_, hpiece, _, hmem, rfl, hwide⟩

end Source

end PlainC
