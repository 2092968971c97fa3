import PlainC.Proofs.OpenLiterals

/-!
# Spans of tokens

The tokens of a span follow each other within it, and the span of a token addresses its spelling. One
spelling cannot be addressed, the one that ends in a line feed: the position of a line feed lies behind
the last byte of its line, where no span ends.
-/

namespace PlainC

open Position

namespace Token

variable {start last : Position} {spelling : Text} {lexemes : List Lexeme} {tokens : List Token}

theorem before_lastPosition (hlast : lastPosition start spelling = .ok last) : start.before last := by
  rw [(eq_of_lastPosition hlast).2]
  exact before_after start _

theorem lastPosition_precedes (hlast : lastPosition start spelling = .ok last) (hne : spelling ≠ []) :
    last.Precedes (start.after spelling) := by
  rw [(eq_of_lastPosition hlast).2, ← List.dropLast_append_getLast hne, List.dropLast_concat,
    after_append]
  exact precedes_after (List.cons_ne_nil _ _) _

/-- Tokens are placed one behind the other. -/
theorem pairwise_place (hplace : place start lexemes = .ok tokens)
    (hne : ∀ lexeme ∈ lexemes, lexeme.text ≠ []) :
    tokens.Pairwise fun token later => token.span.last.Precedes later.span.first := by
  induction lexemes generalizing start tokens with
  | nil =>
      cases hplace
      exact .nil
  | cons lexeme lexemes ih =>
      have hne' := fun other hother => hne other (List.mem_cons_of_mem lexeme hother)
      rcases place_cons_cases hplace with ⟨-, hrest⟩ | ⟨-, last, others, hlast, hrest, rfl⟩
      · exact ih hrest hne'
      · refine List.pairwise_cons.mpr ⟨fun later hlater => ?_, ih hrest hne'⟩
        obtain ⟨earlier, _, _, -, hplaced⟩ := exists_of_mem_place hrest hlater
        rw [hplaced.first]
        exact (lastPosition_precedes hlast (hne lexeme List.mem_cons_self)).trans_before
          (before_after _ _)

/-- Nothing that carries meaning is left out. -/
theorem map_place (hplace : place start lexemes = .ok tokens) :
    tokens.map (fun token => (token.kind, token.spelling)) =
      (lexemes.filter fun lexeme => !lexeme.isTrivia).map fun lexeme =>
        (lexeme.kind, lexeme.text) := by
  induction lexemes generalizing start tokens with
  | nil =>
      cases hplace
      rfl
  | cons lexeme lexemes ih =>
      rcases place_cons_cases hplace with ⟨htrivia, hrest⟩ | ⟨htrivia, last, others, -, hrest, rfl⟩
      · rw [List.filter_cons_of_neg (by simp [htrivia]), ih hrest]
      · rw [List.filter_cons_of_pos (by simp [htrivia]), List.map_cons, List.map_cons, ih hrest]

end Token

namespace Source

variable {text : Text} {span : Span}

/-- No span ends with a line feed. -/
theorem extract?_eq_none_of_feed {front rest : Text} (htext : text = front ++ '\n' :: rest)
    (hlast : origin.after front = span.last) : (ofText text).extract? span = none := by
  rw [Option.eq_none_iff_forall_ne_some]
  intro piece hextract
  obtain ⟨front', rest', htext', -, hend⟩ := extract?_ofText_eq_some_iff.mp hextract
  have hbefore : (origin.after front).before (origin.after (front' ++ piece)) := by
    rw [hlast, hend]
    exact (precedes_next_iff.mpr (before_after span.last [])).before
  obtain ⟨between, hfront, hrest⟩ := exists_append_of_before (htext.symm.trans htext') hbefore
  rw [hfront, after_append, hlast] at hend
  cases between with
  | nil => simpa using congrArg Position.col hend
  | cons c between =>
      cases hrest
      have hline := congrArg Position.line hend
      rw [line_after, List.count_cons_self] at hline
      simp only at hline
      omega

end Source

namespace StandsIn

variable {text : Text} {span : Span} {token : Token}

theorem spelling_ne_nil (hstands : StandsIn text span token) : token.spelling ≠ [] := by
  obtain ⟨piece, lexeme, hmem, -, -, hspelling⟩ := hstands.lexeme
  rw [hspelling]
  exact text_ne_nil_of_mem_lex hmem

theorem contains_span (hstands : StandsIn text span token) : span.contains token.span := by
  obtain ⟨front, gap, behind, rest, -, hfirst, hend, hstart⟩ := hstands.place
  rw [Span.contains, Bool.and_eq_true]
  constructor
  · rw [← hfirst, ← hstart, after_append]
    exact before_after _ _
  · have hlast := Token.lastPosition_precedes hstands.last hstands.spelling_ne_nil
    rw [← precedes_next_iff, ← hend, List.append_assoc, ← List.append_assoc front, after_append, hstart,
      after_append]
    exact hlast.trans_before (before_after _ _)

theorem extract?_span (hstands : StandsIn text span token)
    (hfeed : token.spelling.getLast? ≠ some '\n') :
    (Source.ofText text).extract? token.span = some token.spelling := by
  obtain ⟨front, gap, behind, rest, htext, -, -, hstart⟩ := hstands.place
  refine Source.extract?_ofText_eq_some_iff.mpr ⟨front ++ gap, behind ++ rest, ?_, hstart, ?_⟩
  · rw [htext]
    simp only [List.append_assoc]
  · rw [after_append, hstart]
    exact Token.after_of_lastPosition hstands.last hstands.spelling_ne_nil hfeed

theorem extract?_span_of_feed (hstands : StandsIn text span token)
    (hfeed : token.spelling.getLast? = some '\n') :
    (Source.ofText text).extract? token.span = none := by
  obtain ⟨front, gap, behind, rest, htext, -, -, hstart⟩ := hstands.place
  obtain ⟨inside, hinside⟩ := List.getLast?_eq_some_iff.mp hfeed
  have hlast := (Token.eq_of_lastPosition hstands.last).2
  rw [hinside, List.dropLast_concat, ← hstart, ← after_append] at hlast
  have htext' : text = front ++ gap ++ inside ++ '\n' :: (behind ++ rest) := by
    rw [htext, hinside]
    simp only [List.append_assoc, List.cons_append, List.nil_append]
  exact Source.extract?_eq_none_of_feed htext' hlast.symm

theorem isOpenLiteral (hstands : StandsIn text span token)
    (hfeed : token.spelling.getLast? = some '\n') :
    token.kind = none ∧ Token.IsOpenLiteral token.spelling := by
  obtain ⟨piece, lexeme, hmem, htrivia, hkind, hspelling⟩ := hstands.lexeme
  rw [hkind, hspelling]
  rw [hspelling] at hfeed
  exact isOpenLiteral_of_mem_lex hmem htrivia hfeed

end StandsIn

namespace Source

variable {text : Text} {span : Span} {tokens : List Token}

/-- The lexemes of a span that carry meaning. -/
def lexemes (source : Source) (span : Span) : List Lexeme :=
  ((source.extract? span).elim [] lex).filter fun lexeme => !lexeme.isTrivia

theorem map_tokens (htokens : (ofText text).tokens span = .ok tokens) :
    tokens.map (fun token => (token.kind, token.spelling)) =
      ((ofText text).lexemes span).map fun lexeme => (lexeme.kind, lexeme.text) := by
  rw [Source.tokens] at htokens
  split at htokens <;> rename_i hextract
  · cases htokens
    rw [lexemes, hextract]
    rfl
  · rw [lexemes, hextract]
    exact Token.map_place htokens

theorem pairwise_tokens (htokens : (ofText text).tokens span = .ok tokens) :
    tokens.Pairwise fun token later => token.span.last.Precedes later.span.first := by
  rw [Source.tokens] at htokens
  split at htokens
  · cases htokens
    exact .nil
  · exact Token.pairwise_place htokens fun lexeme => text_ne_nil_of_mem_lex

/-- The tokens of a span are the lexemes of its text that carry meaning, one behind the other within the
span. The span of a token addresses its spelling, unless that ends in a line feed; then it addresses
nothing, and the token is an open literal. -/
theorem tokens_address_their_spellings (htokens : (ofText text).tokens span = .ok tokens) :
    tokens.map (fun token => (token.kind, token.spelling)) =
        ((ofText text).lexemes span).map (fun lexeme => (lexeme.kind, lexeme.text)) ∧
      tokens.Pairwise (fun token later => token.span.last.Precedes later.span.first) ∧
      ∀ token ∈ tokens,
        token.span.first.before token.span.last ∧
        span.contains token.span ∧
        (token.spelling.getLast? ≠ some '\n' →
          (ofText text).extract? token.span = some token.spelling) ∧
        (token.spelling.getLast? = some '\n' →
          (ofText text).extract? token.span = none ∧ token.kind = none ∧
            Token.IsOpenLiteral token.spelling) := by
  refine ⟨map_tokens htokens, pairwise_tokens htokens, fun token hmem => ?_⟩
  have hstands := standsIn_of_mem_tokens htokens hmem
  exact ⟨Token.before_lastPosition hstands.last, hstands.contains_span, hstands.extract?_span,
    fun hfeed => ⟨hstands.extract?_span_of_feed hfeed, hstands.isOpenLiteral hfeed⟩⟩

/-- A literal that is open at the end of the first line, between two names. -/
theorem tokens_address_their_spellings_around_open_literal :
    (ofText "ab \"é\\\n\n c".toList).tokens ⟨⟨1, 1⟩, ⟨3, 2⟩⟩ = .ok [
      ⟨some .identifier, "ab".toList, ⟨⟨1, 1⟩, ⟨1, 2⟩⟩⟩,
      ⟨none, "\"é\\\n".toList, ⟨⟨1, 4⟩, ⟨1, 8⟩⟩⟩,
      ⟨some .identifier, "c".toList, ⟨⟨3, 2⟩, ⟨3, 2⟩⟩⟩] ∧
    (ofText "ab \"é\\\n\n c".toList).extract? ⟨⟨1, 1⟩, ⟨1, 2⟩⟩ = some "ab".toList ∧
    (ofText "ab \"é\\\n\n c".toList).extract? ⟨⟨1, 4⟩, ⟨1, 8⟩⟩ = none ∧
    Token.IsOpenLiteral "\"é\\\n".toList := by
  have htokens : (ofText "ab \"é\\\n\n c".toList).tokens ⟨⟨1, 1⟩, ⟨3, 2⟩⟩ = .ok [
      ⟨some .identifier, "ab".toList, ⟨⟨1, 1⟩, ⟨1, 2⟩⟩⟩,
      ⟨none, "\"é\\\n".toList, ⟨⟨1, 4⟩, ⟨1, 8⟩⟩⟩,
      ⟨some .identifier, "c".toList, ⟨⟨3, 2⟩, ⟨3, 2⟩⟩⟩] := by
    decide +kernel
  have haddress := (tokens_address_their_spellings htokens).2.2
  have hname := (haddress _ (List.mem_cons_self ..)).2.2.1
  have hopen := (haddress _ (List.mem_cons_of_mem _ (List.mem_cons_self ..))).2.2.2
  exact ⟨htokens, hname (by decide), (hopen (by decide)).1, (hopen (by decide)).2.2⟩

end Source

end PlainC
