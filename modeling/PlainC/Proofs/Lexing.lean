import PlainC.Proofs.Pattern
import PlainC.Proofs.Source

/-!
# Lexemes and tokens in their places

The lexemes of a text joined together are the text, and each lexeme of a kind is described by a pattern
of that kind. Where a lexeme has no kind, no pattern describes a beginning of what is left there. So a
token that was found in a span stands in the source at its own position, and a keyword is spelled as its
kind says.
-/

namespace PlainC

open Position

namespace Lexer

/-! ### One lexeme -/

theorem exists_of_accepted {rules : List (TokenKind × Pattern)} {text : Text} {kind : TokenKind}
    {n : Nat} (haccepted : (accepted rules).map (·, 0) = some (kind, n)) :
    n ≤ text.length ∧ ∃ pattern, (kind, pattern) ∈ rules ∧ pattern.Matches (text.take n) := by
  obtain ⟨kind', hkind, heq⟩ := Option.map_eq_some_iff.mp haccepted
  cases heq
  obtain ⟨⟨kind', pattern⟩, hfind, rfl⟩ := Option.map_eq_some_iff.mp hkind
  have hnullable := List.find?_some hfind
  exact ⟨Nat.zero_le _, pattern, List.mem_of_find?_eq_some hfind, Pattern.nullable_iff.mp hnullable⟩

theorem exists_of_mem_step {rules : List (TokenKind × Pattern)} {c : Char} {kind : TokenKind}
    {derived : Pattern} (hmem : (kind, derived) ∈ step rules c) :
    ∃ pattern, (kind, pattern) ∈ rules ∧ derived = pattern.derive c := by
  obtain ⟨⟨kind', pattern⟩, hrule, heq⟩ := List.mem_map.mp (List.mem_filter.mp hmem).1
  cases heq
  exact ⟨pattern, hrule, rfl⟩

/-- The longest described beginning is described by a rule of its kind. -/
theorem exists_of_reach_longest {rules : List (TokenKind × Pattern)} {text : Text}
    {kind : TokenKind} {n : Nat} (hreach : (reach rules text).longest = some (kind, n)) :
    n ≤ text.length ∧ ∃ pattern, (kind, pattern) ∈ rules ∧ pattern.Matches (text.take n) := by
  induction text generalizing rules n with
  | nil => exact exists_of_accepted hreach
  | cons c text ih =>
      rw [reach] at hreach
      split at hreach
      · exact exists_of_accepted hreach
      · simp only [Option.or_eq_some_iff, Option.map_eq_some_iff] at hreach
        rcases hreach with ⟨⟨kind', m⟩, hbeyond, heq⟩ | ⟨-, haccepted⟩
        · cases heq
          obtain ⟨hlength, derived, hmem, hmatches⟩ := ih hbeyond
          obtain ⟨pattern, hrule, rfl⟩ := exists_of_mem_step hmem
          exact ⟨by simpa using hlength, pattern, hrule, Pattern.matches_derive_iff.mp hmatches⟩
        · exact exists_of_accepted (Option.map_eq_some_iff.mpr haccepted)

theorem not_matches_of_accepted {rules : List (TokenKind × Pattern)} {kind : TokenKind}
    {pattern : Pattern} (haccepted : (accepted rules).map (·, 0) = none)
    (hrule : (kind, pattern) ∈ rules) : ¬pattern.Matches [] := by
  rw [Option.map_eq_none_iff, accepted, Option.map_eq_none_iff, List.find?_eq_none] at haccepted
  exact fun hempty => haccepted _ hrule (Pattern.nullable_iff.mpr hempty)

theorem mem_step {rules : List (TokenKind × Pattern)} {c : Char} {kind : TokenKind}
    {pattern : Pattern} {text : Text} (hrule : (kind, pattern) ∈ rules)
    (hmatches : pattern.Matches (c :: text)) : (kind, pattern.derive c) ∈ step rules c :=
  List.mem_filter.mpr ⟨List.mem_map.mpr ⟨_, hrule, rfl⟩,
    Pattern.viable_of_matches (Pattern.matches_derive_iff.mpr hmatches)⟩

theorem exists_mem_foldl_step {rules : List (TokenKind × Pattern)} {opening rest : Text}
    {kind : TokenKind} {pattern : Pattern} (hrule : (kind, pattern) ∈ rules)
    (hmatches : pattern.Matches (opening ++ rest)) :
    ∃ left, (kind, left) ∈ opening.foldl step rules ∧ left.Matches rest := by
  induction opening generalizing rules pattern with
  | nil => exact ⟨pattern, hrule, hmatches⟩
  | cons c opening ih =>
      exact ih (mem_step hrule hmatches) (Pattern.matches_derive_iff.mpr hmatches)

/-- Behind an opening that leaves one rule, every rule describes what that one does. -/
theorem matches_of_opening {rules : List (TokenKind × Pattern)} {opening rest : Text}
    {kind other : TokenKind} {pattern left : Pattern}
    (honly : opening.foldl step rules = [(kind, left)]) (hrule : (other, pattern) ∈ rules)
    (hmatches : pattern.Matches (opening ++ rest)) : other = kind ∧ left.Matches rest := by
  obtain ⟨left', hmem, hleft⟩ := exists_mem_foldl_step hrule hmatches
  rw [honly, List.mem_singleton, Prod.mk.injEq] at hmem
  exact ⟨hmem.1, hmem.2 ▸ hleft⟩

/-- Without a longest one, no beginning is described. -/
theorem not_matches_of_reach_longest {rules : List (TokenKind × Pattern)} {text : Text}
    {kind : TokenKind} {pattern : Pattern} (hreach : (reach rules text).longest = none)
    (hrule : (kind, pattern) ∈ rules) (n : Nat) : ¬pattern.Matches (text.take n) := by
  -- Along a beginning that is described, the derived rule is always among those that are left.
  induction text generalizing rules pattern n with
  | nil =>
      rw [List.take_nil]
      exact not_matches_of_accepted hreach hrule
  | cons c text ih =>
      intro hmatches
      rw [reach] at hreach
      cases n with
      | zero =>
          refine not_matches_of_accepted ?_ hrule hmatches
          split at hreach
          · exact hreach
          · exact (Option.or_eq_none_iff.mp hreach).2
      | succ n =>
          have hmem := mem_step hrule hmatches
          split at hreach <;> rename_i hstep
          · rw [hstep] at hmem
            cases hmem
          · have hbeyond := Option.map_eq_none_iff.mp (Option.or_eq_none_iff.mp hreach).1
            exact ih hbeyond hmem n (Pattern.matches_derive_iff.mpr hmatches)

theorem exists_matches_of_rules {rules : List (TokenKind × Pattern)}
    (hoccupied : ∀ rule ∈ rules, rule.2.occupied) (hviable : ∃ rule ∈ rules, rule.2.viable) :
    ∃ kind pattern text, (kind, pattern) ∈ rules ∧ pattern.Matches text := by
  obtain ⟨⟨kind, pattern⟩, hrule, hviable⟩ := hviable
  obtain ⟨text, htext⟩ := Pattern.exists_matches_of_viable (hoccupied _ hrule) hviable
  exact ⟨kind, pattern, text, hrule, htext⟩

/-- What was reached can grow into a text that is described. -/
theorem exists_of_reach_viable {rules : List (TokenKind × Pattern)} {text : Text}
    (hoccupied : ∀ rule ∈ rules, rule.2.occupied) (hviable : ∃ rule ∈ rules, rule.2.viable) :
    ∃ kind pattern growth, (kind, pattern) ∈ rules ∧
      pattern.Matches (text.take (reach rules text).viable ++ growth) := by
  induction text generalizing rules with
  | nil => exact exists_matches_of_rules hoccupied hviable
  | cons c text ih =>
      rw [reach]
      split <;> rename_i hstep
      · exact exists_matches_of_rules hoccupied hviable
      · have hoccupied' : ∀ rule ∈ step rules c, rule.2.occupied := by
          rintro ⟨kind, derived⟩ hmem
          obtain ⟨pattern, hrule, rfl⟩ := exists_of_mem_step hmem
          exact Pattern.occupied_derive (hoccupied _ hrule)
        obtain ⟨rule, hrule⟩ := List.exists_mem_of_ne_nil _ hstep
        obtain ⟨kind, derived, growth, hmem, hmatches⟩ :=
          ih hoccupied' ⟨rule, hrule, (List.mem_filter.mp hrule).2⟩
        obtain ⟨pattern, hrule', rfl⟩ := exists_of_mem_step hmem
        exact ⟨kind, pattern, growth, hrule', Pattern.matches_derive_iff.mp hmatches⟩

theorem munch_pos (text : Text) : 0 < (munch text).2 := by
  rw [munch]
  split
  · exact Nat.succ_pos _
  · exact Nat.lt_of_lt_of_le Nat.one_pos (Nat.le_max_left _ _)

/-- The first lexeme of a text is described by a rule of its kind. -/
theorem exists_of_munch {text : Text} {kind : TokenKind} (hkind : (munch text).1 = some kind) :
    ∃ pattern, (kind, pattern) ∈ Token.rules ∧ pattern.Matches (text.take (munch text).2) := by
  rw [munch] at hkind ⊢
  split at hkind <;> rename_i hlongest
  · cases hkind
    exact (exists_of_reach_longest hlongest).2
  · cases hkind

theorem reach_longest_of_munch {text : Text} (hkind : (munch text).1 = none) :
    (reach Token.rules text).longest = none := by
  have hnull : ∀ rule ∈ Token.rules, ¬rule.2.nullable := by decide
  cases hlongest : (reach Token.rules text).longest with
  | none => rfl
  | some found =>
      obtain ⟨kind, n⟩ := found
      cases n with
      | zero =>
          obtain ⟨-, pattern, hrule, hmatches⟩ := exists_of_reach_longest hlongest
          exact absurd (Pattern.nullable_iff.mpr hmatches) (hnull _ hrule)
      | succ n =>
          rw [munch, hlongest] at hkind
          cases hkind

/-- Where the first lexeme has no kind, no rule describes a beginning. -/
theorem not_matches_of_munch {text : Text} {kind : TokenKind} {pattern : Pattern}
    (hkind : (munch text).1 = none) (hrule : (kind, pattern) ∈ Token.rules) (n : Nat) :
    ¬pattern.Matches (text.take n) :=
  not_matches_of_reach_longest (reach_longest_of_munch hkind) hrule n

theorem occupied_rules : ∀ rule ∈ Token.rules, rule.2.occupied := by
  decide +kernel

theorem viable_rules : ∃ rule ∈ Token.rules, rule.2.viable := by
  decide

theorem munch_snd_of_none {text : Text} (hkind : (munch text).1 = none) :
    (munch text).2 = max 1 (reach Token.rules text).viable := by
  rw [munch, reach_longest_of_munch hkind]

/-- A first lexeme without a kind is one character, or could still have become a token. -/
theorem exists_growth_of_munch {text : Text} (hkind : (munch text).1 = none) :
    (munch text).2 = 1 ∨ ∃ kind pattern growth, (kind, pattern) ∈ Token.rules ∧
      pattern.Matches (text.take (munch text).2 ++ growth) := by
  rw [munch_snd_of_none hkind]
  rcases Nat.le_total (reach Token.rules text).viable 1 with hle | hge
  · exact .inl (Nat.max_eq_left hle)
  · rw [Nat.max_eq_right hge]
    exact .inr (exists_of_reach_viable occupied_rules viable_rules)

/-! ### All lexemes -/

theorem flatMap_text_lexFrom {fuel start : Nat} {text : Text} (hfuel : text.length ≤ fuel) :
    (lexFrom fuel start text).flatMap Lexeme.text = text := by
  fun_induction lexFrom fuel start text with
  | case1 start text =>
      rw [List.flatMap_nil, List.eq_nil_of_length_eq_zero (Nat.le_zero.mp hfuel)]
  | case2 => rfl
  | case3 fuel start text hne kind n hmunch lexeme ih =>
      have hpos := munch_pos text
      rw [hmunch] at hpos
      have hdrop : (text.drop n).length ≤ fuel := by
        rw [List.length_drop]
        simp only at hpos
        omega
      rw [List.flatMap_cons, ih hdrop]
      exact List.take_append_drop n text

/-- Each lexeme is the first one of what remains there. -/
theorem exists_munch_of_mem_lexFrom {fuel start : Nat} {text : Text} {lexeme : Lexeme}
    (hmem : lexeme ∈ lexFrom fuel start text) :
    ∃ rest, rest ≠ [] ∧ lexeme.kind = (munch rest).1 ∧ lexeme.text = rest.take (munch rest).2 := by
  fun_induction lexFrom fuel start text with
  | case1 => cases hmem
  | case2 => cases hmem
  | case3 fuel start text hne kind n hmunch lexeme' ih =>
      rcases List.mem_cons.mp hmem with rfl | hrest
      · exact ⟨text, hne, by rw [hmunch], by rw [hmunch]⟩
      · exact ih hrest

end Lexer

/-- The lexemes of a text joined together are the text. -/
theorem flatMap_text_lex (text : Text) : (lex text).flatMap Lexeme.text = text :=
  Lexer.flatMap_text_lexFrom (Nat.le_refl _)

theorem exists_munch_of_mem_lex {text : Text} {lexeme : Lexeme} (hmem : lexeme ∈ lex text) :
    ∃ rest, rest ≠ [] ∧ lexeme.kind = (Lexer.munch rest).1 ∧
      lexeme.text = rest.take (Lexer.munch rest).2 :=
  Lexer.exists_munch_of_mem_lexFrom hmem

theorem text_ne_nil_of_mem_lex {text : Text} {lexeme : Lexeme} (hmem : lexeme ∈ lex text) :
    lexeme.text ≠ [] := by
  obtain ⟨rest, hne, -, htext⟩ := exists_munch_of_mem_lex hmem
  rw [htext, ne_eq, List.take_eq_nil_iff, not_or]
  exact ⟨Nat.ne_of_gt (Lexer.munch_pos rest), hne⟩

theorem exists_of_mem_lex {text : Text} {lexeme : Lexeme} {kind : TokenKind}
    (hmem : lexeme ∈ lex text) (hkind : lexeme.kind = some kind) :
    ∃ pattern, (kind, pattern) ∈ Token.rules ∧ pattern.Matches lexeme.text := by
  obtain ⟨rest, -, hmunch, htext⟩ := exists_munch_of_mem_lex hmem
  rw [htext]
  exact Lexer.exists_of_munch (hmunch.symm.trans hkind)

theorem pattern_of_static {pattern : Pattern} (hrule : (.staticKeyword, pattern) ∈ Token.rules) :
    pattern = .literal "static".toList := by
  simpa [Token.rules] using hrule

theorem pattern_of_typedef {pattern : Pattern} (hrule : (.typedefKeyword, pattern) ∈ Token.rules) :
    pattern = .literal "typedef".toList := by
  simpa [Token.rules] using hrule

/-- A kind with no rule but one for a single word is that of the word. -/
theorem text_of_keyword {text word : Text} {lexeme : Lexeme} {kind : TokenKind}
    (hword : ∀ {pattern}, (kind, pattern) ∈ Token.rules → pattern = .literal word)
    (hmem : lexeme ∈ lex text) (hkind : lexeme.kind = some kind) : lexeme.text = word := by
  obtain ⟨pattern, hrule, hmatches⟩ := exists_of_mem_lex hmem hkind
  rw [hword hrule] at hmatches
  exact Pattern.matches_literal_iff.mp hmatches

/-! ### Tokens -/

namespace Token

theorem eq_of_lastPosition {start last : Position} {spelling : Text}
    (hlast : lastPosition start spelling = .ok last) :
    (spelling.getLast?.all fun c => c.utf8Size = 1) ∧ last = start.after spelling.dropLast := by
  rw [lastPosition] at hlast
  split at hlast <;> rename_i hsize
  · cases hlast
    exact ⟨hsize, rfl⟩
  · cases hlast

/-- The end of a token is one byte behind its last position. -/
theorem after_of_lastPosition {start last : Position} {spelling : Text}
    (hlast : lastPosition start spelling = .ok last) (hne : spelling ≠ [])
    (hfeed : spelling.getLast? ≠ some '\n') : start.after spelling = ⟨last.line, last.col + 1⟩ := by
  obtain ⟨hsize, rfl⟩ := eq_of_lastPosition hlast
  obtain ⟨front, c, rfl⟩ := List.eq_nil_or_concat spelling |>.resolve_left hne
  simp only [List.concat_eq_append, List.getLast?_append, List.getLast?_singleton, Option.some_or,
    Option.all_some, decide_eq_true_eq, ne_eq, Option.some.injEq] at hsize hfeed
  rw [List.concat_eq_append, List.dropLast_concat, after_append, after_cons, after_nil, step,
    if_neg hfeed, hsize]

theorem place_cons_cases {start : Position} {lexeme : Lexeme} {rest : List Lexeme}
    {tokens : List Token} (hplace : place start (lexeme :: rest) = .ok tokens) :
    lexeme.isTrivia ∧ place (start.after lexeme.text) rest = .ok tokens ∨
      lexeme.isTrivia = false ∧ ∃ last others, lastPosition start lexeme.text = .ok last ∧
        place (start.after lexeme.text) rest = .ok others ∧
        tokens = ⟨lexeme.kind, lexeme.text, ⟨start, last⟩⟩ :: others := by
  rw [place] at hplace
  split at hplace <;> rename_i htrivia
  · exact .inl ⟨htrivia, hplace⟩
  · cases hlast : lastPosition start lexeme.text with
    | error cause =>
        rw [hlast] at hplace
        cases hplace
    | ok last =>
        cases hrest : place (start.after lexeme.text) rest with
        | error cause =>
            rw [hlast, hrest] at hplace
            cases hplace
        | ok others =>
            rw [hlast, hrest] at hplace
            cases hplace
            exact .inr ⟨Bool.of_not_eq_true htrivia, last, others, rfl, rfl, rfl⟩

/-- How a token comes from a lexeme that carries meaning and stands behind others. -/
structure Placed (start : Position) (earlier : List Lexeme) (lexeme : Lexeme) (token : Token) :
    Prop where
  meaningful : lexeme.isTrivia = false
  kind : token.kind = lexeme.kind
  spelling : token.spelling = lexeme.text
  first : token.span.first = start.after (earlier.flatMap Lexeme.text)
  last : lastPosition token.span.first token.spelling = .ok token.span.last

theorem Placed.cons {start : Position} {earlier : List Lexeme} {lexeme lexeme' : Lexeme}
    {token : Token} (hplaced : Placed (start.after lexeme'.text) earlier lexeme token) :
    Placed start (lexeme' :: earlier) lexeme token := by
  refine ⟨hplaced.meaningful, hplaced.kind, hplaced.spelling, ?_, hplaced.last⟩
  rw [hplaced.first, List.flatMap_cons, after_append]

/-- Every token comes from a lexeme. -/
theorem exists_of_mem_place {start : Position} {lexemes : List Lexeme} {tokens : List Token}
    {token : Token} (hplace : place start lexemes = .ok tokens) (hmem : token ∈ tokens) :
    ∃ earlier lexeme rest, lexemes = earlier ++ lexeme :: rest ∧
      Placed start earlier lexeme token := by
  induction lexemes generalizing start tokens with
  | nil =>
      cases hplace
      cases hmem
  | cons lexeme lexemes ih =>
      rcases place_cons_cases hplace with ⟨-, hrest⟩ | ⟨htrivia, last, others, hlast, hrest, rfl⟩
      · obtain ⟨earlier, next, rest, rfl, hplaced⟩ := ih hrest hmem
        exact ⟨lexeme :: earlier, next, rest, rfl, hplaced.cons⟩
      · rcases List.mem_cons.mp hmem with rfl | hmem
        · exact ⟨[], lexeme, lexemes, rfl, htrivia, rfl, rfl, rfl, hlast⟩
        · obtain ⟨earlier, next, rest, rfl, hplaced⟩ := ih hrest hmem
          exact ⟨lexeme :: earlier, next, rest, rfl, hplaced.cons⟩

end Token

/-- Where a token of a span stands: in the piece that the span addresses, behind a gap, as a lexeme of
the piece that carries meaning. -/
structure StandsIn (text : Text) (span : Span) (token : Token) : Prop where
  place : ∃ front gap behind rest, text = front ++ (gap ++ token.spelling ++ behind) ++ rest ∧
    origin.after front = span.first ∧
    origin.after (front ++ (gap ++ token.spelling ++ behind)) =
      ⟨span.last.line, span.last.col + 1⟩ ∧
    origin.after (front ++ gap) = token.span.first
  last : Token.lastPosition token.span.first token.spelling = .ok token.span.last
  lexeme : ∃ piece, ∃ lexeme ∈ lex piece, lexeme.isTrivia = false ∧ token.kind = lexeme.kind ∧
    token.spelling = lexeme.text

/-- Every token of a span stands in it. -/
theorem Source.standsIn_of_mem_tokens {text : Text} {span : Span} {token : Token}
    {tokens : List Token} (htokens : (ofText text).tokens span = .ok tokens)
    (hmem : token ∈ tokens) : StandsIn text span token := by
  rw [Source.tokens] at htokens
  split at htokens <;> rename_i hextract
  · cases htokens
    cases hmem
  · rename_i piece
    obtain ⟨front, rest, htext, hfirst, hend⟩ := extract?_ofText_eq_some_iff.mp hextract
    obtain ⟨earlier, lexeme, behind, hlex, hplaced⟩ := Token.exists_of_mem_place htokens hmem
    have hpiece : piece =
        earlier.flatMap Lexeme.text ++ token.spelling ++ behind.flatMap Lexeme.text := by
      rw [← flatMap_text_lex piece, hlex, List.flatMap_append, List.flatMap_cons, hplaced.spelling,
        List.append_assoc]
    refine ⟨⟨front, earlier.flatMap Lexeme.text, behind.flatMap Lexeme.text, rest, ?_⟩, hplaced.last,
      piece, lexeme, by simp [hlex], hplaced.meaningful, hplaced.kind, hplaced.spelling⟩
    rw [← hpiece, after_append _ front (earlier.flatMap Lexeme.text), hfirst]
    exact ⟨htext, rfl, hend, hplaced.first.symm⟩

/-- Where the first token of a span stands, if it is a keyword: in the piece that the span addresses,
behind a gap, and in the source at its own span. -/
structure StandsFirst (text : Text) (span : Span) (token : Token) (word : Text) : Prop where
  spelling : token.spelling = word
  place : ∃ front gap behind rest, text = front ++ (gap ++ word ++ behind) ++ rest ∧
    origin.after front = span.first ∧
    origin.after (front ++ (gap ++ word ++ behind)) = ⟨span.last.line, span.last.col + 1⟩ ∧
    origin.after (front ++ gap) = token.span.first ∧
    origin.after (front ++ gap ++ word) = ⟨token.span.last.line, token.span.last.col + 1⟩

/-- The first token of a span stands at its own place, if it is a keyword. -/
theorem Source.standsFirst_of_tokens {text word : Text} {span : Span} {token : Token}
    {others : List Token} {kind : TokenKind}
    (hword : ∀ {pattern}, (kind, pattern) ∈ Token.rules → pattern = .literal word)
    (hne : word ≠ []) (hfeed : '\n' ∉ word)
    (htokens : (ofText text).tokens span = .ok (token :: others)) (hkind : token.kind = some kind) :
    StandsFirst text span token word := by
  obtain ⟨⟨front, gap, behind, rest, htext, hfirst, hend, hstart⟩, hlast, piece, lexeme, hmem, -,
    hkind', hspelling⟩ := standsIn_of_mem_tokens htokens List.mem_cons_self
  rw [text_of_keyword hword hmem (hkind' ▸ hkind)] at hspelling
  rw [hspelling] at htext hend hlast
  refine ⟨hspelling, front, gap, behind, rest, htext, hfirst, hend, hstart, ?_⟩
  rw [after_append, hstart]
  exact Token.after_of_lastPosition hlast hne fun hfeed' => hfeed (List.mem_of_getLast? hfeed')

end PlainC
