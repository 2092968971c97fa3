import PlainC.Proofs.LexedPieces
import PlainC.Proofs.OpenLiterals
import Mathlib.Data.List.TakeWhile

/-!
# What stands between tokens

Trivia is a run of blanks, a hidden line break, or a comment of one of the two forms. A hidden line break
and a block comment end by themselves, whatever comes next; a line comment ends before a line feed, and
blanks end before anything that is no blank. So the text behind trivia may be replaced, and where the
trivia ends is where the tokens of the new text begin: blanks may join blanks, which changes no token,
and nothing else joins.
-/

namespace PlainC

namespace Text

/-- A text in which `*/` stands at the end and nowhere before. -/
def ClosesComment (text : Text) : Prop :=
  ∃ inside, text = inside ++ ['*', '/'] ∧ ¬['*', '/'] <:+: inside ++ ['*']

theorem not_closesComment_nil : ¬ClosesComment [] := by
  rintro ⟨inside, heq, -⟩
  simp at heq

theorem closesComment_mark_iff {text : Text} : ClosesComment ('*' :: '/' :: text) ↔ text = [] := by
  constructor
  · rintro ⟨inside, heq, hnone⟩
    rcases inside with - | ⟨c, - | ⟨d, inside⟩⟩
    · simpa using heq
    · simp at heq
    · simp only [List.cons_append, List.cons.injEq] at heq
      obtain ⟨rfl, rfl, -⟩ := heq
      exact absurd ⟨[], inside ++ ['*'], rfl⟩ hnone
  · rintro rfl
    exact ⟨[], rfl, by decide⟩

theorem closesComment_cons_iff {c : Char} {text : Text} (hmark : ¬['*', '/'] <+: c :: text) :
    ClosesComment (c :: text) ↔ ClosesComment text := by
  constructor
  · rintro ⟨inside, heq, hnone⟩
    cases inside with
    | nil =>
        rw [heq] at hmark
        exact absurd (List.prefix_refl _) hmark
    | cons d inside =>
        obtain ⟨rfl, rfl⟩ := List.cons.inj heq
        exact ⟨inside, rfl, fun hinfix => hnone (List.infix_cons hinfix)⟩
  · rintro ⟨inside, rfl, hnone⟩
    refine ⟨c :: inside, rfl, fun hinfix => ?_⟩
    rcases List.infix_cons_iff.mp hinfix with hbegins | hinfix
    · refine hmark (hbegins.trans ⟨['/'], ?_⟩)
      simp
    · exact hnone hinfix

/-- Of two such texts, neither begins with the other. -/
theorem ClosesComment.eq_nil_of_append {text more : Text} (htext : ClosesComment text)
    (hwhole : ClosesComment (text ++ more)) : more = [] := by
  obtain ⟨inside, rfl, -⟩ := htext
  obtain ⟨inside', heq, hnone⟩ := hwhole
  rcases List.eq_nil_or_concat more with hnil | ⟨front, c, rfl⟩
  · exact hnil
  · have hsplit : (inside ++ ['*', '/'] ++ front) ++ [c] = (inside' ++ ['*']) ++ ['/'] := by
      simpa using heq
    obtain ⟨hfront, -⟩ := List.append_inj' hsplit rfl
    rw [← hfront] at hnone
    exact absurd ⟨inside, front, rfl⟩ hnone

end Text

namespace Token

open Pattern

variable {s more : Text} {c : Char}

/-! ### Block comments -/

/-- What stands between the marks of a block comment, up to the stars before the last slash. -/
def commentInside : Pattern :=
  star (alt (char (.noneOf ['*'])) (seq (plus (char (.single '*'))) (char (.noneOf ['*', '/']))))

/-- What follows the opening mark of a block comment. -/
def commentRest : Pattern := seq commentInside (seq (plus (char (.single '*'))) (char (.single '/')))

theorem mem_single_of_ne {d : Char} (hne : c ≠ d) : (CharSet.single d).mem c = false := by
  rw [← Bool.not_eq_true, mem_single_iff]
  exact hne

theorem derive_commentRest (hstar : c ≠ '*') : commentRest.derive c = commentRest := by
  have hother : (CharSet.noneOf ['*']).mem c := mem_noneOf_iff.mpr (by simpa using hstar)
  simp [commentRest, commentInside, plus, derive, nullable, mem_single_of_ne hstar, hother, either,
    andThen]

theorem derive_commentRest_star (hstar : c ≠ '*') (hslash : c ≠ '/') :
    (commentRest.derive '*').derive c = commentRest := by
  have hother : (CharSet.noneOf ['*', '/']).mem c := mem_noneOf_iff.mpr (by simp [hstar, hslash])
  have hbehind : commentRest.derive '*' =
      alt (seq (seq (seq (star (char (.single '*'))) (char (.noneOf ['*', '/']))) commentInside)
        (seq (plus (char (.single '*'))) (char (.single '/'))))
        (seq (star (char (.single '*'))) (char (.single '/'))) := rfl
  rw [hbehind]
  simp [commentRest, commentInside, derive, nullable, mem_single_of_ne hstar, mem_single_of_ne hslash,
    hother, either, andThen]

/-- A character passes through a comment, unless the closing mark begins with it. -/
theorem matches_commentRest_cons_iff (hmark : ¬['*', '/'] <+: c :: s) :
    commentRest.Matches (c :: s) ↔ commentRest.Matches s := by
  rw [← matches_derive_iff]
  by_cases hstar : c = '*'
  · subst hstar
    cases s with
    | nil =>
        rw [← nullable_iff, ← nullable_iff]
        decide
    | cons d s =>
        have hslash : d ≠ '/' := by
          rintro rfl
          exact hmark ⟨s, rfl⟩
        rw [← matches_derive_iff]
        by_cases hstar : d = '*'
        · subst hstar
          have hsame : (commentRest.derive '*').derive '*' = commentRest.derive '*' := rfl
          rw [hsame, matches_derive_iff]
        · rw [derive_commentRest_star hstar hslash, ← matches_derive_iff (p := commentRest),
            derive_commentRest hstar]
  · rw [derive_commentRest hstar]

/-- A comment goes on to the first closing mark. -/
theorem matches_commentRest_iff : commentRest.Matches s ↔ Text.ClosesComment s := by
  induction s with
  | nil => exact iff_of_false (fun h => absurd (nullable_iff.mpr h) (by decide)) Text.not_closesComment_nil
  | cons c s ih =>
      by_cases hmark : ['*', '/'] <+: c :: s
      · obtain ⟨rest, hrest⟩ := hmark
        rw [← hrest]
        have hdone : (commentRest.derive '*').derive '/' = done := rfl
        rw [List.cons_append, List.cons_append, List.nil_append, Text.closesComment_mark_iff,
          ← matches_derive_iff, ← matches_derive_iff, hdone, matches_done_iff]
      · rw [matches_commentRest_cons_iff hmark, ih, Text.closesComment_cons_iff hmark]

/-! ### The forms of trivia -/

def blankChars : Text := [' ', '\t', '\r', '\n', '\x0c', '\x0b']

theorem mem_oneOf_iff {chars : Text} : (CharSet.oneOf chars).mem c ↔ c ∈ chars := by
  have hnot := @mem_noneOf_iff chars c
  rw [CharSet.noneOf, CharSet.mem] at hnot
  rw [CharSet.oneOf, CharSet.mem, ← not_iff_not, ← hnot]
  simp

theorem matches_star_char_iff {set : CharSet} : (star (char set)).Matches s ↔ ∀ c ∈ s, set.mem c := by
  induction s with
  | nil => exact iff_of_true .stop (by simp)
  | cons c s ih =>
      rw [List.forall_mem_cons, ← ih, ← matches_derive_iff, derive, derive]
      split <;> rename_i hmem
      · exact (and_iff_right hmem).symm
      · exact iff_of_false not_matches_fail fun h => hmem h.1

theorem matches_blanks_iff : blanks.Matches s ↔ s ≠ [] ∧ ∀ c ∈ s, c ∈ blankChars := by
  have hblanks : blanks = seq (char (.oneOf blankChars)) (star (char (.oneOf blankChars))) := rfl
  simp only [hblanks, matches_seq_iff, matches_char_iff, matches_star_char_iff, mem_oneOf_iff]
  constructor
  · rintro ⟨_, rest, rfl, ⟨c, rfl, hc⟩, hrest⟩
    exact ⟨List.cons_ne_nil c rest, List.forall_mem_cons.mpr ⟨hc, hrest⟩⟩
  · rintro ⟨hne, hall⟩
    obtain ⟨c, rest, rfl⟩ := List.exists_cons_of_ne_nil hne
    obtain ⟨hc, hrest⟩ := List.forall_mem_cons.mp hall
    exact ⟨[c], rest, rfl, ⟨c, rfl, hc⟩, hrest⟩

/-- What a text is that a rule for trivia describes. -/
inductive IsTrivia : Text → Prop where
  | blanks {text : Text} : text ≠ [] → (∀ c ∈ text, c ∈ blankChars) → IsTrivia text
  | splice {text : Text} : text.getLast? = some '\n' → IsTrivia ('\\' :: text)
  | lineComment {text : Text} : '\n' ∉ text → IsTrivia ('/' :: '/' :: text)
  | blockComment {text : Text} : Text.ClosesComment text → IsTrivia ('/' :: '*' :: text)

theorem isTrivia_of_matches {kind : TokenKind} {pattern : Pattern} (hrule : (kind, pattern) ∈ rules)
    (hkind : kind.isTrivia) (hmatches : pattern.Matches s) : IsTrivia s := by
  have hforms : ∀ rule ∈ rules.drop 4, rule.1.isTrivia = false := by decide
  have hrules : rules = [(.whitespace, blanks), (.whitespace, splice), (.comment, lineComment),
    (.comment, blockComment)] ++ rules.drop 4 := rfl
  rw [hrules, List.mem_append] at hrule
  rcases hrule with hrule | hrule
  · simp only [List.mem_cons, Prod.mk.injEq, List.not_mem_nil, or_false] at hrule
    rcases hrule with ⟨-, rfl⟩ | ⟨-, rfl⟩ | ⟨-, rfl⟩ | ⟨-, rfl⟩
    · obtain ⟨hne, hblank⟩ := matches_blanks_iff.mp hmatches
      exact .blanks hne hblank
    · obtain ⟨mark, rest, rfl, hmark, hrest⟩ := matches_seq_iff.mp hmatches
      obtain ⟨carriage, feed, rfl, -, hfeed⟩ := matches_seq_iff.mp hrest
      rw [matches_single_iff.mp hmark, matches_single_iff.mp hfeed]
      exact .splice List.getLast?_concat
    · obtain ⟨mark, rest, rfl, hmark, hrest⟩ := matches_seq_iff.mp hmatches
      rw [matches_literal_iff.mp hmark]
      refine .lineComment fun hfeed => ?_
      have hother := matches_star_char_iff.mp hrest '\n' hfeed
      simp [mem_noneOf_iff] at hother
    · obtain ⟨mark, rest, rfl, hmark, hrest⟩ := matches_seq_iff.mp hmatches
      rw [matches_literal_iff.mp hmark]
      exact .blockComment (matches_commentRest_iff.mp hrest)
  · rw [hforms _ hrule] at hkind
    cases hkind

end Token

namespace Lexer

open Pattern Token

variable {first rest rest' more s : Text} {c : Char} {kind : TokenKind}

/-! ### Where trivia ends -/

/-- Behind a blank, only blanks are described. -/
theorem blank_of_isDescribed (hc : c ∈ blankChars) (hdescribed : IsDescribed (c :: s)) :
    ∀ d ∈ s, d ∈ blankChars := by
  have honly : [c].foldl step rules = [(.whitespace, star (char (.oneOf blankChars)))] := by
    simp only [blankChars, List.mem_cons, List.not_mem_nil, or_false] at hc
    rcases hc with rfl | rfl | rfl | rfl | rfl | rfl <;> rfl
  obtain ⟨rule, hrule, hmatches⟩ := hdescribed
  have hblanks := matches_star_char_iff.mp (matches_of_opening honly hrule hmatches).2
  exact fun d hd => mem_oneOf_iff.mp (hblanks d hd)

theorem not_mem_of_isDescribed_line (hdescribed : IsDescribed ('/' :: '/' :: s)) : '\n' ∉ s := by
  have honly : ['/', '/'].foldl step rules = [(.comment, star (char (.noneOf ['\n'])))] := rfl
  obtain ⟨rule, hrule, hmatches⟩ := hdescribed
  intro hfeed
  have hother := matches_star_char_iff.mp (matches_of_opening honly hrule hmatches).2 '\n' hfeed
  simp [mem_noneOf_iff] at hother

theorem foldl_step_comment : ['/', '*'].foldl step rules = [(.comment, commentRest)] := rfl

theorem closesComment_of_isDescribed (hdescribed : IsDescribed ('/' :: '*' :: s)) :
    Text.ClosesComment s := by
  obtain ⟨rule, hrule, hmatches⟩ := hdescribed
  exact matches_commentRest_iff.mp (matches_of_opening foldl_step_comment hrule hmatches).2

/-- A described beginning is the first lexeme if no longer one is described. -/
theorem munch_append_of_longest (hne : first ≠ []) (hdescribed : IsDescribed first)
    (hlongest : ∀ more, more <+: rest → IsDescribed (first ++ more) → more = []) :
    munch (first ++ rest) =
      ((rules.find? fun rule => rule.2.accepts first).map Prod.fst, first.length) := by
  have hbegins : first <+: first ++ rest := List.prefix_append first rest
  have hwhole : first ++ rest ≠ [] := List.append_ne_nil_of_left_ne_nil hne rest
  obtain ⟨kind, hkind⟩ : ∃ kind, (munch (first ++ rest)).1 = some kind := by
    refine Option.ne_none_iff_exists'.mp fun hnone => ?_
    exact (munch_fst_eq_none_iff hwhole).mp hnone first hbegins hne hdescribed
  have htake : (first ++ rest).take (munch (first ++ rest)).2 = first := by
    obtain ⟨more, hmore⟩ := prefix_take_munch (hkind ▸ Option.some_ne_none kind) hbegins hdescribed
    obtain ⟨pattern, hrule, hmatches⟩ := exists_of_munch hkind
    have hrest : more <+: rest := by
      rw [← List.prefix_append_right_inj first, hmore]
      exact List.take_prefix _ _
    rw [← hmore] at hmatches
    rw [← hmore, hlongest more hrest ⟨_, hrule, hmatches⟩, List.append_nil]
  have hlength : (munch (first ++ rest)).2 = first.length := by
    rw [← congrArg List.length htake, List.length_take, Nat.min_eq_left (munch_snd_le_length hwhole)]
  have hfind := find?_of_reach_longest (longest_of_munch hkind)
  rw [htake] at hfind
  rw [hfind, ← hkind, ← hlength]

/-- A line comment ends before a line feed. -/
theorem eq_feed_of_munch_line (hmunch : munch ('/' :: '/' :: s ++ rest) = (some kind, s.length + 2))
    (hfeed : '\n' ∉ s) : ∀ c ∈ rest.head?, c = '\n' := by
  intro c hc
  by_contra hother
  obtain ⟨behind, rfl⟩ : ∃ behind, rest = c :: behind := List.head?_eq_some_iff.mp hc
  have hlonger : IsDescribed ('/' :: '/' :: (s ++ [c])) := by
    have hrule : (.comment, lineComment) ∈ rules := by simp [rules]
    have hrest : (star (char (.noneOf ['\n']))).Matches (s ++ [c]) := by
      refine matches_star_char_iff.mpr fun d hd => mem_noneOf_iff.mpr ?_
      rintro hd'
      rw [List.mem_singleton.mp hd', List.mem_append, List.mem_singleton] at hd
      exact hd.elim hfeed (Ne.symm hother)
    exact ⟨_, hrule, .seq (matches_literal_iff.mpr rfl) hrest⟩
  have hkind : (munch ('/' :: '/' :: s ++ c :: behind)).1 ≠ none := by
    rw [hmunch]
    exact Option.some_ne_none kind
  have hle := (prefix_take_munch hkind ⟨behind, by simp⟩ hlonger).length_le
  simp only [hmunch, List.length_take, List.length_cons, List.length_append, List.length_nil] at hle
  omega

end Lexer

open Lexer

namespace Token

variable {start : Position} {text rest rest' gap : Text} {kind : TokenKind}

/-! ### Tokens behind trivia -/

theorem place_map_shift (start : Position) (n : Nat) (lexemes : List Lexeme) :
    place start (lexemes.map (Lexeme.shift n)) = place start lexemes := by
  induction lexemes generalizing start with
  | nil => rfl
  | cons lexeme lexemes ih =>
      rw [List.map_cons, place, place, ih]
      rfl

theorem place_lex_of_ne_nil (hne : text ≠ []) :
    place start (lex text) =
      place start (⟨(munch text).1, text.take (munch text).2, 0⟩ :: lex (text.drop (munch text).2)) := by
  rw [lex_of_ne_nil hne, place, place, place_map_shift]

theorem place_lex_of_munch {first : Text} (hne : first ≠ [])
    (hmunch : munch (first ++ rest) = (some kind, first.length)) (hkind : kind.isTrivia) :
    place start (lex (first ++ rest)) = place (start.after first) (lex rest) := by
  rw [place_lex_of_ne_nil (List.append_ne_nil_of_left_ne_nil hne rest), hmunch, List.take_left,
    List.drop_left, place, if_pos]
  exact hkind

/-- A run of blanks that cannot go on is one lexeme. -/
theorem place_lex_run {run : Text} (hrun : ∀ c ∈ run, c ∈ blankChars)
    (hrest : ∀ c ∈ rest.head?, c ∉ blankChars) :
    place start (lex (run ++ rest)) = place (start.after run) (lex rest) := by
  cases run with
  | nil => rfl
  | cons c run =>
      have hmatches := matches_blanks_iff.mpr ⟨List.cons_ne_nil c run, hrun⟩
      have hfind : (rules.find? fun rule => rule.2.accepts (c :: run)) = some (.whitespace, blanks) :=
        List.find?_cons_of_pos (Pattern.accepts_iff.mpr hmatches)
      have hmunch : munch (c :: run ++ rest) = (some .whitespace, (c :: run).length) := by
        rw [munch_append_of_longest (List.cons_ne_nil c run) ⟨_, List.mem_cons_self, hmatches⟩, hfind]
        · rfl
        · intro more hmore hdescribed
          have hblank := blank_of_isDescribed (hrun c List.mem_cons_self) hdescribed
          cases more with
          | nil => rfl
          | cons d more =>
              obtain ⟨others, rfl⟩ := hmore
              exact absurd (hblank d (by simp)) (hrest d rfl)
      exact place_lex_of_munch (List.cons_ne_nil c run) hmunch rfl

/-- Blanks before a text leave its tokens as they are, also where they join blanks. -/
theorem place_lex_blanks {run : Text} (hrun : ∀ c ∈ run, c ∈ blankChars) :
    place start (lex (run ++ rest)) = place (start.after run) (lex rest) := by
  obtain ⟨more, behind, rfl, hmore, hbehind⟩ : ∃ more behind, rest = more ++ behind ∧
      (∀ c ∈ more, c ∈ blankChars) ∧ ∀ c ∈ behind.head?, c ∉ blankChars := by
    refine ⟨rest.takeWhile (· ∈ blankChars), rest.dropWhile (· ∈ blankChars),
      List.takeWhile_append_dropWhile.symm, fun c hc => ?_, fun c hc hblank => ?_⟩
    · have hpass := List.mem_takeWhile_imp hc
      exact of_decide_eq_true hpass
    · have hstop := List.head?_dropWhile_not (· ∈ blankChars) rest
      rw [hc] at hstop
      simp [hblank] at hstop
  rw [← List.append_assoc, place_lex_run (List.forall_mem_append.mpr ⟨hrun, hmore⟩) hbehind,
    place_lex_run hmore hbehind, Position.after_append]

/-- The text behind trivia may be replaced; behind a line comment, only if a line feed stays one. -/
theorem place_lex_trivia {first : Text} (hne : first ≠ [])
    (hmunch : munch (first ++ rest) = (some kind, first.length)) (hkind : kind.isTrivia)
    (hfeed : (∀ c ∈ rest.head?, c = '\n') → ∀ c ∈ rest'.head?, c = '\n') :
    place start (lex (first ++ rest')) = place (start.after first) (lex rest') := by
  have hfirst : (munch (first ++ rest)).1 = some kind := by rw [hmunch]
  have htake : (first ++ rest).take (munch (first ++ rest)).2 = first := by
    rw [hmunch, List.take_left]
  obtain ⟨pattern, hrule, hmatches⟩ := exists_of_munch hfirst
  have hfind := find?_of_reach_longest (longest_of_munch hfirst)
  rw [htake] at hmatches hfind
  have hother : (∀ more, more <+: rest' → IsDescribed (first ++ more) → more = []) →
      place start (lex (first ++ rest')) = place (start.after first) (lex rest') := by
    intro hlongest
    refine place_lex_of_munch hne ?_ hkind
    rw [munch_append_of_longest hne ⟨_, hrule, hmatches⟩ hlongest, hfind]
  cases isTrivia_of_matches hrule hkind hmatches with
  | blanks _ hblank => exact place_lex_blanks hblank
  | splice hlast =>
      refine hother fun more _ hdescribed => ?_
      obtain ⟨rule, hrule, hmatches⟩ := hdescribed
      exact eq_nil_of_matches_splice (matches_of_backslash hrule hmatches) hlast
  | @lineComment text htext =>
      refine hother fun more hmore hdescribed => ?_
      have hnone := not_mem_of_isDescribed_line hdescribed
      have hend := hfeed (eq_feed_of_munch_line hmunch htext)
      cases more with
      | nil => rfl
      | cons d more =>
          obtain ⟨others, rfl⟩ := hmore
          exact absurd (by simp [hend d rfl]) hnone
  | blockComment hcloses =>
      exact hother fun more _ hdescribed =>
        hcloses.eq_nil_of_append (closesComment_of_isDescribed hdescribed)

/-- Lexemes of trivia that stand before a text. -/
inductive Gap (rest : Text) : Text → Prop where
  | nil : Gap rest []
  | cons {kind : TokenKind} {first gap : Text} : first ≠ [] →
      munch (first ++ (gap ++ rest)) = (some kind, first.length) → kind.isTrivia → Gap rest gap →
      Gap rest (first ++ gap)

/-- A gap before a text that does not begin with a line feed is one before any other text. -/
theorem Gap.place_lex (hgap : Gap rest gap) (hrest : ∃ c ∈ rest.head?, c ≠ '\n') (rest' : Text)
    (start : Position) :
    place start (lex (gap ++ rest')) = place (start.after gap) (lex rest') := by
  induction hgap generalizing start with
  | nil => rfl
  | @cons kind first gap hne hmunch hkind _ ih =>
      rw [List.append_assoc, place_lex_trivia hne hmunch hkind, ih, Position.after_append]
      intro hfeed
      cases gap with
      | nil =>
          obtain ⟨c, hc, hother⟩ := hrest
          exact absurd (hfeed c hc) hother
      | cons d gap => exact hfeed

/-- Where the first token of a text comes from, and where the others do. -/
theorem exists_gap_of_place {token : Token} {tokens : List Token}
    (hplace : place start (lex text) = .ok (token :: tokens)) :
    ∃ gap rest, text = gap ++ rest ∧ Gap rest gap ∧ token.kind = (munch rest).1 ∧
      token.spelling = rest.take (munch rest).2 ∧ token.span.first = start.after gap ∧
      lastPosition token.span.first token.spelling = .ok token.span.last ∧
      place (start.after (gap ++ token.spelling)) (lex (rest.drop (munch rest).2)) = .ok tokens := by
  induction text using lex_induction generalizing start with
  | nil => cases hplace
  | more text hne ih =>
      rw [place_lex_of_ne_nil hne] at hplace
      rcases place_cons_cases hplace with ⟨htrivia, hrest⟩ | ⟨-, last, others, hlast, hrest, heq⟩
      · obtain ⟨gap, rest, htext, hgap, hkind, hspelling, hfirst, hlast, hothers⟩ := ih hrest
        obtain ⟨kind, hmunch, htrivia⟩ := (Option.any_eq_true _ _).mp htrivia
        have hlength : (text.take (munch text).2).length = (munch text).2 := by
          rw [List.length_take, Nat.min_eq_left (munch_snd_le_length hne)]
        have hwhole : text.take (munch text).2 ++ (gap ++ rest) = text := by
          rw [← htext, List.take_append_drop]
        refine ⟨text.take (munch text).2 ++ gap, rest, ?_, ?_, hkind, hspelling, ?_, hlast, ?_⟩
        · rw [List.append_assoc, hwhole]
        · refine .cons (take_munch_ne_nil hne) ?_ htrivia hgap
          rw [hwhole, hlength, ← hmunch]
        · rw [hfirst, Position.after_append]
        · rw [List.append_assoc, Position.after_append]
          exact hothers
      · cases heq
        exact ⟨[], text, rfl, .nil, rfl, rfl, rfl, hlast, hrest⟩

end Token

end PlainC
