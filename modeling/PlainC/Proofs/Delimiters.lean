import PlainC.Proofs.Trivia
import Mathlib.Order.Nat

/-!
# Where comments and literals end

A lexeme is the longest beginning that a rule describes, while a comment or a literal should end at its first
closing mark. The two agree: behind the opening one rule is left, and of the texts that it describes none
begins with another. So a comment goes on to the first `*/`, and a literal to the first quote that no
backslash escapes, if no line feed comes before that is not escaped either. Where there is no such mark, the
opening is cut short.
-/

namespace PlainC

namespace Text

/-! ### The mark that closes a comment -/

/-- That `*/` stands behind `n` characters, of which the first two open a comment. -/
def ClosesAt (text : Text) (n : Nat) : Prop := 2 ≤ n ∧ ['*', '/'] <+: text.drop n

theorem exists_closesComment {text : Text} {n : Nat}
    (hleast : IsLeast {n | ClosesAt ('/' :: '*' :: text) n} n) :
    ∃ inside rest, text = inside ++ rest ∧ n = inside.length ∧ ClosesComment inside := by
  obtain ⟨⟨hn, hmark⟩, hfirst⟩ := hleast
  obtain ⟨m, rfl⟩ : ∃ m, n = m + 2 := ⟨n - 2, by omega⟩
  rw [List.drop_succ_cons, List.drop_succ_cons] at hmark
  obtain ⟨rest, hrest⟩ := hmark
  have htext : text = text.take m ++ ['*', '/'] ++ rest := by
    rw [List.append_assoc, hrest, List.take_append_drop]
  have hlength : (text.take m).length = m := by
    have hdrop := congrArg List.length hrest
    rw [List.length_append, List.length_drop] at hdrop
    rw [List.length_take]
    simp only [List.length_cons, List.length_nil] at hdrop
    omega
  refine ⟨text.take m ++ ['*', '/'], rest, htext, by simp [hlength], text.take m, rfl, ?_⟩
  rintro ⟨before, behind, hinfix⟩
  -- An earlier mark would begin at least one character before the first one.
  have hbefore : before.length + 1 ≤ m := by
    have hlengths := congrArg List.length hinfix
    simp only [List.length_append, List.length_cons, List.length_nil, hlength] at hlengths
    omega
  have hearlier : ClosesAt ('/' :: '*' :: text) (before.length + 2) := by
    refine ⟨by omega, ?_⟩
    rw [List.drop_succ_cons, List.drop_succ_cons, htext]
    refine ⟨behind ++ '/' :: rest, ?_⟩
    rw [show text.take m ++ ['*', '/'] ++ rest = text.take m ++ ['*'] ++ '/' :: rest by simp,
      ← hinfix, List.append_assoc, List.append_assoc, List.drop_left]
  have hle := hfirst hearlier
  omega

/-! ### The quote that closes a literal -/

/-- Whether a backslash takes the character at an index with it. `armed` tells this of the first one. -/
def escapedFrom : (armed : Bool) → Text → Nat → Bool
  | armed, _, 0 => armed
  | _, [], _ + 1 => false
  | armed, c :: text, n + 1 => escapedFrom (!armed && c = '\\') text n

def escaped (text : Text) (n : Nat) : Bool := escapedFrom false text n

/-- A quote that no backslash escapes, before any line feed that none escapes. -/
def IsClosingQuote (quote : Char) (text : Text) (n : Nat) : Prop :=
  text[n]? = some quote ∧ ¬escaped text n ∧ ∀ m < n, text[m]? = some '\n' → escaped text m

/-- The first such quote; `armed` tells whether the first character is escaped. -/
structure FirstQuote (quote : Char) (armed : Bool) (text : Text) (n : Nat) : Prop where
  found : text[n]? = some quote
  bare : escapedFrom armed text n = false
  before : ∀ m < n, text[m]? = some quote ∨ text[m]? = some '\n' → escapedFrom armed text m

def ClosesLiteral (quote : Char) (armed : Bool) (text : Text) : Prop :=
  ∃ n, text.length = n + 1 ∧ FirstQuote quote armed text n

section FirstQuote

variable {quote c : Char} {armed : Bool} {text more : Text} {m n : Nat}

theorem firstQuote_zero_iff : FirstQuote quote armed (c :: text) 0 ↔ c = quote ∧ armed = false := by
  constructor
  · rintro ⟨hquote, hbare, -⟩
    exact ⟨by simpa using hquote, hbare⟩
  · rintro ⟨rfl, rfl⟩
    exact ⟨rfl, rfl, fun m hm => absurd hm (Nat.not_lt_zero m)⟩

theorem firstQuote_succ_iff : FirstQuote quote armed (c :: text) (n + 1) ↔
    (c = quote ∨ c = '\n' → armed) ∧ FirstQuote quote (!armed && c = '\\') text n := by
  constructor
  · rintro ⟨hquote, hbare, hbefore⟩
    refine ⟨fun hc => ?_, hquote, hbare, fun m hm hmark => ?_⟩
    · exact hbefore 0 (Nat.succ_pos n) (by simpa using hc)
    · exact hbefore (m + 1) (Nat.succ_lt_succ hm) hmark
  · rintro ⟨hfirst, hquote, hbare, hbefore⟩
    refine ⟨hquote, hbare, fun m hm hmark => ?_⟩
    cases m with
    | zero => exact hfirst (by simpa using hmark)
    | succ m => exact hbefore m (Nat.lt_of_succ_lt_succ hm) hmark

theorem closesLiteral_cons_iff : ClosesLiteral quote armed (c :: text) ↔
    text = [] ∧ c = quote ∧ armed = false ∨
      (c = quote ∨ c = '\n' → armed) ∧ ClosesLiteral quote (!armed && c = '\\') text := by
  constructor
  · rintro ⟨n, hlength, hfirst⟩
    rw [List.length_cons, Nat.add_right_cancel_iff] at hlength
    cases n with
    | zero => exact .inl ⟨List.eq_nil_of_length_eq_zero hlength, firstQuote_zero_iff.mp hfirst⟩
    | succ n =>
        obtain ⟨hmark, hrest⟩ := firstQuote_succ_iff.mp hfirst
        exact .inr ⟨hmark, n, hlength, hrest⟩
  · rintro (⟨rfl, hc⟩ | ⟨hmark, n, hlength, hrest⟩)
    · exact ⟨0, rfl, firstQuote_zero_iff.mpr hc⟩
    · exact ⟨n + 1, by rw [List.length_cons, hlength], firstQuote_succ_iff.mpr ⟨hmark, hrest⟩⟩

theorem firstQuote_append_iff (hn : n < text.length) :
    FirstQuote quote armed (text ++ more) n ↔ FirstQuote quote armed text n := by
  induction text generalizing armed n with
  | nil => exact absurd hn (Nat.not_lt_zero n)
  | cons c text ih =>
      cases n with
      | zero => rw [List.cons_append, firstQuote_zero_iff, firstQuote_zero_iff]
      | succ n =>
          rw [List.cons_append, firstQuote_succ_iff, firstQuote_succ_iff,
            ih (Nat.lt_of_succ_lt_succ hn)]

theorem FirstQuote.lt_length (h : FirstQuote quote armed text n) : n < text.length := by
  obtain ⟨hn, -⟩ := List.getElem?_eq_some_iff.mp h.found
  exact hn

theorem FirstQuote.le (hm : FirstQuote quote armed text m) (hn : FirstQuote quote armed text n) :
    n ≤ m := by
  by_contra hlt
  have hescaped := hn.before m (Nat.lt_of_not_le hlt) (.inl hm.found)
  rw [hm.bare] at hescaped
  cases hescaped

theorem isLeast_isClosingQuote_iff :
    IsLeast {n | IsClosingQuote quote text n} n ↔ FirstQuote quote false text n := by
  constructor
  · rintro ⟨⟨hquote, hbare, hfeed⟩, hleast⟩
    refine ⟨hquote, Bool.of_not_eq_true hbare, fun m hm hmark => ?_⟩
    rcases hmark with hmark | hmark
    · by_contra hescaped
      have hle := hleast ⟨hmark, hescaped, fun k hk => hfeed k (hk.trans hm)⟩
      omega
    · exact hfeed m hm hmark
  · rintro ⟨hquote, hbare, hbefore⟩
    refine ⟨⟨hquote, by simp [escaped, hbare], fun m hm hfeed => hbefore m hm (.inr hfeed)⟩, ?_⟩
    rintro m ⟨hquote', hbare', -⟩
    by_contra hlt
    exact hbare' (hbefore m (Nat.lt_of_not_le hlt) (.inl hquote'))

theorem exists_isClosingQuote_iff :
    (∃ n, IsClosingQuote quote text n) ↔ ∃ n, FirstQuote quote false text n := by
  classical
  constructor
  · intro hcloses
    exact ⟨_, isLeast_isClosingQuote_iff.mp (Nat.isLeast_find hcloses)⟩
  · rintro ⟨n, hfirst⟩
    exact ⟨n, (isLeast_isClosingQuote_iff.mpr hfirst).1⟩

end FirstQuote

end Text

namespace Token

open Pattern

/-! ### Literals -/

/-- What follows in a literal, with or without a character before it that a backslash escapes. -/
def literalLeft (quote : Char) : (armed : Bool) → Pattern
  | false => literalRest quote
  | true => seq (seq (char (.noneOf [])) (star (literalChar quote))) (char (.single quote))

section LiteralRest

variable {quote c : Char} {armed : Bool} {s more : Text}

theorem derive_literalLeft_armed : (literalLeft quote true).derive c = literalLeft quote false := by
  have hany : (CharSet.noneOf []).mem c := mem_noneOf_iff.mpr List.not_mem_nil
  simp [literalLeft, literalRest, derive, nullable, andThen, hany]

theorem derive_literalRest (hslash : quote ≠ '\\') (hfeed : quote ≠ '\n') :
    (literalRest quote).derive c =
      if c = quote then done else if c = '\n' then fail else literalLeft quote (c = '\\') := by
  have hplain : (CharSet.noneOf [quote, '\\', '\n']).mem c = decide (c ∉ [quote, '\\', '\n']) := by
    rw [Bool.eq_iff_iff, mem_noneOf_iff, decide_eq_true_iff]
  have hsingle : ∀ d, (CharSet.single d).mem c = decide (c = d) := by
    intro d
    rw [Bool.eq_iff_iff, mem_single_iff, decide_eq_true_iff]
  by_cases hquote : c = quote
  · subst hquote
    simp [literalRest, literalChar, derive, nullable, hplain, hsingle, hslash, either, andThen]
  by_cases hline : c = '\n'
  · subst hline
    simp [literalRest, literalChar, derive, nullable, hplain, hsingle, hquote, either, andThen]
  by_cases hescape : c = '\\'
  · subst hescape
    simp [literalLeft, literalRest, literalChar, derive, nullable, hplain, hsingle, hquote, either,
      andThen]
  · simp [literalLeft, literalRest, literalChar, derive, nullable, hplain, hsingle, hquote, hline,
      hescape, either, andThen]

theorem matches_literalLeft_iff (hslash : quote ≠ '\\') (hfeed : quote ≠ '\n') :
    (literalLeft quote armed).Matches s ↔ Text.ClosesLiteral quote armed s := by
  induction s generalizing armed with
  | nil =>
      refine iff_of_false (fun h => ?_) (by rintro ⟨n, hlength, -⟩; cases hlength)
      have hnullable := nullable_iff.mpr h
      cases armed <;> simp [literalLeft, literalRest, nullable] at hnullable
  | cons c s ih =>
      rw [← matches_derive_iff, Text.closesLiteral_cons_iff]
      cases armed with
      | true => simp [derive_literalLeft_armed, ih]
      | false =>
          rw [literalLeft, derive_literalRest hslash hfeed]
          split <;> rename_i hquote
          · simp [hquote, matches_done_iff]
          · split <;> rename_i hline
            · simp [hline, hfeed.symm, not_matches_fail]
            · simp [hquote, hline, ih]

end LiteralRest

/-- The marks of a kind of literals: the quote, and what may stand before the opening one. -/
structure LiteralMark where
  kind : TokenKind
  quote : Char
  encodings : List Text

def literalMarks : List LiteralMark := [
  ⟨.char, '\x27', [[], ['L'], ['u'], ['U']]⟩,
  ⟨.string, '\x22', [[], ['u', '8'], ['L'], ['u'], ['U']]⟩]

/-- Where a lexeme ends that begins like a comment or a literal. -/
structure IsDelimited (rest : Text) (kind : Option TokenKind) (first : Text) : Prop where
  comment_iff : ['/', '*'] <+: rest → (kind = some .comment ↔ ∃ n, Text.ClosesAt rest n)
  comment_end : ['/', '*'] <+: rest → ∀ n, IsLeast {n | Text.ClosesAt rest n} n →
    first = rest.take (n + 2)
  slash : ['/', '*'] <+: rest → kind ≠ some .comment → kind = some .operator ∧ first = ['/']
  literal_iff : ∀ mark ∈ literalMarks, ∀ encoding ∈ mark.encodings, ∀ body,
    rest = encoding ++ mark.quote :: body →
      (kind = some .char ∨ kind = some .string ↔ ∃ n, Text.IsClosingQuote mark.quote body n)
  literal_end : ∀ mark ∈ literalMarks, ∀ encoding ∈ mark.encodings, ∀ body,
    rest = encoding ++ mark.quote :: body →
      ∀ n, IsLeast {n | Text.IsClosingQuote mark.quote body n} n →
        kind = some mark.kind ∧ first = encoding ++ mark.quote :: body.take (n + 1)

end Token

namespace Lexer

open Pattern Token

/-! ### Openings that leave one rule -/

section Opening

variable {rules : List (TokenKind × Pattern)} {opening s rest : Text} {kind : TokenKind}
  {pattern left : Pattern}

theorem exists_of_mem_foldl_step (hmem : (kind, left) ∈ opening.foldl step rules)
    (hmatches : left.Matches s) :
    ∃ pattern, (kind, pattern) ∈ rules ∧ pattern.Matches (opening ++ s) := by
  induction opening generalizing rules with
  | nil => exact ⟨left, hmem, hmatches⟩
  | cons c opening ih =>
      obtain ⟨derived, hderived, hrest⟩ := ih hmem
      obtain ⟨pattern, hrule, rfl⟩ := exists_of_mem_step hderived
      exact ⟨pattern, hrule, matches_derive_iff.mp hrest⟩

variable (honly : opening.foldl step Token.rules = [(kind, left)])
include honly

/-- What the one rule describes is the first lexeme, if nothing longer is described. -/
theorem munch_opening (hne : opening ≠ []) (hmatches : left.Matches s)
    (hlongest : ∀ more, left.Matches (s ++ more) → more = []) :
    munch (opening ++ s ++ rest) = (some kind, (opening ++ s).length) := by
  obtain ⟨pattern, hrule, hwhole⟩ := exists_of_mem_foldl_step
    (show (kind, left) ∈ opening.foldl step Token.rules by simp [honly]) hmatches
  have hlongest' : ∀ more, more <+: rest → IsDescribed (opening ++ s ++ more) → more = [] := by
    rintro more - ⟨rule, hrule', hmore⟩
    rw [List.append_assoc] at hmore
    exact hlongest more (matches_of_opening honly hrule' hmore).2
  rw [munch_append_of_longest (List.append_ne_nil_of_left_ne_nil hne s) ⟨_, hrule, hwhole⟩ hlongest']
  cases hfind : Token.rules.find? fun rule => rule.2.accepts (opening ++ s) with
  | none =>
      have hnone := List.find?_eq_none.mp hfind _ hrule
      exact absurd (accepts_iff.mpr hwhole) hnone
  | some found =>
      have haccepts := List.find?_some hfind
      rw [Option.map_some, (matches_of_opening honly (List.mem_of_find?_eq_some hfind)
        (accepts_iff.mp haccepts)).1]

/-- If the one rule describes nothing, a first lexeme with a kind is cut short inside the opening. -/
theorem munch_lt_opening (hnone : ∀ s, s <+: rest → ¬left.Matches s) {other : TokenKind}
    (hkind : (munch (opening ++ rest)).1 = some other) :
    (munch (opening ++ rest)).2 < opening.length := by
  by_contra hlt
  rw [Nat.not_lt] at hlt
  obtain ⟨pattern, hrule, hmatches⟩ := exists_of_munch hkind
  rw [List.take_append, List.take_of_length_le hlt] at hmatches
  exact hnone _ (List.take_prefix _ _) (matches_of_opening honly hrule hmatches).2

end Opening

theorem munch_fst_of_some {rest : Text} {kind : TokenKind} (hkind : (munch rest).1 = some kind) :
    (Token.rules.find? fun rule => rule.2.accepts (rest.take (munch rest).2)).map Prod.fst =
      some kind :=
  find?_of_reach_longest (longest_of_munch hkind)

/-! ### Comments -/

section Comment

variable {text : Text} {n : Nat}

theorem munch_comment (hleast : IsLeast {n | Text.ClosesAt ('/' :: '*' :: text) n} n) :
    munch ('/' :: '*' :: text) = (some .comment, n + 2) := by
  obtain ⟨inside, rest, rfl, rfl, hcloses⟩ := Text.exists_closesComment hleast
  have hmunch : munch (['/', '*'] ++ inside ++ rest) = (some .comment, (['/', '*'] ++ inside).length) :=
    munch_opening foldl_step_comment (List.cons_ne_nil _ _) (matches_commentRest_iff.mpr hcloses)
      fun more hmore => hcloses.eq_nil_of_append (matches_commentRest_iff.mp hmore)
  simpa using hmunch

theorem munch_open_comment (hopen : ¬∃ n, Text.ClosesAt ('/' :: '*' :: text) n) :
    munch ('/' :: '*' :: text) = (some .operator, 1) := by
  have hnone : ∀ s, s <+: text → ¬commentRest.Matches s := by
    rintro s ⟨rest, rfl⟩ hmatches
    obtain ⟨inside, rfl, -⟩ := matches_commentRest_iff.mp hmatches
    refine hopen ⟨inside.length + 2, Nat.le_add_left _ _, rest, ?_⟩
    rw [List.drop_succ_cons, List.drop_succ_cons, List.append_assoc, List.drop_left]
  have hslash : IsDescribed ['/'] := ⟨(.operator, operatorPattern), by simp [rules],
    accepts_iff.mp (by decide)⟩
  obtain ⟨kind, hkind⟩ : ∃ kind, (munch ('/' :: '*' :: text)).1 = some kind := by
    refine Option.ne_none_iff_exists'.mp fun hnone => ?_
    exact (munch_fst_eq_none_iff (List.cons_ne_nil _ _)).mp hnone ['/'] ⟨'*' :: text, rfl⟩
      (List.cons_ne_nil _ _) hslash
  have hlength : (munch ('/' :: '*' :: text)).2 = 1 := by
    have hlt : (munch ('/' :: '*' :: text)).2 < 2 := munch_lt_opening foldl_step_comment hnone hkind
    have hpos := munch_pos ('/' :: '*' :: text)
    omega
  have hfind := munch_fst_of_some hkind
  rw [hlength, List.take_succ_cons, List.take_zero,
    show (rules.find? fun rule => rule.2.accepts ['/']).map Prod.fst = some .operator by decide] at hfind
  rw [← hlength, hfind, ← hkind]

end Comment

/-! ### Literals -/

section Literal

variable {mark : LiteralMark} {encoding body : Text} {n : Nat}

theorem quote_of_mem (hmark : mark ∈ literalMarks) : mark.quote ≠ '\\' ∧ mark.quote ≠ '\n' := by
  simp only [literalMarks, List.mem_cons, List.not_mem_nil, or_false] at hmark
  rcases hmark with rfl | rfl <;> decide

theorem foldl_step_literal (hmark : mark ∈ literalMarks) (hencoding : encoding ∈ mark.encodings) :
    (encoding ++ [mark.quote]).foldl step rules =
      [(mark.kind, literalLeft mark.quote false)] := by
  simp only [literalMarks, List.mem_cons, List.not_mem_nil, or_false] at hmark
  rcases hmark with rfl | rfl
  · simp only [List.mem_cons, List.not_mem_nil, or_false] at hencoding
    rcases hencoding with rfl | rfl | rfl | rfl <;> rfl
  · simp only [List.mem_cons, List.not_mem_nil, or_false] at hencoding
    rcases hencoding with rfl | rfl | rfl | rfl | rfl <;> rfl

theorem munch_literal (hmark : mark ∈ literalMarks) (hencoding : encoding ∈ mark.encodings)
    (hfirst : Text.FirstQuote mark.quote false body n) :
    munch (encoding ++ mark.quote :: body) = (some mark.kind, encoding.length + 1 + (n + 1)) := by
  obtain ⟨hslash, hfeed⟩ := quote_of_mem hmark
  have hlength : (body.take (n + 1)).length = n + 1 := by
    rw [List.length_take, Nat.min_eq_left hfirst.lt_length]
  have hinside : Text.FirstQuote mark.quote false (body.take (n + 1)) n := by
    rw [← List.take_append_drop (n + 1) body] at hfirst
    exact (Text.firstQuote_append_iff (by omega)).mp hfirst
  have hmunch : munch (encoding ++ [mark.quote] ++ body.take (n + 1) ++ body.drop (n + 1)) =
      (some mark.kind, (encoding ++ [mark.quote] ++ body.take (n + 1)).length) := by
    refine munch_opening (foldl_step_literal hmark hencoding) (by simp)
      ((matches_literalLeft_iff hslash hfeed).mpr ⟨n, hlength, hinside⟩) fun more hmore => ?_
    -- The first quote of a longer text is the same one, and would be the last character of it.
    obtain ⟨m, hm, hmore⟩ := (matches_literalLeft_iff hslash hfeed).mp hmore
    have hle := ((Text.firstQuote_append_iff (by omega)).mpr hinside).le hmore
    rw [List.length_append, hlength] at hm
    exact List.eq_nil_of_length_eq_zero (by omega)
  rw [List.append_assoc, List.take_append_drop, List.append_assoc, List.length_append,
    List.length_append, hlength] at hmunch
  exact hmunch

/-- What may stand before the opening quote is no literal itself. -/
theorem find?_encoding : ∀ mark ∈ literalMarks, ∀ encoding ∈ mark.encodings,
    ∀ k < encoding.length + 1, ∀ kind ∈ [TokenKind.char, TokenKind.string],
      (rules.find? fun rule => rule.2.accepts (encoding.take k)).map Prod.fst ≠ some kind := by
  decide +kernel

theorem not_literal_of_open (hmark : mark ∈ literalMarks) (hencoding : encoding ∈ mark.encodings)
    (hopen : ¬∃ n, Text.FirstQuote mark.quote false body n) {kind : TokenKind}
    (hkind : kind ∈ [TokenKind.char, TokenKind.string]) :
    (munch (encoding ++ mark.quote :: body)).1 ≠ some kind := by
  intro hmunch
  obtain ⟨hslash, hfeed⟩ := quote_of_mem hmark
  have hnone : ∀ s, s <+: body → ¬(literalLeft mark.quote false).Matches s := by
    rintro s ⟨rest, rfl⟩ hmatches
    obtain ⟨n, hlength, hfirst⟩ := (matches_literalLeft_iff hslash hfeed).mp hmatches
    exact hopen ⟨n, (Text.firstQuote_append_iff (by omega)).mpr hfirst⟩
  have hlt : (munch (encoding ++ mark.quote :: body)).2 < encoding.length + 1 := by
    rw [List.append_cons] at hmunch ⊢
    have hshort := munch_lt_opening (foldl_step_literal hmark hencoding) hnone hmunch
    rwa [List.length_append, List.length_singleton] at hshort
  have hfind := munch_fst_of_some hmunch
  rw [List.take_append_of_le_length (by omega)] at hfind
  exact find?_encoding mark hmark encoding hencoding _ hlt kind hkind hfind

end Literal

theorem munch_comment_cases (text : Text) :
    (∃ n, IsLeast {n | Text.ClosesAt ('/' :: '*' :: text) n} n ∧
        munch ('/' :: '*' :: text) = (some .comment, n + 2)) ∨
      (¬∃ n, Text.ClosesAt ('/' :: '*' :: text) n) ∧
        munch ('/' :: '*' :: text) = (some .operator, 1) := by
  classical
  by_cases hcloses : ∃ n, Text.ClosesAt ('/' :: '*' :: text) n
  · exact .inl ⟨_, Nat.isLeast_find hcloses, munch_comment (Nat.isLeast_find hcloses)⟩
  · exact .inr ⟨hcloses, munch_open_comment hcloses⟩

theorem isDelimited_munch (rest : Text) :
    IsDelimited rest (munch rest).1 (rest.take (munch rest).2) := by
  constructor
  case comment_iff =>
    rintro ⟨text, rfl⟩
    rcases munch_comment_cases text with ⟨n, hleast, hmunch⟩ | ⟨hopen, hmunch⟩
    · exact iff_of_true (by simp [hmunch]) ⟨n, hleast.1⟩
    · exact iff_of_false (by simp [hmunch]) hopen
  case comment_end =>
    rintro ⟨text, rfl⟩ n hleast
    have hmunch : munch (['/', '*'] ++ text) = (some .comment, n + 2) := munch_comment hleast
    rw [hmunch]
  case slash =>
    rintro ⟨text, rfl⟩ hkind
    rcases munch_comment_cases text with ⟨n, hleast, hmunch⟩ | ⟨hopen, hmunch⟩
    · exact absurd (by simp [hmunch]) hkind
    · simp [hmunch]
  case literal_iff =>
    rintro mark hmark encoding hencoding body rfl
    have hkinds : ∀ mark ∈ literalMarks, mark.kind = .char ∨ mark.kind = .string := by decide
    rw [Text.exists_isClosingQuote_iff]
    by_cases hcloses : ∃ n, Text.FirstQuote mark.quote false body n
    · obtain ⟨n, hfirst⟩ := hcloses
      rw [munch_literal hmark hencoding hfirst, Option.some.injEq, Option.some.injEq]
      exact iff_of_true (hkinds mark hmark) ⟨n, hfirst⟩
    · refine iff_of_false (not_or.mpr ⟨?_, ?_⟩) hcloses
      · exact not_literal_of_open hmark hencoding hcloses (by simp)
      · exact not_literal_of_open hmark hencoding hcloses (by simp)
  case literal_end =>
    rintro mark hmark encoding hencoding body rfl n hleast
    rw [munch_literal hmark hencoding (Text.isLeast_isClosingQuote_iff.mp hleast), Nat.add_assoc,
      List.take_length_add_append, Nat.add_comm 1, List.take_succ_cons]
    exact ⟨rfl, rfl⟩

end Lexer

/-! ### All lexemes -/

open Lexer

section Lexemes

variable {text : Text} {lexeme other : Lexeme}

theorem exists_rest_of_mem_lex (hmem : lexeme ∈ lex text) :
    ∃ rest, Text.drop? lexeme.start text = some rest ∧ lexeme.kind = (munch rest).1 ∧
      lexeme.text = rest.take (munch rest).2 := by
  obtain ⟨earlier, later, hlex⟩ := List.append_of_mem hmem
  obtain ⟨rest, htext, rfl⟩ := exists_munch_of_lex hlex
  exact ⟨rest, Text.drop?_eq_some_iff.mpr ⟨_, htext, rfl⟩, rfl, rfl⟩

theorem stop_le_start_of_lex {earlier later : List Lexeme} (hlex : lex text = earlier ++ lexeme :: later)
    (hother : other ∈ later) : lexeme.stop ≤ other.start := by
  obtain ⟨between, behind, rfl⟩ := List.append_of_mem hother
  have hsplit : lex text = (earlier ++ [lexeme] ++ between) ++ other :: behind := by simp [hlex]
  calc
    lexeme.stop = Text.byteLength ((earlier ++ [lexeme]).flatMap Lexeme.text) := stop_of_lex hlex
    _ ≤ Text.byteLength ((earlier ++ [lexeme]).flatMap Lexeme.text) +
        Text.byteLength (between.flatMap Lexeme.text) := Nat.le_add_right _ _
    _ = other.start := by
      rw [start_of_lex hsplit, ← Text.byteLength_append, ← List.flatMap_append]

theorem stop_le_start_or (hmem : lexeme ∈ lex text) (hother : other ∈ lex text) (hne : other ≠ lexeme) :
    other.stop ≤ lexeme.start ∨ lexeme.stop ≤ other.start := by
  obtain ⟨earlier, later, hlex⟩ := List.append_of_mem hmem
  rw [hlex, List.mem_append, List.mem_cons] at hother
  rcases hother with hother | rfl | hother
  · obtain ⟨front, between, rfl⟩ := List.append_of_mem hother
    rw [List.append_assoc, List.cons_append] at hlex
    exact .inl (stop_le_start_of_lex hlex (by simp))
  · exact absurd rfl hne
  · exact .inr (stop_le_start_of_lex hlex hother)

end Lexemes

/-- Comments and literals end at their first closing mark, and no keyword is found inside them. -/
theorem comments_and_literals_end_at_first_mark {text : Text} {lexeme : Lexeme}
    (hmem : lexeme ∈ lex text) :
    ∃ rest, Text.drop? lexeme.start text = some rest ∧
      Token.IsDelimited rest lexeme.kind lexeme.text ∧
      (lexeme.kind ∈ [some .comment, some .char, some .string] →
        ∀ other ∈ lex text, other.kind ∈ [some .staticKeyword, some .typedefKeyword] →
          other.stop ≤ lexeme.start ∨ lexeme.stop ≤ other.start) := by
  obtain ⟨rest, hdrop, hkind, htext⟩ := exists_rest_of_mem_lex hmem
  refine ⟨rest, hdrop, ?_, fun hopaque other hother hkeyword => ?_⟩
  · rw [hkind, htext]
    exact isDelimited_munch rest
  · refine stop_le_start_or hmem hother ?_
    rintro rfl
    simp only [List.mem_cons, List.not_mem_nil, or_false] at hopaque hkeyword
    rcases hkeyword with hkeyword | hkeyword <;> simp [hkeyword] at hopaque

theorem comments_and_literals_end_at_first_mark_behind_escape :
    ⟨some .string, "\"\\\"static\"".toList, 8⟩ ∈ lex "typedef \"\\\"static\" /*/".toList ∧
      Token.IsDelimited "\"\\\"static\" /*/".toList (some .string) "\"\\\"static\"".toList ∧
      ∀ other ∈ lex "typedef \"\\\"static\" /*/".toList,
        other.kind ∈ [some .staticKeyword, some .typedefKeyword] →
          other.stop ≤ 8 ∨ 18 ≤ other.start := by
  have hmem : ⟨some .string, "\"\\\"static\"".toList, 8⟩ ∈
      lex "typedef \"\\\"static\" /*/".toList := by decide +kernel
  have hdrop : Text.drop? 8 "typedef \"\\\"static\" /*/".toList =
      some "\"\\\"static\" /*/".toList := by decide +kernel
  obtain ⟨rest, hrest, hdelimited, hapart⟩ := comments_and_literals_end_at_first_mark hmem
  obtain rfl := Option.some.inj (hdrop.symm.trans hrest)
  exact ⟨hmem, hdelimited, hapart (by simp)⟩

end PlainC
