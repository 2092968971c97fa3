import PlainC.Proofs.Lexing

/-!
# Lexemes that end in a line feed

A lexeme with a kind ends in a line feed only if it is trivia. One without a kind is a text that could
still have become a token, none of whose beginnings is one. So its first character is one that no rule
describes alone, a quote or a backslash; and behind those a line feed is taken in one case, in a literal
that was opened and not closed, with a backslash before the line feed.
-/

namespace PlainC

namespace Pattern

variable {p q : Pattern} {s : Text} {c : Char}

/-- Whether a text that is described can end in `c`. -/
def canEndIn (c : Char) : Pattern → Bool
  | fail => false
  | done => false
  | char set => set.mem c
  | seq p q => q.canEndIn c || q.nullable && p.canEndIn c
  | alt p q => p.canEndIn c || q.canEndIn c
  | star p => p.canEndIn c

theorem canEndIn_of_matches (hmatches : Matches p s) (hlast : s.getLast? = some c) :
    p.canEndIn c := by
  induction hmatches with
  | done => cases hlast
  | char hmem =>
      cases hlast
      exact hmem
  | @seq p q s t hs ht ihs iht =>
      rw [canEndIn, Bool.or_eq_true, Bool.and_eq_true]
      by_cases hempty : t = []
      · subst hempty
        rw [List.append_nil] at hlast
        exact .inr ⟨nullable_iff.mpr ht, ihs hlast⟩
      · rw [List.getLast?_append_of_ne_nil s hempty] at hlast
        exact .inl (iht hlast)
  | left _ ih =>
      rw [canEndIn, Bool.or_eq_true]
      exact .inl (ih hlast)
  | right _ ih =>
      rw [canEndIn, Bool.or_eq_true]
      exact .inr (ih hlast)
  | stop => cases hlast
  | @again p s t hs ht ihs iht =>
      by_cases hempty : t = []
      · subst hempty
        rw [List.append_nil] at hlast
        exact ihs hlast
      · rw [List.getLast?_append_of_ne_nil s hempty] at hlast
        exact iht hlast

/-- Whether a text that is described begins with an ASCII character, if with any. -/
def startsAscii : Pattern → Bool
  | fail => true
  | done => true
  | char set => !set.negated && set.ranges.all fun range => range.2.toNat < 128
  | seq p q => p.startsAscii && (!p.nullable || q.startsAscii)
  | alt p q => p.startsAscii && q.startsAscii
  | star p => p.startsAscii

theorem toNat_lt_of_mem {set : CharSet} (hascii : (char set).startsAscii) (hmem : set.mem c) :
    c.toNat < 128 := by
  rw [startsAscii, Bool.and_eq_true, Bool.not_eq_true', List.all_eq_true] at hascii
  rw [CharSet.mem, hascii.1, Bool.false_bne, List.any_eq_true] at hmem
  obtain ⟨range, hrange, hmem⟩ := hmem
  rw [Bool.and_eq_true, decide_eq_true_eq, decide_eq_true_eq] at hmem
  exact Nat.lt_of_le_of_lt hmem.2 (of_decide_eq_true (hascii.2 range hrange))

theorem toNat_lt_of_matches (hascii : p.startsAscii) (hmatches : Matches p (c :: s)) :
    c.toNat < 128 := by
  generalize htext : c :: s = text at hmatches
  induction hmatches generalizing s with
  | done => cases htext
  | char hmem =>
      cases htext
      exact toNat_lt_of_mem hascii hmem
  | @seq p q first rest hfirst hrest ihp ihq =>
      rw [startsAscii, Bool.and_eq_true, Bool.or_eq_true] at hascii
      cases first with
      | nil =>
          have hnullable := nullable_iff.mpr hfirst
          rw [hnullable] at hascii
          exact ihq (hascii.2.resolve_left Bool.false_ne_true) htext
      | cons d first =>
          cases htext
          exact ihp hascii.1 rfl
  | left _ ih =>
      rw [startsAscii, Bool.and_eq_true] at hascii
      exact ih hascii.1 htext
  | right _ ih =>
      rw [startsAscii, Bool.and_eq_true] at hascii
      exact ih hascii.2 htext
  | stop => cases htext
  | @again p first rest hfirst hrest ihp ihq =>
      cases first with
      | nil => exact ihq hascii htext
      | cons d first =>
          cases htext
          exact ihp hascii rfl

end Pattern

namespace Token

open Pattern

variable {s growth : Text}

/-- A literal that was opened and not closed, up to a line feed behind a backslash. -/
def IsOpenLiteral (spelling : Text) : Prop :=
  ∃ quote ∈ ['\x27', '\x22'], ∃ inside, (star (literalChar quote)).Matches inside ∧
    spelling = quote :: (inside ++ ['\\', '\n'])

/-- A line feed in a literal stands behind a backslash. -/
theorem eq_of_matches_literalChar {quote : Char} (hmatches : (literalChar quote).Matches (s ++ growth))
    (hlast : s.getLast? = some '\n') : s = ['\\', '\n'] := by
  rcases matches_alt_iff.mp hmatches with hchar | hescape
  · obtain ⟨c, heq, hc⟩ := matches_char_iff.mp hchar
    have hfeed : '\n' ∈ [c] := heq ▸ List.mem_append_left growth (List.mem_of_getLast? hlast)
    rw [← List.mem_singleton.mp hfeed, mem_noneOf_iff] at hc
    simp at hc
  · obtain ⟨a, b, heq, ha, hb⟩ := matches_seq_iff.mp hescape
    obtain ⟨c, rfl, -⟩ := matches_char_iff.mp hb
    rw [matches_single_iff.mp ha] at heq
    obtain ⟨front, rfl⟩ := List.getLast?_eq_some_iff.mp hlast
    cases front with
    | nil => cases heq
    | cons d front =>
        cases front with
        | nil =>
            cases heq
            rfl
        | cons e front => simp at heq

/-- What follows the opening quote of a literal. -/
def literalRest (quote : Char) : Pattern := seq (star (literalChar quote)) (char (.single quote))

/-- What is read of a literal up to a line feed. -/
theorem exists_inside_of_matches {quote : Char} (hquote : quote ≠ '\n')
    (hmatches : (literalRest quote).Matches (s ++ growth))
    (hlast : s.getLast? = some '\n') :
    ∃ inside, (star (literalChar quote)).Matches inside ∧ s = inside ++ ['\\', '\n'] := by
  have hne : s ≠ [] := fun hempty => by simp [hempty] at hlast
  obtain ⟨inside, closing, heq, hinside, hclosing⟩ := matches_seq_iff.mp hmatches
  rw [matches_single_iff.mp hclosing] at heq
  -- the closing quote has not been read, since the last character read is a line feed
  have hunread : ∃ unread, inside = s ++ unread := by
    rcases List.append_eq_append_iff.mp heq with ⟨unread, heq, -⟩ | ⟨read, hread, hrest⟩
    · exact ⟨unread, heq⟩
    · cases read with
      | nil => exact ⟨[], by simpa using hread.symm⟩
      | cons d read =>
          simp only [List.cons_append, List.cons.injEq, List.nil_eq, List.append_eq_nil_iff] at hrest
          rw [hread, hrest.2.1, ← hrest.1, List.getLast?_append] at hlast
          exact absurd (Option.some.inj hlast) hquote
  obtain ⟨unread, rfl⟩ := hunread
  obtain ⟨a, b, c, rfl, hb, ha, hc⟩ := exists_of_matches_star_append hinside hne
  rw [List.getLast?_append_of_ne_nil a hb] at hlast
  exact ⟨a, ha, by rw [eq_of_matches_literalChar hc hlast]⟩

/-- Behind its backslash, a splice ends with the line feed. -/
theorem eq_nil_of_matches_splice
    (hmatches : (seq (optional (char (.single '\r'))) (char (.single '\n'))).Matches (s ++ growth))
    (hlast : s.getLast? = some '\n') : growth = [] := by
  obtain ⟨front, rfl⟩ := List.getLast?_eq_some_iff.mp hlast
  obtain ⟨a, b, heq, ha, hb⟩ := matches_seq_iff.mp hmatches
  rw [matches_single_iff.mp hb, List.append_assoc, List.singleton_append] at heq
  have hfeed : '\n' ∉ a := by
    rcases matches_alt_iff.mp ha with hreturn | hempty
    · rw [matches_single_iff.mp hreturn]
      decide
    · rw [matches_done_iff.mp hempty]
      exact List.not_mem_nil
  rcases List.append_eq_append_iff.mp heq with ⟨c, rfl, hc⟩ | ⟨c, rfl, hc⟩
  · cases c with
    | nil => simpa using hc
    | cons d c =>
        cases hc
        simp at hfeed
  · cases c with
    | nil => simpa using hc.symm
    | cons d c => simp at hc

theorem startsAscii_rules : ∀ rule ∈ rules, rule.2.startsAscii := by
  decide +kernel

/-- Only a quote or a backslash begins a token and is none itself. -/
theorem openings_of_rules : ∀ n < 128, (∀ rule ∈ rules, ¬(rule.2.derive (Char.ofNat n)).nullable) →
    (∃ rule ∈ rules, (rule.2.derive (Char.ofNat n)).viable) →
    Char.ofNat n ∈ ['\x27', '\x22'] ∨ Char.ofNat n = '\\' := by
  decide +kernel

end Token

namespace Lexer

open Pattern Token

variable {text s growth : Text} {c : Char} {kind : TokenKind} {pattern : Pattern}

theorem matches_of_quote {quote : Char} (hquote : quote ∈ ['\x27', '\x22'])
    (hrule : (kind, pattern) ∈ rules) (hmatches : pattern.Matches (quote :: s)) :
    (literalRest quote).Matches s := by
  have honly : ∃ kind, [quote].foldl step rules = [(kind, literalRest quote)] := by
    simp only [List.mem_cons, List.not_mem_nil, or_false] at hquote
    rcases hquote with rfl | rfl
    · exact ⟨.char, rfl⟩
    · exact ⟨.string, rfl⟩
  obtain ⟨_, honly⟩ := honly
  exact (matches_of_opening honly hrule hmatches).2

theorem matches_of_backslash (hrule : (kind, pattern) ∈ rules)
    (hmatches : pattern.Matches ('\\' :: s)) :
    (seq (optional (char (.single '\r'))) (char (.single '\n'))).Matches s := by
  have honly : ['\\'].foldl step rules =
    [(.whitespace, seq (optional (char (.single '\r'))) (char (.single '\n')))] := rfl
  exact (matches_of_opening honly hrule hmatches).2

theorem take_one_of_munch (htake : text.take (munch text).2 = c :: s) : text.take 1 = [c] :=
  calc text.take 1
    _ = (text.take (munch text).2).take 1 := by
      rw [List.take_take, Nat.min_eq_left (munch_pos text)]
    _ = [c] := by rw [htake, List.take_succ_cons, List.take_zero]

/-- A first lexeme without a kind begins with a quote or a backslash, unless it is of one character. -/
theorem opening_of_growth (hkind : (munch text).1 = none)
    (htake : text.take (munch text).2 = c :: s) (hrule : (kind, pattern) ∈ rules)
    (hmatches : pattern.Matches (c :: s ++ growth)) : c ∈ ['\x27', '\x22'] ∨ c = '\\' := by
  have hascii := toNat_lt_of_matches (startsAscii_rules _ hrule) hmatches
  have hviable := viable_of_matches (matches_derive_iff.mpr hmatches)
  have hopening := openings_of_rules c.toNat hascii
  rw [Char.ofNat_toNat] at hopening
  refine hopening ?_ ⟨_, hrule, hviable⟩
  rintro ⟨kind', pattern'⟩ hrule' hnullable
  refine not_matches_of_munch hkind hrule' 1 ?_
  rw [take_one_of_munch htake]
  exact matches_derive_iff.mp (nullable_iff.mp hnullable)

/-- A first lexeme without a kind ends in a line feed only as an open literal. -/
theorem isOpenLiteral_of_munch (hkind : (munch text).1 = none)
    (hlast : (text.take (munch text).2).getLast? = some '\n') :
    IsOpenLiteral (text.take (munch text).2) := by
  cases htake : text.take (munch text).2 with
  | nil => simp [htake] at hlast
  | cons c s =>
      rw [htake] at hlast
      have htake' := take_one_of_munch htake
      have hfeed : c ≠ '\n' := by
        rintro rfl
        refine not_matches_of_munch hkind (List.mem_cons_self : (.whitespace, blanks) ∈ rules) 1 ?_
        rw [htake']
        exact matches_derive_iff.mp (nullable_iff.mp (by decide))
      have hlast' : s.getLast? = some '\n' := by
        rw [List.getLast?_cons, Option.some.injEq] at hlast
        cases hs : s.getLast? with
        | none => exact absurd (by simpa [hs] using hlast) hfeed
        | some d => simpa [hs] using hlast
      rcases exists_growth_of_munch hkind with hone | ⟨kind, pattern, growth, hrule, hmatches⟩
      · rw [hone, htake'] at htake
        cases htake
        cases hlast'
      · rw [htake] at hmatches
        rcases opening_of_growth hkind htake hrule hmatches with hquote | rfl
        · obtain ⟨inside, hinside, rfl⟩ :=
            exists_inside_of_matches hfeed (matches_of_quote hquote hrule hmatches) hlast'
          exact ⟨c, hquote, inside, hinside, rfl⟩
        · -- the line feed ends the splice, which is a token then
          have hgrowth := eq_nil_of_matches_splice (matches_of_backslash hrule hmatches) hlast'
          rw [hgrowth, List.append_nil, ← htake] at hmatches
          exact absurd hmatches (not_matches_of_munch hkind hrule _)

end Lexer

/-- A lexeme that carries meaning ends in a line feed only as an open literal, and has no kind then. -/
theorem isOpenLiteral_of_mem_lex {text : Text} {lexeme : Lexeme} (hmem : lexeme ∈ lex text)
    (htrivia : lexeme.isTrivia = false) (hlast : lexeme.text.getLast? = some '\n') :
    lexeme.kind = none ∧ Token.IsOpenLiteral lexeme.text := by
  have hrules : ∀ rule ∈ Token.rules, rule.1.isTrivia = false → rule.2.canEndIn '\n' = false := by
    decide
  cases hkind : lexeme.kind with
  | none =>
      obtain ⟨rest, -, hmunch, htext⟩ := exists_munch_of_mem_lex hmem
      rw [htext] at hlast ⊢
      exact ⟨rfl, Lexer.isOpenLiteral_of_munch (hmunch.symm.trans hkind) hlast⟩
  | some kind =>
      obtain ⟨pattern, hrule, hmatches⟩ := exists_of_mem_lex hmem hkind
      rw [Lexeme.isTrivia, hkind, Option.any_some] at htrivia
      have hend := Pattern.canEndIn_of_matches hmatches hlast
      rw [hrules _ hrule htrivia] at hend
      cases hend

end PlainC
