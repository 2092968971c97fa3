import PlainC.Proofs.MaximalMunch

/-!
# Lexing a piece of a text

A lexeme is settled by the text from its start on, and of that only by as much as it takes up: cutting
the text off behind it makes no beginning longer and no other one described. So a piece of a text that
begins and ends where lexemes do has the lexemes which the whole text has there, each with its kind, its
text and its place.
-/

namespace PlainC

namespace Lexer

section Take

variable {rules : List (TokenKind × Pattern)} {text : Text} {kind : TokenKind} {n : Nat}

theorem reach_longest_take_of_none (hreach : (reach rules text).longest = none) (m : Nat) :
    (reach rules (text.take m)).longest = none := by
  cases hlongest : (reach rules (text.take m)).longest with
  | none => rfl
  | some found =>
      obtain ⟨kind, n⟩ := found
      obtain ⟨-, pattern, hrule, hmatches⟩ := exists_of_reach_longest hlongest
      rw [List.take_take] at hmatches
      exact absurd hmatches (not_matches_of_reach_longest hreach hrule _)

/-- The longest beginning that is described stays so in any text that has it whole. -/
theorem reach_longest_take {m : Nat} (hreach : (reach rules text).longest = some (kind, n))
    (hle : n ≤ m) : (reach rules (text.take m)).longest = some (kind, n) := by
  induction text generalizing rules m n with
  | nil => rwa [List.take_nil]
  | cons c text ih =>
      rw [reach] at hreach
      cases m with
      | zero =>
          rw [List.take_zero]
          split at hreach
          · exact hreach
          · simp only [Option.or_eq_some_iff, Option.map_eq_some_iff] at hreach
            rcases hreach with ⟨⟨kind', k⟩, -, heq⟩ | ⟨-, haccepted⟩
            · cases heq
              exact absurd hle (Nat.not_succ_le_zero k)
            · exact Option.map_eq_some_iff.mpr haccepted
      | succ m =>
          rw [List.take_succ_cons, reach]
          split at hreach
          · exact hreach
          · simp only [Option.or_eq_some_iff, Option.map_eq_some_iff] at hreach ⊢
            rcases hreach with ⟨⟨kind', k⟩, hlongest, heq⟩ | ⟨hnone, haccepted⟩
            · cases heq
              exact .inl ⟨_, ih hlongest (Nat.le_of_succ_le_succ hle), rfl⟩
            · have hbeyond := reach_longest_take_of_none (Option.map_eq_none_iff.mp hnone) m
              exact .inr ⟨Option.map_eq_none_iff.mpr hbeyond, haccepted⟩

theorem reach_viable_take (rules : List (TokenKind × Pattern)) (text : Text) (m : Nat) :
    (reach rules (text.take m)).viable = min m (reach rules text).viable := by
  induction text generalizing rules m with
  | nil => rw [List.take_nil, reach, Nat.min_zero]
  | cons c text ih =>
      cases m with
      | zero => rw [List.take_zero, reach, Nat.zero_min]
      | succ m =>
          rw [List.take_succ_cons, reach, reach]
          split
          · rw [Nat.min_zero]
          · dsimp only
            rw [ih, Nat.add_min_add_right]

end Take

variable {text : Text}

theorem munch_snd_le_length (hne : text ≠ []) : (munch text).2 ≤ text.length := by
  cases hkind : (munch text).1 with
  | none =>
      rw [munch_snd_of_none hkind]
      exact Nat.max_le.mpr ⟨List.length_pos_iff.mpr hne, reach_viable_le⟩
  | some kind => exact (exists_of_reach_longest (longest_of_munch hkind)).1

/-- The first lexeme stays the same in any text that has it whole. -/
theorem munch_take {m : Nat} (hle : (munch text).2 ≤ m) : munch (text.take m) = munch text := by
  cases hkind : (munch text).1 with
  | none =>
      have hlongest := reach_longest_take_of_none (reach_longest_of_munch hkind) m
      have hlength := munch_snd_of_none hkind
      have hviable : (reach Token.rules (text.take m)).viable = (reach Token.rules text).viable := by
        rw [reach_viable_take]
        omega
      rw [munch, hlongest, hviable, ← hlength, ← hkind]
  | some kind =>
      have hlongest := reach_longest_take (longest_of_munch hkind) hle
      obtain ⟨n, hn⟩ : ∃ n, (munch text).2 = n + 1 := Nat.exists_eq_add_one.mpr (munch_pos text)
      rw [hn] at hlongest
      rw [munch, hlongest]
      exact Prod.ext hkind.symm hn.symm

end Lexer

open Lexer

/-- The lexemes of a text that end with a beginning of it are the lexemes of that beginning. -/
theorem lex_of_lex_append {front rest : Text} {earlier later : List Lexeme}
    (hlex : lex (front ++ rest) = earlier ++ later)
    (hfront : earlier.flatMap Lexeme.text = front) : lex front = earlier := by
  generalize htext : front ++ rest = text at hlex
  induction text using lex_induction generalizing front earlier later with
  | nil =>
      obtain ⟨rfl, -⟩ := List.append_eq_nil_iff.mp hlex.symm
      rw [← hfront]
      rfl
  | more text hne ih =>
      cases earlier with
      | nil =>
          rw [← hfront]
          rfl
      | cons first earlier =>
          rw [lex_of_ne_nil hne, List.cons_append, List.cons.injEq] at hlex
          obtain ⟨rfl, hlex⟩ := hlex
          obtain ⟨before, behind, hsplit, rfl, rfl⟩ := List.map_eq_append_iff.mp hlex
          rw [List.flatMap_cons, Lexeme.flatMap_text_shift] at hfront
          -- The front has the first lexeme whole, so it begins with the same one.
          have hlength : (text.take (munch text).2).length = (munch text).2 := by
            rw [List.length_take, Nat.min_eq_left (munch_snd_le_length hne)]
          have hle : (munch text).2 ≤ front.length := by
            rw [← hfront, List.length_append, hlength]
            exact Nat.le_add_right _ _
          have hsame : front = text.take front.length := by rw [← htext, List.take_left]
          have hmunch : munch front = munch text := by
            rw [hsame]
            exact munch_take hle
          have hdrop : front.drop (munch text).2 = before.flatMap Lexeme.text := by
            rw [← hfront]
            exact List.drop_left' hlength
          have htake : front.take (munch text).2 = text.take (munch text).2 := by
            rw [← hfront]
            exact List.take_left' hlength
          have hrest : front.drop (munch text).2 ++ rest = text.drop (munch text).2 := by
            rw [← List.drop_append_of_le_length hle, htext]
          have hbehind := ih hdrop.symm hrest hsplit
          have hne' : front ≠ [] := by
            rintro rfl
            exact absurd hle (Nat.not_le_of_lt (munch_pos text))
          rw [lex_of_ne_nil hne', hmunch, htake, hbehind]

/-- A lexeme is the first one of what remains of the text at its place. -/
theorem exists_munch_of_lex {text : Text} {earlier later : List Lexeme} {lexeme : Lexeme}
    (hlex : lex text = earlier ++ lexeme :: later) :
    ∃ rest, text = earlier.flatMap Lexeme.text ++ rest ∧
      lexeme = ⟨(munch rest).1, rest.take (munch rest).2,
        Text.byteLength (earlier.flatMap Lexeme.text)⟩ := by
  obtain ⟨rest, htext, hlater⟩ := exists_of_lex_eq_append hlex
  have hne : rest ≠ [] := by
    rintro rfl
    cases hlater
  rw [lex_of_ne_nil hne, List.map_cons, List.cons.injEq] at hlater
  exact ⟨rest, htext, hlater.1⟩

theorem start_of_lex {text : Text} {earlier later : List Lexeme} {lexeme : Lexeme}
    (hlex : lex text = earlier ++ lexeme :: later) :
    lexeme.start = Text.byteLength (earlier.flatMap Lexeme.text) := by
  obtain ⟨rest, -, rfl⟩ := exists_munch_of_lex hlex
  rfl

theorem stop_of_lex {text : Text} {earlier later : List Lexeme} {lexeme : Lexeme}
    (hlex : lex text = earlier ++ lexeme :: later) :
    lexeme.stop = Text.byteLength ((earlier ++ [lexeme]).flatMap Lexeme.text) := by
  rw [Lexeme.stop, start_of_lex hlex, List.flatMap_append, Text.byteLength_append, List.flatMap_cons,
    List.flatMap_nil, List.append_nil]

/-- That a lexeme begins or ends at a byte, or that the text begins there. -/
def IsBoundary (lexemes : List Lexeme) (n : Nat) : Prop :=
  n = 0 ∨ ∃ lexeme ∈ lexemes, n = lexeme.start ∨ n = lexeme.stop

theorem exists_of_isBoundary {text : Text} {n : Nat} (h : IsBoundary (lex text) n) :
    ∃ earlier later, lex text = earlier ++ later ∧
      Text.byteLength (earlier.flatMap Lexeme.text) = n := by
  rcases h with rfl | ⟨lexeme, hmem, hn⟩
  · exact ⟨[], lex text, rfl, rfl⟩
  · obtain ⟨earlier, later, hlex⟩ := List.append_of_mem hmem
    rcases hn with rfl | rfl
    · exact ⟨earlier, lexeme :: later, hlex, (start_of_lex hlex).symm⟩
    · refine ⟨earlier ++ [lexeme], later, ?_, (stop_of_lex hlex).symm⟩
      rw [hlex, List.append_assoc]
      rfl

/-- The lexemes of a piece stand among those of the whole. -/
theorem exists_lex_of_boundaries {front piece rest : Text}
    (hfirst : IsBoundary (lex (front ++ piece ++ rest)) (Text.byteLength front))
    (hlast : IsBoundary (lex (front ++ piece ++ rest)) (Text.byteLength (front ++ piece))) :
    ∃ earlier later, lex (front ++ piece ++ rest) =
        earlier ++ (lex piece).map (Lexeme.shift (Text.byteLength front)) ++ later ∧
      earlier.flatMap Lexeme.text = front := by
  obtain ⟨earlier, behind, hlex, hbytes⟩ := exists_of_isBoundary hfirst
  obtain ⟨through, later, hlex', hbytes'⟩ := exists_of_isBoundary hlast
  obtain ⟨rest₁, htext₁, hbehind⟩ := exists_of_lex_eq_append hlex
  obtain ⟨rest₂, htext₂, -⟩ := exists_of_lex_eq_append hlex'
  obtain ⟨hthrough, -⟩ := Text.append_inj_of_byteLength htext₂ hbytes'.symm
  rw [List.append_assoc] at htext₁
  obtain ⟨hearlier, hrest⟩ := Text.append_inj_of_byteLength htext₁ hbytes.symm
  rw [← hearlier, ← hrest] at hbehind
  -- Lexemes are not empty, so those up to the end of the piece begin with those before it.
  obtain ⟨among, rfl, hamong⟩ : ∃ among, through = earlier ++ among ∧ behind = among ++ later := by
    rcases List.append_eq_append_iff.mp (hlex.symm.trans hlex') with hinto | ⟨excess, rfl, hexcess⟩
    · exact hinto
    · cases excess with
      | nil => exact ⟨[], by simp, hexcess.symm⟩
      | cons lexeme excess =>
          have hmem : lexeme ∈ lex (front ++ piece ++ rest) := by
            rw [hlex]
            simp
          have hne := text_ne_nil_of_mem_lex hmem
          rw [List.flatMap_append, ← hthrough] at hearlier
          simp [hne] at hearlier
  refine ⟨earlier, later, ?_, hearlier.symm⟩
  rw [hbehind] at hamong
  obtain ⟨inside, beyond, hsplit, rfl, rfl⟩ := List.map_eq_append_iff.mp hamong
  rw [List.flatMap_append, ← hearlier, Lexeme.flatMap_text_shift,
    List.append_cancel_left_eq] at hthrough
  rw [hlex', lex_of_lex_append hsplit hthrough.symm]

/-- The lexemes between two boundaries are those that begin and end between them. -/
theorem filter_lex_between {text : Text} {earlier among later : List Lexeme}
    (hlex : lex text = earlier ++ among ++ later) :
    (lex text).filter (fun lexeme =>
      Text.byteLength (earlier.flatMap Lexeme.text) ≤ lexeme.start ∧
        lexeme.stop ≤ Text.byteLength ((earlier ++ among).flatMap Lexeme.text)) = among := by
  have hpos : ∀ lexeme ∈ lex text, 0 < Text.byteLength lexeme.text := fun lexeme hmem =>
    Nat.pos_of_ne_zero (mt Text.byteLength_eq_zero_iff.mp (text_ne_nil_of_mem_lex hmem))
  have hbefore : ∀ lexeme ∈ earlier,
      lexeme.start < Text.byteLength (earlier.flatMap Lexeme.text) := by
    intro lexeme hmem
    have hlexeme := hpos lexeme (by simp [hlex, hmem])
    obtain ⟨before, behind, rfl⟩ := List.append_of_mem hmem
    have hwhole : lex text = before ++ lexeme :: (behind ++ among ++ later) := by
      rw [hlex]
      simp
    rw [start_of_lex hwhole, List.flatMap_append, Text.byteLength_append, List.flatMap_cons,
      Text.byteLength_append]
    omega
  have hinside : ∀ lexeme ∈ among,
      Text.byteLength (earlier.flatMap Lexeme.text) ≤ lexeme.start ∧
        lexeme.stop ≤ Text.byteLength ((earlier ++ among).flatMap Lexeme.text) := by
    intro lexeme hmem
    obtain ⟨before, behind, rfl⟩ := List.append_of_mem hmem
    have hwhole : lex text = (earlier ++ before) ++ lexeme :: (behind ++ later) := by
      rw [hlex]
      simp
    rw [start_of_lex hwhole, stop_of_lex hwhole]
    simp only [List.flatMap_append, List.flatMap_cons, List.flatMap_nil, Text.byteLength_append,
      Text.byteLength_nil]
    omega
  have hbeyond : ∀ lexeme ∈ later,
      Text.byteLength ((earlier ++ among).flatMap Lexeme.text) < lexeme.stop := by
    intro lexeme hmem
    have hlexeme := hpos lexeme (by simp [hlex, hmem])
    obtain ⟨before, behind, rfl⟩ := List.append_of_mem hmem
    have hwhole : lex text = (earlier ++ among ++ before) ++ lexeme :: behind := by
      rw [hlex]
      simp
    rw [stop_of_lex hwhole]
    simp only [List.flatMap_append, List.flatMap_cons, List.flatMap_nil, Text.byteLength_append,
      Text.byteLength_nil]
    omega
  rw [hlex, List.filter_append, List.filter_append, List.filter_eq_nil_iff.mpr,
    List.filter_eq_self.mpr, List.filter_eq_nil_iff.mpr, List.nil_append, List.append_nil]
  · intro lexeme hmem
    rw [decide_eq_true_eq, not_and_or]
    exact .inr (Nat.not_le_of_lt (hbeyond lexeme hmem))
  · exact fun lexeme hmem => decide_eq_true (hinside lexeme hmem)
  · intro lexeme hmem
    rw [decide_eq_true_eq, not_and_or]
    exact .inl (Nat.not_le_of_lt (hbefore lexeme hmem))

namespace Source

variable {source : Source} {span : Span} {piece : Text}

/-- A piece of a source that begins and ends at boundaries between lexemes of the whole has the lexemes of
the whole that stand between them. -/
theorem lex_of_piece_between_boundaries (hextract : source.extract? span = some piece)
    (hfirst : IsBoundary (lex source.toText) (source.offset span.first))
    (hlast : IsBoundary (lex source.toText)
      (source.offset ⟨span.last.line, span.last.col + 1⟩)) :
    (lex piece).map (Lexeme.shift (source.offset span.first)) =
      (lex source.toText).filter fun lexeme =>
        source.offset span.first ≤ lexeme.start ∧
          lexeme.stop ≤ source.offset ⟨span.last.line, span.last.col + 1⟩ := by
  obtain ⟨front, hbefore, hthrough⟩ := extract?_eq_some_iff.mp hextract
  obtain ⟨rest, htext⟩ := hthrough.prefix_toText
  rw [← htext, ← hbefore.byteLength] at hfirst
  rw [← htext, ← hthrough.byteLength] at hlast
  obtain ⟨earlier, later, hlex, rfl⟩ := exists_lex_of_boundaries hfirst hlast
  have hbetween := filter_lex_between hlex
  rw [List.flatMap_append, Lexeme.flatMap_text_shift, flatMap_text_lex] at hbetween
  rw [← hbefore.byteLength, ← hthrough.byteLength, ← htext]
  exact hbetween.symm

/-- A piece over two lines, which begins with a number that breaks off and ends with an open literal. -/
theorem lex_of_piece_between_boundaries_around_open_literal :
    (ofText "a 1.5e+b\n\"é\n c".toList).extract? ⟨⟨1, 3⟩, ⟨2, 3⟩⟩ = some "1.5e+b\n\"é".toList ∧
    (lex "1.5e+b\n\"é".toList).map (Lexeme.shift 2) =
      (lex "a 1.5e+b\n\"é\n c".toList).filter (fun lexeme => 2 ≤ lexeme.start ∧ lexeme.stop ≤ 12) ∧
    lex "1.5e+b\n\"é".toList = [⟨some .float, "1.5".toList, 0⟩, ⟨some .identifier, "e".toList, 3⟩,
      ⟨some .operator, "+".toList, 4⟩, ⟨some .identifier, "b".toList, 5⟩,
      ⟨some .whitespace, "\n".toList, 6⟩, ⟨none, "\"é".toList, 7⟩] := by
  have hextract : (ofText "a 1.5e+b\n\"é\n c".toList).extract? ⟨⟨1, 3⟩, ⟨2, 3⟩⟩ =
      some "1.5e+b\n\"é".toList := by decide +kernel
  have hlex : lex "a 1.5e+b\n\"é\n c".toList = [⟨some .identifier, "a".toList, 0⟩,
      ⟨some .whitespace, " ".toList, 1⟩, ⟨some .float, "1.5".toList, 2⟩,
      ⟨some .identifier, "e".toList, 5⟩, ⟨some .operator, "+".toList, 6⟩,
      ⟨some .identifier, "b".toList, 7⟩, ⟨some .whitespace, "\n".toList, 8⟩,
      ⟨none, "\"é".toList, 9⟩, ⟨some .whitespace, "\n ".toList, 12⟩,
      ⟨some .identifier, "c".toList, 14⟩] := by decide +kernel
  refine ⟨hextract, ?_, by decide +kernel⟩
  have hbetween := lex_of_piece_between_boundaries hextract
  rw [toText_ofText] at hbetween
  refine hbetween (.inr ⟨⟨some .float, "1.5".toList, 2⟩, ?_, .inl (by decide)⟩)
    (.inr ⟨⟨none, "\"é".toList, 9⟩, ?_, .inr (by decide)⟩)
  · rw [hlex]
    simp
  · rw [hlex]
    simp

end Source

end PlainC
