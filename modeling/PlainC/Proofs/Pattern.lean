import PlainC.Pattern
import Mathlib.Data.List.Basic

/-!
# Derivatives of patterns

The derivative of a pattern by a character describes exactly what may follow that character, and a
pattern is nullable exactly if it describes the empty text. Matching by derivatives is therefore the
same as matching by the rules of `Pattern.Matches`. A viable pattern without an empty set describes some
text, so a text along which a pattern stays viable can grow into one that is described.
-/

namespace PlainC

namespace Pattern

variable {p q : Pattern} {s t : Text}

theorem not_matches_fail : ¬Matches .fail s := by
  intro h
  cases h

theorem matches_done_iff : Matches .done s ↔ s = [] := by
  constructor
  · intro h
    cases h
    rfl
  · rintro rfl
    exact .done

theorem matches_char_iff {set : CharSet} : Matches (.char set) s ↔ ∃ c, s = [c] ∧ set.mem c := by
  constructor
  · intro h
    cases h with
    | char hmem => exact ⟨_, rfl, hmem⟩
  · rintro ⟨c, rfl, hmem⟩
    exact .char hmem

theorem matches_seq_iff :
    Matches (.seq p q) s ↔ ∃ a b, s = a ++ b ∧ Matches p a ∧ Matches q b := by
  constructor
  · intro h
    cases h with
    | seq hp hq => exact ⟨_, _, rfl, hp, hq⟩
  · rintro ⟨a, b, rfl, hp, hq⟩
    exact .seq hp hq

theorem matches_alt_iff : Matches (.alt p q) s ↔ Matches p s ∨ Matches q s := by
  constructor
  · intro h
    cases h with
    | left hp => exact .inl hp
    | right hq => exact .inr hq
  · rintro (hp | hq)
    · exact .left hp
    · exact .right hq

/-- A text that is not empty begins with a repetition that is not empty. -/
theorem matches_star_cons_iff {c : Char} :
    Matches (.star p) (c :: s) ↔
      ∃ a b, s = a ++ b ∧ Matches p (c :: a) ∧ Matches (.star p) b := by
  constructor
  · intro h
    generalize hpattern : Pattern.star p = pattern at h
    generalize htext : c :: s = text at h
    induction h with
    | stop => cases htext
    | @again p' first rest hfirst hrest _ ih =>
        cases hpattern
        cases first with
        | nil => exact ih rfl htext
        | cons d first =>
            simp only [List.cons_append, List.cons.injEq] at htext
            obtain ⟨rfl, rfl⟩ := htext
            exact ⟨first, rest, rfl, hfirst, hrest⟩
    | done => cases hpattern
    | char => cases hpattern
    | seq => cases hpattern
    | left => cases hpattern
    | right => cases hpattern
  · rintro ⟨a, b, rfl, hfirst, hrest⟩
    exact .again hfirst hrest

theorem matches_either_iff : Matches (either p q) s ↔ Matches p s ∨ Matches q s := by
  unfold either
  split
  · simp [not_matches_fail]
  · simp [not_matches_fail]
  · exact matches_alt_iff

theorem matches_andThen_iff :
    Matches (andThen p q) s ↔ ∃ a b, s = a ++ b ∧ Matches p a ∧ Matches q b := by
  unfold andThen
  split
  · simp [not_matches_fail]
  · simp [matches_done_iff]
  · exact matches_seq_iff

theorem nullable_iff : p.nullable ↔ Matches p [] := by
  induction p with
  | fail => simp [nullable, not_matches_fail]
  | done => simp [nullable, matches_done_iff]
  | char set => simp [nullable, matches_char_iff]
  | seq p q ihp ihq => simp [nullable, matches_seq_iff, ihp, ihq]
  | alt p q ihp ihq => simp [nullable, matches_alt_iff, ihp, ihq]
  | star p => simp [nullable, Matches.stop]

/-- A text that two patterns describe in turn begins in the first one or, if that describes the empty
text, in the second. -/
theorem matches_seq_cons_iff {c : Char} :
    Matches (.seq p q) (c :: s) ↔
      (∃ a b, s = a ++ b ∧ Matches p (c :: a) ∧ Matches q b) ∨ p.nullable ∧ Matches q (c :: s) := by
  rw [matches_seq_iff, nullable_iff]
  constructor
  · rintro ⟨a, b, htext, hp, hq⟩
    cases a with
    | nil =>
        rw [List.nil_append] at htext
        exact .inr ⟨hp, htext ▸ hq⟩
    | cons d a =>
        simp only [List.cons_append, List.cons.injEq] at htext
        obtain ⟨rfl, rfl⟩ := htext
        exact .inl ⟨a, b, rfl, hp, hq⟩
  · rintro (⟨a, b, rfl, hp, hq⟩ | ⟨hp, hq⟩)
    · exact ⟨c :: a, b, rfl, hp, hq⟩
    · exact ⟨[], c :: s, rfl, hp, hq⟩

/-- The derivative describes what may follow a character. -/
theorem matches_derive_iff {c : Char} : Matches (p.derive c) s ↔ Matches p (c :: s) := by
  induction p generalizing s with
  | fail => simp [derive, not_matches_fail]
  | done => simp [derive, not_matches_fail, matches_done_iff]
  | char set =>
      rw [derive, matches_char_iff]
      by_cases hmem : set.mem c
      · simp [hmem, matches_done_iff]
      · simp [hmem, not_matches_fail]
  | seq p q ihp ihq =>
      rw [derive, matches_seq_cons_iff]
      by_cases hnull : p.nullable
      · rw [if_pos hnull, matches_either_iff, matches_andThen_iff, ihq]
        simp only [ihp, hnull, true_and]
      · rw [if_neg hnull, matches_andThen_iff]
        simp only [ihp, hnull, Bool.false_eq_true, false_and, or_false]
  | alt p q ihp ihq => rw [derive, matches_either_iff, matches_alt_iff, ihp, ihq]
  | star p ih =>
      rw [derive, matches_andThen_iff, matches_star_cons_iff]
      simp only [ih]

theorem mem_single_iff {c d : Char} : (CharSet.single c).mem d ↔ d = c := by
  simp only [CharSet.mem, CharSet.single, List.any_cons, List.any_nil, Bool.or_false,
    Bool.false_bne, Bool.and_eq_true, decide_eq_true_eq]
  exact ⟨fun h => Char.le_antisymm h.2 h.1, fun h => h ▸ ⟨Char.le_refl _, Char.le_refl _⟩⟩

theorem matches_single_iff {c : Char} : Matches (.char (.single c)) s ↔ s = [c] := by
  rw [matches_char_iff]
  constructor
  · rintro ⟨d, rfl, hmem⟩
    rw [mem_single_iff.mp hmem]
  · rintro rfl
    exact ⟨c, rfl, mem_single_iff.mpr rfl⟩

theorem matches_literal_iff : Matches (literal t) s ↔ s = t := by
  fun_induction literal t generalizing s with
  | case1 => exact matches_done_iff
  | case2 c => exact matches_single_iff
  | case3 c rest _ ih =>
      rw [matches_seq_iff]
      constructor
      · rintro ⟨a, b, rfl, ha, hb⟩
        rw [matches_single_iff.mp ha, ih.mp hb]
        rfl
      · rintro rfl
        exact ⟨[c], rest, rfl, matches_single_iff.mpr rfl, ih.mpr rfl⟩

theorem mem_noneOf_iff {chars : Text} {c : Char} : (CharSet.noneOf chars).mem c ↔ c ∉ chars := by
  have hany : (chars.any fun d => d ≤ c && c ≤ d) ↔ c ∈ chars := by
    simp only [List.any_eq_true, Bool.and_eq_true, decide_eq_true_eq]
    constructor
    · rintro ⟨d, hd, hle, hge⟩
      exact Char.le_antisymm hle hge ▸ hd
    · intro hc
      exact ⟨c, hc, Char.le_refl c, Char.le_refl c⟩
  rw [← hany, CharSet.mem, CharSet.noneOf, List.any_map, Bool.true_bne, Bool.not_eq_true',
    ← Bool.not_eq_true]
  rfl

/-- A beginning of a repeated text ends inside one repetition. -/
theorem exists_of_matches_star_append (hmatches : Matches (.star p) (s ++ t)) (hne : s ≠ []) :
    ∃ a b c, s = a ++ b ∧ b ≠ [] ∧ Matches (.star p) a ∧ Matches p (b ++ c) := by
  generalize hpattern : Pattern.star p = pattern at hmatches
  generalize htext : s ++ t = text at hmatches
  induction hmatches generalizing s with
  | stop => exact absurd (List.append_eq_nil_iff.mp htext).1 hne
  | @again p' first rest hfirst hrest _ ih =>
      cases hpattern
      rcases List.append_eq_append_iff.mp htext with ⟨c, rfl, -⟩ | ⟨s', rfl, hs'⟩
      · exact ⟨[], s, c, rfl, hne, .stop, hfirst⟩
      · by_cases hempty : s' = []
        · subst hempty
          rw [List.append_nil] at hne ⊢
          exact ⟨[], first, [], rfl, hne, .stop, (List.append_nil first).symm ▸ hfirst⟩
        · obtain ⟨a, b, c, rfl, hb, ha, hc⟩ := ih hempty rfl hs'.symm
          exact ⟨first ++ a, b, c, (List.append_assoc first a b).symm, hb, .again hfirst ha, hc⟩
  | done => cases hpattern
  | char => cases hpattern
  | seq => cases hpattern
  | left => cases hpattern
  | right => cases hpattern

/-! ### Viable patterns -/

theorem viable_of_matches (hmatches : Matches p s) : p.viable := by
  induction hmatches with
  | done => rfl
  | char => rfl
  | seq _ _ ihp ihq => rw [viable, ihp, ihq, Bool.and_self]
  | left _ ih => rw [viable, ih, Bool.true_or]
  | right _ ih => rw [viable, ih, Bool.or_true]
  | stop => rfl
  | again => rfl

/-- Whether every set in the pattern has an ASCII character. -/
def occupied : Pattern → Bool
  | fail => true
  | done => true
  | char set => (List.range 128).any fun n => set.mem (Char.ofNat n)
  | seq p q => p.occupied && q.occupied
  | alt p q => p.occupied && q.occupied
  | star p => p.occupied

theorem exists_matches_of_viable (hoccupied : p.occupied) (hviable : p.viable) :
    ∃ s, Matches p s := by
  induction p with
  | fail => cases hviable
  | done => exact ⟨[], .done⟩
  | char set =>
      obtain ⟨n, -, hmem⟩ := List.any_eq_true.mp hoccupied
      exact ⟨_, .char hmem⟩
  | seq p q ihp ihq =>
      rw [occupied, Bool.and_eq_true] at hoccupied
      rw [viable, Bool.and_eq_true] at hviable
      obtain ⟨a, ha⟩ := ihp hoccupied.1 hviable.1
      obtain ⟨b, hb⟩ := ihq hoccupied.2 hviable.2
      exact ⟨a ++ b, .seq ha hb⟩
  | alt p q ihp ihq =>
      rw [occupied, Bool.and_eq_true] at hoccupied
      rw [viable, Bool.or_eq_true] at hviable
      rcases hviable with hp | hq
      · obtain ⟨a, ha⟩ := ihp hoccupied.1 hp
        exact ⟨a, .left ha⟩
      · obtain ⟨b, hb⟩ := ihq hoccupied.2 hq
        exact ⟨b, .right hb⟩
  | star p => exact ⟨[], .stop⟩

theorem occupied_either (hp : p.occupied) (hq : q.occupied) : (either p q).occupied := by
  unfold either
  split
  · exact hq
  · exact hp
  · rw [occupied, hp, hq, Bool.and_self]

theorem occupied_andThen (hp : p.occupied) (hq : q.occupied) : (andThen p q).occupied := by
  unfold andThen
  split
  · rfl
  · exact hq
  · rw [occupied, hp, hq, Bool.and_self]

theorem occupied_derive {c : Char} (hoccupied : p.occupied) : (p.derive c).occupied := by
  induction p with
  | fail => rfl
  | done => rfl
  | char set =>
      rw [derive]
      split <;> rfl
  | seq p q ihp ihq =>
      rw [occupied, Bool.and_eq_true] at hoccupied
      have hfirst := occupied_andThen (ihp hoccupied.1) hoccupied.2
      rw [derive]
      split
      · exact occupied_either hfirst (ihq hoccupied.2)
      · exact hfirst
  | alt p q ihp ihq =>
      rw [occupied, Bool.and_eq_true] at hoccupied
      exact occupied_either (ihp hoccupied.1) (ihq hoccupied.2)
  | star p ih => exact occupied_andThen (ih hoccupied) hoccupied

end Pattern

end PlainC
