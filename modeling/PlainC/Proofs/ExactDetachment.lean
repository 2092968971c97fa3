import PlainC.Proofs.TagBodies

/-!
# What detaching one tag body deletes

The declarators go first, all but their line feeds, and then the keyword with one blank that follows it. That
blank stands before the body, unless the body begins right behind the keyword: then it is the first
character of the body, or of what stands behind the declaration if the body is empty.
-/

namespace PlainC

open Position

namespace Text

def StartsBlank (text : Text) : Prop := ∃ c rest, text = c :: rest ∧ (c = ' ' ∨ c = '\t')

theorem dropBlank_eq_self_iff {text : Text} : dropBlank text = text ↔ ¬StartsBlank text := by
  cases text with
  | nil => simp [dropBlank, StartsBlank]
  | cons c text =>
      by_cases hblank : c = ' ' ∨ c = '\t'
      · simp [dropBlank, StartsBlank, hblank]
      · simp [dropBlank, StartsBlank, hblank]

end Text

namespace Unfolding

/-- The body and what stands behind the declaration are kept unless a blank of theirs directly follows the
keyword. -/
theorem CutTypedef.detached_eq_iff (cut : CutTypedef) :
    cut.detached = cut.lead ++ cut.kept ↔ (cut.between = [] → ¬cut.kept.StartsBlank) := by
  rw [detached, lead, List.append_assoc, List.append_right_inj]
  cases hbetween : cut.between with
  | nil =>
      rw [List.nil_append, Text.dropBlank, List.nil_append, Text.dropBlank_eq_self_iff]
      simp only [forall_const]
  | cons c between =>
      simp only [List.cons_append, Text.dropBlank, reduceCtorEq, false_implies, iff_true]
      split
      · rfl
      · rfl

/-- A body inside a declaration that begins with the keyword is detached by deleting the declarators but for
their line feeds, and the keyword with one blank that follows it then. So the lines stay as many as they
are, and the body and all around the declaration are kept, unless the body begins right behind the keyword
and a blank is the first of what is kept. -/
theorem detach_deletes_declarators_and_keyword {text body : Text} {tag declaration : Span}
    {keyword : Token} {others : List Token}
    (htokens : (Source.ofText text).tokens declaration = .ok (keyword :: others))
    (hkind : keyword.kind = some .typedefKeyword)
    (hbody : (Source.ofText text).extract? tag = some body) (hinside : declaration.contains tag)
    (hbehind : keyword.span.last.Precedes tag.first) (blanked : List Nat) :
    ∃ cut : CutTypedef, cut.text = text ∧ cut.body = body ∧ cut.StandsAt tag declaration keyword ∧
      detach ⟨.ofText text, blanked⟩ tag declaration = .ok ⟨.ofText cut.detached, blanked⟩ ∧
      (Source.ofText cut.detached).lineCount = (Source.ofText text).lineCount ∧
      (cut.detached = cut.lead ++ cut.kept ↔ (cut.between = [] → ¬cut.kept.StartsBlank)) := by
  rw [Span.contains, Bool.and_eq_true] at hinside
  obtain ⟨cut, rfl, hcut, hstands⟩ := exists_cut htokens hkind hbody hbehind hinside.2
  refine ⟨cut, rfl, hcut, hstands, detach_cut hstands htokens hkind blanked, ?_, cut.detached_eq_iff⟩
  simp only [Source.lineCount, Source.ofText, Text.length_lines, cut.count_detached]

def fourLineText : Text :=
  "int a; typedef struct P \x7b\n  int x; \x7d P, // é\n\n  *Q; int b;".toList

/-- Declarators that begin on the last line of the body and end two lines below. -/
theorem detach_deletes_declarators_and_keyword_across_lines :
    detach ⟨.ofText fourLineText, []⟩ ⟨⟨1, 16⟩, ⟨2, 10⟩⟩ ⟨⟨1, 8⟩, ⟨4, 4⟩⟩ =
        .ok ⟨.ofText "int a; struct P \x7b\n  int x; \x7d\n\n; int b;".toList, []⟩ ∧
      ∃ cut : CutTypedef, cut.text = fourLineText ∧ cut.body = "struct P \x7b\n  int x; \x7d".toList ∧
        detach ⟨.ofText fourLineText, []⟩ ⟨⟨1, 16⟩, ⟨2, 10⟩⟩ ⟨⟨1, 8⟩, ⟨4, 4⟩⟩ =
          .ok ⟨.ofText cut.detached, []⟩ ∧
        (Source.ofText cut.detached).lineCount = (Source.ofText fourLineText).lineCount := by
  obtain ⟨others, htokens⟩ := exists_tokens_of_head? (show
    ((Source.ofText fourLineText).tokens ⟨⟨1, 8⟩, ⟨4, 4⟩⟩).toOption.bind List.head? =
      some ⟨some .typedefKeyword, "typedef".toList, ⟨⟨1, 8⟩, ⟨1, 14⟩⟩⟩ by decide +kernel)
  have hbody : (Source.ofText fourLineText).extract? ⟨⟨1, 16⟩, ⟨2, 10⟩⟩ =
      some "struct P \x7b\n  int x; \x7d".toList := by decide +kernel
  obtain ⟨cut, htext, hcut, -, hdetach, hlines, -⟩ :=
    detach_deletes_declarators_and_keyword htokens rfl hbody (by decide) (by decide) []
  exact ⟨by decide +kernel, cut, htext, hcut, hdetach, hlines⟩

/-- A body that begins with the blank behind the keyword loses it. -/
theorem detach_takes_blank_of_body :
    (∃ others, (Source.ofText "typedef struct P \x7b int x; \x7d P;".toList).tokens
        ⟨⟨1, 1⟩, ⟨1, 29⟩⟩ =
          .ok (⟨some .typedefKeyword, "typedef".toList, ⟨⟨1, 1⟩, ⟨1, 7⟩⟩⟩ :: others)) ∧
      (Source.ofText "typedef struct P \x7b int x; \x7d P;".toList).extract? ⟨⟨1, 8⟩, ⟨1, 27⟩⟩ =
        some " struct P \x7b int x; \x7d".toList ∧
      (⟨⟨1, 1⟩, ⟨1, 29⟩⟩ : Span).contains ⟨⟨1, 8⟩, ⟨1, 27⟩⟩ ∧
      (⟨1, 7⟩ : Position).Precedes ⟨1, 8⟩ ∧
      detach ⟨.ofText "typedef struct P \x7b int x; \x7d P;".toList, []⟩ ⟨⟨1, 8⟩, ⟨1, 27⟩⟩
        ⟨⟨1, 1⟩, ⟨1, 29⟩⟩ = .ok ⟨.ofText "struct P \x7b int x; \x7d;".toList, []⟩ ∧
      ¬" struct P \x7b int x; \x7d".toList <:+: "struct P \x7b int x; \x7d;".toList := by
  refine ⟨exists_tokens_of_head? ?_, ?_, ?_, ?_, ?_, ?_⟩
  all_goals decide +kernel

end Unfolding

end PlainC
