import PlainC.Typedef.Unfolding
import PlainC.Proofs.Lexing

/-!
# Edits trim lines

Every edit of a source shortens some of its lines and leaves the others as they are. So a line that no
edit reaches is kept, a line that was emptied stays empty, and there are as many lines as before.
-/

namespace PlainC

open Position

/-- Whether a span touches a line. -/
def Span.Covers (span : Span) (n : Nat) : Prop := span.first.line ≤ n ∧ n ≤ span.last.line

instance (span : Span) (n : Nat) : Decidable (span.Covers n) :=
  inferInstanceAs (Decidable (span.first.line ≤ n ∧ n ≤ span.last.line))

namespace Source

/-- Lines are kept but for those that are touched, and what is left of those was there before. -/
structure Trims (touched : Nat → Prop) (before after : Source) : Prop where
  kept : ∀ n, ¬touched n → after.line? n = before.line? n
  shorter : ∀ n line, after.line? n = some line → ∃ old, before.line? n = some old ∧ line.Sublist old
  length : after.lines.length = before.lines.length

namespace Trims

variable {touched : Nat → Prop} {before between after : Source}

theorem refl (touched : Nat → Prop) (source : Source) : Trims touched source source where
  kept := fun _ _ => rfl
  shorter := fun _ line hline => ⟨line, hline, List.Sublist.refl line⟩
  length := rfl

theorem trans (hfirst : Trims touched before between) (hsecond : Trims touched between after) :
    Trims touched before after where
  kept := by
    intro n hn
    rw [hsecond.kept n hn, hfirst.kept n hn]
  shorter := by
    intro n line hline
    obtain ⟨middle, hmiddle, hsub⟩ := hsecond.shorter n line hline
    obtain ⟨old, hold, hsub'⟩ := hfirst.shorter n middle hmiddle
    exact ⟨old, hold, hsub.trans hsub'⟩
  length := by rw [hsecond.length, hfirst.length]

theorem mono {wider : Nat → Prop} (h : Trims touched before after)
    (hwider : ∀ n, touched n → wider n) : Trims wider before after where
  kept := fun n hn => h.kept n fun htouched => hn (hwider n htouched)
  shorter := h.shorter
  length := h.length

theorem line?_eq_nil (h : Trims touched before after) {n : Nat}
    (hempty : ∀ line, before.line? n = some line → line = []) {line : Text}
    (hline : after.line? n = some line) : line = [] := by
  obtain ⟨old, hold, hsub⟩ := h.shorter n line hline
  rw [hempty old hold] at hsub
  exact List.sublist_nil.mp hsub

/-- What is left of a text is the source of a text. -/
theorem exists_ofText {text : Text} (h : Trims touched before after)
    (htext : before = .ofText text) : ∃ text', after = .ofText text' := by
  subst htext
  refine ⟨after.toText, ?_⟩
  have hne : after.lines ≠ [] := by
    intro hnil
    have hlength := h.length
    rw [hnil, List.length_nil] at hlength
    exact Text.split_ne_nil '\n' text (List.length_eq_zero_iff.mp hlength.symm)
  have hfeed : ∀ line ∈ after.lines, '\n' ∉ line := by
    intro line hline
    obtain ⟨above, below, hlines⟩ := List.append_of_mem hline
    obtain ⟨old, hold, hsub⟩ := h.shorter (above.length + 1) line
      (line?_eq_some_iff.mpr ⟨above, below, hlines, rfl⟩)
    obtain ⟨above', below', hlines', -⟩ := line?_eq_some_iff.mp hold
    have hmem : old ∈ (ofText text).lines := by
      rw [hlines']
      exact List.mem_append_right above' List.mem_cons_self
    exact fun hc => not_mem_of_mem_lines_ofText hmem (hsub.subset hc)
  cases after with
  | mk lines =>
      rw [ofText, toText, Source.mk.injEq]
      exact (Text.lines_joinLines hne hfeed).symm

end Trims

theorem trims_clearLines (source : Source) (first last : Nat) :
    Trims (fun n => first ≤ n ∧ n ≤ last) source (source.clearLines first last) where
  kept := by
    intro n hn
    rw [line?_clearLines, if_neg hn]
  shorter := by
    intro n line hline
    rw [line?_clearLines] at hline
    split at hline
    · obtain ⟨old, hold, rfl⟩ := Option.map_eq_some_iff.mp hline
      exact ⟨old, hold, List.nil_sublist old⟩
    · exact ⟨line, hline, List.Sublist.refl line⟩
  length := by rw [clearLines, List.length_mapIdx]

theorem line_eq_nil_of_clear {source : Source} {span : Span} {n : Nat} (hcovers : span.Covers n)
    {line : Text} (hline : (source.clear span).line? n = some line) : line = [] := by
  rw [Span.Covers] at hcovers
  rw [clear, line?_clearLines, if_pos hcovers] at hline
  obtain ⟨_, _, rfl⟩ := Option.map_eq_some_iff.mp hline
  rfl

theorem trims_deleteColumns? {source edited : Source} {n first last : Nat}
    (hdelete : source.deleteColumns? n first last = some edited) :
    Trims (· = n) source edited := by
  obtain ⟨above, left, cut, right, below, hlines, hn, -, -, rfl⟩ :=
    deleteColumns?_eq_some_iff.mp hdelete
  have hother : ∀ m, m ≠ n → (⟨above ++ (left ++ right) :: below⟩ : Source).line? m =
      source.line? m := by
    intro m hm
    cases m with
    | zero => rfl
    | succ i =>
        rw [line?, line?, hlines]
        rcases Nat.lt_trichotomy i above.length with hlt | heq | hgt
        · rw [List.getElem?_append_left hlt, List.getElem?_append_left hlt]
        · exact absurd (by rw [heq, hn]) hm
        · obtain ⟨k, rfl⟩ := Nat.exists_eq_add_of_lt hgt
          rw [List.getElem?_append_right (by omega), List.getElem?_append_right (by omega),
            show above.length + k + 1 - above.length = k + 1 by omega, List.getElem?_cons_succ,
            List.getElem?_cons_succ]
  refine ⟨hother, ?_, by simp [hlines]⟩
  intro m line hline
  by_cases hm : m = n
  · subst hm hn
    rw [line?_place, Option.some.injEq] at hline
    subst hline
    refine ⟨left ++ cut ++ right, line?_eq_some_iff.mpr ⟨above, below, hlines, rfl⟩, ?_⟩
    rw [List.append_assoc]
    exact List.Sublist.append_left (List.sublist_append_right cut right) left
  · rw [hother m hm] at hline
    exact ⟨line, hline, List.Sublist.refl line⟩

theorem trims_deleteToken? (source : Source) (span : Span) :
    Trims (· = span.first.line) source ((source.deleteToken? span).getD source) := by
  cases hdelete : source.deleteToken? span with
  | none => exact .refl _ source
  | some edited =>
      rw [deleteToken?] at hdelete
      split at hdelete
      · exact trims_deleteColumns? hdelete
      · cases hdelete

end Source

namespace Unfolding

open Source

theorem trims_clearColumns (source : Source) (n first last : Nat) :
    Trims (· = n) source (clearColumns source n first last) := by
  rw [clearColumns]
  cases hdelete : source.deleteColumns? n first last with
  | none => exact .refl _ source
  | some edited => exact trims_deleteColumns? hdelete

/-- The lines on which an edit of a declaration with a tag body may work. -/
def Reaches (tag declaration : Span) (n : Nat) : Prop :=
  declaration.Covers n ∨
    tag.last.line ≤ n ∧ n ≤ declaration.last.line ∨ n = tag.last.line ∨ n = declaration.last.line

/-- Nothing outside a declaration is reached if the tag body lies inside it. -/
theorem Reaches.covers {tag declaration : Span} {n : Nat} (hreaches : Reaches tag declaration n)
    (hinside : declaration.contains tag) (hordered : tag.first.line ≤ tag.last.line) :
    declaration.Covers n := by
  rw [Span.contains, Bool.and_eq_true, before_iff, before_iff] at hinside
  rw [Reaches, Span.Covers] at hreaches
  rw [Span.Covers]
  omega

theorem trims_removeDeclarators (source : Source) (tag declaration : Span) :
    Trims (Reaches tag declaration) source (removeDeclarators source tag declaration) := by
  rw [removeDeclarators]
  split
  · apply (trims_clearColumns source _ _ _).mono
    intro n hn
    exact .inr (.inr (.inl hn))
  · refine ((trims_clearColumns source _ _ _).mono ?_).trans
      (((trims_clearLines _ _ _).mono ?_).trans ((trims_clearColumns _ _ _ _).mono ?_))
    · intro n hn
      exact .inr (.inr (.inl hn))
    · intro n hn
      exact .inr (.inl (by omega))
    · intro n hn
      exact .inr (.inr (.inr hn))

/-- All that detaching can do: the keyword was read and goes, after the declarators, or the lines of
the declaration are blanked. -/
theorem detach_cases {progress done : Progress} {tag declaration : Span}
    (hdetach : detach progress tag declaration = .ok done) :
    (∃ keyword others, progress.source.tokens declaration = .ok (keyword :: others) ∧
      keyword.kind = some .typedefKeyword ∧
      done = ⟨((removeDeclarators progress.source tag declaration).deleteToken? keyword.span).getD
        (removeDeclarators progress.source tag declaration), progress.blanked⟩) ∨
    done = ⟨progress.source.clear declaration, progress.blanked ++ [declaration.first.line]⟩ := by
  rw [detach] at hdetach
  cases htokens : progress.source.tokens declaration with
  | error misplaced =>
      rw [htokens] at hdetach
      cases hdetach
  | ok tokens =>
      rw [htokens] at hdetach
      cases tokens with
      | nil =>
          cases hdetach
          exact .inr rfl
      | cons keyword others =>
          simp only [bind, Except.bind] at hdetach
          split at hdetach
          · rename_i hkind
            cases hdetach
            exact .inl ⟨keyword, others, rfl, hkind, rfl⟩
          · cases hdetach
            exact .inr rfl

theorem keyword_line_mem {text : Text} {declaration : Span} {keyword : Token} {others : List Token}
    (htokens : (Source.ofText text).tokens declaration = .ok (keyword :: others))
    (hkind : keyword.kind = some .typedefKeyword) :
    declaration.first.line ≤ keyword.span.first.line ∧
      keyword.span.first.line ≤ declaration.last.line := by
  obtain ⟨-, front, gap, behind, rest, -, hfront, hend, hfirst, -⟩ :=
    standsFirst_of_tokens pattern_of_typedef (by decide) (by decide) htokens hkind
  have hlast := congrArg Position.line hend
  rw [line_after] at hlast
  simp only [List.count_append] at hlast
  rw [← hfront, ← hfirst, line_after, line_after, List.count_append]
  omega

theorem trims_detach {text : Text} {progress done : Progress} {tag declaration : Span}
    (htext : progress.source = .ofText text) (hdetach : detach progress tag declaration = .ok done) :
    Trims (Reaches tag declaration) progress.source done.source := by
  rcases detach_cases hdetach with ⟨keyword, others, htokens, hkind, rfl⟩ | rfl
  · refine (trims_removeDeclarators progress.source tag declaration).trans
      ((trims_deleteToken? _ keyword.span).mono ?_)
    rintro n rfl
    rw [htext] at htokens
    exact .inl (keyword_line_mem htokens hkind)
  · exact (trims_clearLines _ _ _).mono fun n hn => .inl hn

theorem trims_blankPlain (source : Source) (typedefs : List Typedef) :
    Trims (fun n => ∃ typedef ∈ typedefs, typedef.body = none ∧ typedef.span.Covers n) source
      (blankPlain source typedefs) := by
  induction typedefs generalizing source with
  | nil => exact .refl _ source
  | cons typedef typedefs ih =>
      rw [blankPlain, List.foldl_cons]
      have hrest : ∀ between, Trims (fun n => ∃ other ∈ typedef :: typedefs, other.body = none ∧
          other.span.Covers n) between (blankPlain between typedefs) := by
        intro between
        apply (ih between).mono
        rintro n ⟨other, hmem, hother⟩
        exact ⟨other, List.mem_cons_of_mem typedef hmem, hother⟩
      cases hbody : typedef.body with
      | some tag => exact hrest source
      | none =>
          refine Trims.trans ?_ (hrest _)
          exact (trims_clearLines _ _ _).mono fun n hn => ⟨typedef, List.mem_cons_self, hbody, hn⟩

theorem line_eq_nil_of_blankPlain {source : Source} {typedefs : List Typedef} {typedef : Typedef}
    (htypedef : typedef ∈ typedefs) (hplain : typedef.body = none) {n : Nat}
    (hcovers : typedef.span.Covers n) {line : Text}
    (hline : (blankPlain source typedefs).line? n = some line) : line = [] := by
  induction typedefs generalizing source with
  | nil => cases htypedef
  | cons other typedefs ih =>
      rw [blankPlain, List.foldl_cons] at hline
      rcases List.mem_cons.mp htypedef with rfl | hrest
      · rw [hplain] at hline
        apply (trims_blankPlain (source.clear typedef.span) typedefs).line?_eq_nil _ hline
        exact fun old hold => line_eq_nil_of_clear hcovers hold
      · exact ih hrest hline

/-! ### A run over many declarations -/

/-- Detaches tag bodies one after another. -/
def detachAll (entries : List (Span × Span)) (progress : Progress) : Except Misplaced Progress :=
  entries.foldlM (fun progress (tag, declaration) => detach progress tag declaration) progress

theorem removeDeclarations_eq_detachAll (source : Source) (typedefs : List Typedef)
    (aliases : Aliases) :
    removeDeclarations source typedefs aliases =
      detachAll (bodies (typedefs.filter fun typedef => aliases.contains typedef.name))
        ⟨blankPlain source (typedefs.filter fun typedef => aliases.contains typedef.name), []⟩ := rfl

theorem detachAll_cons (entry : Span × Span) (entries : List (Span × Span)) (progress : Progress) :
    detachAll (entry :: entries) progress = detach progress entry.1 entry.2 >>= detachAll entries := rfl

/-- What each step keeps holds at the end of a run. -/
theorem detachAll_induction {P : Progress → Prop} {entries : List (Span × Span)}
    {progress done : Progress}
    (hstep : ∀ entry ∈ entries, ∀ before after, P before →
      detach before entry.1 entry.2 = .ok after → P after)
    (hstart : P progress) (hrun : detachAll entries progress = .ok done) : P done := by
  induction entries generalizing progress with
  | nil =>
      cases hrun
      exact hstart
  | cons entry entries ih =>
      rw [detachAll_cons] at hrun
      cases hdetach : detach progress entry.1 entry.2 with
      | error misplaced =>
          rw [hdetach] at hrun
          cases hrun
      | ok between =>
          rw [hdetach] at hrun
          exact ih (fun other hother => hstep other (List.mem_cons_of_mem entry hother))
            (hstep entry List.mem_cons_self progress between hstart hdetach) hrun

theorem trims_detachAll {text : Text} {touched : Nat → Prop} {entries : List (Span × Span)}
    {progress done : Progress} (htext : progress.source = .ofText text)
    (hreach : ∀ entry ∈ entries, ∀ n, Reaches entry.1 entry.2 n → touched n)
    (hrun : detachAll entries progress = .ok done) :
    Trims touched progress.source done.source := by
  refine detachAll_induction (P := fun current => Trims touched progress.source current.source) ?_
    (.refl _ _) hrun
  intro entry hentry before after hbefore hdetach
  obtain ⟨text', htext'⟩ := hbefore.exists_ofText htext
  exact hbefore.trans ((trims_detach htext' hdetach).mono (hreach entry hentry))

/-- The lines of which it was recorded that they were blanked are empty. -/
def BlankedEmpty (progress : Progress) : Prop :=
  ∀ n ∈ progress.blanked, ∀ line, progress.source.line? n = some line → line = []

theorem BlankedEmpty.of_detach {text : Text} {progress done : Progress} {tag declaration : Span}
    (hempty : BlankedEmpty progress) (hvalid : declaration.first.line ≤ declaration.last.line)
    (htext : progress.source = .ofText text) (hdetach : detach progress tag declaration = .ok done) :
    BlankedEmpty done := by
  have htrims := trims_detach htext hdetach
  rcases detach_cases hdetach with ⟨_, _, _, _, rfl⟩ | rfl
  · intro n hn line hline
    exact htrims.line?_eq_nil (hempty n hn) hline
  · intro n hn line hline
    rcases List.mem_append.mp hn with hn | hn
    · exact htrims.line?_eq_nil (hempty n hn) hline
    · rw [List.mem_singleton.mp hn] at hline
      exact line_eq_nil_of_clear ⟨Nat.le_refl _, hvalid⟩ hline

end Unfolding

end PlainC
