import Mathlib.Data.List.Induction
import Mathlib.Data.List.Nodup
import Mathlib.Tactic.Choose
import PlainC.Proofs.Detachment
import PlainC.Proofs.Trimming

/-!
# Tag bodies outlive their typedefs

Of each tag body that typedefs own, one declaration is kept. The declarations are detached one after
another at spans that were taken before the first of them was, so one that ends on the line on which
another begins must not be detached before it. Where that is so, every body is still there, in the
order and on the lines in which it was.
-/

namespace PlainC

open Position

namespace Unfolding

/-! ### Which bodies are owned -/

theorem mem_addOwned {owned : List (Span × Span)} {tag span : Span} {entry : Span × Span}
    (hentry : entry ∈ addOwned owned tag span) : entry ∈ owned ∨ entry = (tag, span) := by
  rw [addOwned] at hentry
  split at hentry
  · obtain ⟨⟨body, declaration⟩, hmem, hentry⟩ := List.mem_map.mp hentry
    simp only at hentry
    split at hentry
    · rename_i hsame
      exact .inr (by rw [← hentry, hsame.1])
    · exact .inl (hentry ▸ hmem)
  · rwa [List.mem_append, List.mem_singleton] at hentry

theorem map_fst_addOwned (owned : List (Span × Span)) (tag span : Span) :
    (addOwned owned tag span).map Prod.fst =
      if tag ∈ owned.map Prod.fst then owned.map Prod.fst else owned.map Prod.fst ++ [tag] := by
  have hany : (owned.any fun entry => entry.1 = tag) ↔ tag ∈ owned.map Prod.fst := by
    simp [List.any_eq_true, List.mem_map]
  rw [addOwned]
  by_cases htag : tag ∈ owned.map Prod.fst
  · rw [if_pos (hany.mpr htag), if_pos htag, List.map_map]
    apply List.map_congr_left
    intro entry _
    simp only [Function.comp_apply]
    split <;> rfl
  · rw [if_neg (mt hany.mp htag), if_neg htag, List.map_append]
    rfl

theorem bodies_concat (typedefs : List Typedef) (typedef : Typedef) :
    bodies (typedefs ++ [typedef]) =
      match typedef.body with
      | some tag => addOwned (bodies typedefs) tag typedef.span
      | none => bodies typedefs := by
  rw [bodies, List.foldl_append]
  rfl

theorem exists_of_mem_bodies {typedefs : List Typedef} {entry : Span × Span}
    (hentry : entry ∈ bodies typedefs) :
    ∃ typedef ∈ typedefs, typedef.body = some entry.1 ∧ typedef.span = entry.2 := by
  induction typedefs using List.reverseRecOn with
  | nil => cases hentry
  | append_singleton typedefs typedef ih =>
      rw [bodies_concat] at hentry
      have hearlier : entry ∈ bodies typedefs → ∃ other ∈ typedefs ++ [typedef],
          other.body = some entry.1 ∧ other.span = entry.2 := by
        intro hmem
        obtain ⟨other, hother, hfacts⟩ := ih hmem
        exact ⟨other, List.mem_append_left _ hother, hfacts⟩
      cases hbody : typedef.body with
      | none =>
          rw [hbody] at hentry
          exact hearlier hentry
      | some tag =>
          rw [hbody] at hentry
          rcases mem_addOwned hentry with hmem | rfl
          · exact hearlier hmem
          · exact ⟨typedef, by simp, hbody, rfl⟩

theorem mem_map_fst_bodies {typedefs : List Typedef} {tag : Span} :
    tag ∈ (bodies typedefs).map Prod.fst ↔ ∃ typedef ∈ typedefs, typedef.body = some tag := by
  induction typedefs using List.reverseRecOn with
  | nil => simp [bodies]
  | append_singleton typedefs typedef ih =>
      rw [bodies_concat]
      simp only [List.mem_append, List.mem_singleton, or_and_right, exists_or, exists_eq_left, ← ih]
      cases hbody : typedef.body with
      | none => simp
      | some own =>
          rw [map_fst_addOwned]
          split
          · rename_i hmem
            constructor
            · exact .inl
            · rintro (h | h)
              · exact h
              · exact Option.some.inj h ▸ hmem
          · rw [List.mem_append, List.mem_singleton, Option.some.injEq, eq_comm]

theorem nodup_map_fst_bodies (typedefs : List Typedef) :
    ((bodies typedefs).map Prod.fst).Nodup := by
  induction typedefs using List.reverseRecOn with
  | nil => exact List.nodup_nil
  | append_singleton typedefs typedef ih =>
      rw [bodies_concat]
      cases typedef.body with
      | none => exact ih
      | some tag =>
          rw [map_fst_addOwned]
          split
          · exact ih
          · rename_i hnew
            rw [List.nodup_append]
            refine ⟨ih, by simp, ?_⟩
            intro other hother new hmem
            rw [List.mem_singleton] at hmem
            subst hmem
            exact fun heq => hnew (heq ▸ hother)

/-! ### Which lines are edited -/

/-- Only lines of typedefs that are unfolded are edited, if the tag bodies lie inside their typedefs. -/
theorem trims_of_removeDeclarations {text : Text} {typedefs : List Typedef} {aliases : Aliases}
    {progress : Progress}
    (hinside : ∀ typedef ∈ typedefs, ∀ tag ∈ typedef.body,
      typedef.span.contains tag ∧ tag.first.line ≤ tag.last.line)
    (hremove : removeDeclarations (.ofText text) typedefs aliases = .ok progress) :
    Source.Trims (fun n => ∃ typedef ∈ typedefs, aliases.contains typedef.name ∧ typedef.span.Covers n)
      (.ofText text) progress.source := by
  rw [removeDeclarations_eq_detachAll] at hremove
  have hblank : Source.Trims (fun n => ∃ typedef ∈ typedefs, aliases.contains typedef.name ∧
      typedef.span.Covers n) (.ofText text)
      (blankPlain (.ofText text) (typedefs.filter fun typedef => aliases.contains typedef.name)) := by
    apply (trims_blankPlain _ _).mono
    rintro n ⟨typedef, hmem, -, hcovers⟩
    obtain ⟨htypedef, hcontains⟩ := List.mem_filter.mp hmem
    exact ⟨typedef, htypedef, hcontains, hcovers⟩
  obtain ⟨text', htext'⟩ := hblank.exists_ofText rfl
  refine hblank.trans (trims_detachAll htext' ?_ hremove)
  intro entry hentry n hreaches
  obtain ⟨typedef, hmem, hbody, hspan⟩ := exists_of_mem_bodies hentry
  obtain ⟨htypedef, hcontains⟩ := List.mem_filter.mp hmem
  obtain ⟨hcontained, hordered⟩ := hinside typedef htypedef entry.1 hbody
  refine ⟨typedef, htypedef, hcontains, ?_⟩
  rw [hspan] at hcontained ⊢
  exact hreaches.covers hcontained hordered

/-! ### Where the declarations stand while they are detached -/

/-- One declaration ends before the other begins. -/
def Ahead (entry other : Span × Span) : Prop := entry.2.last.Precedes other.2.first

instance (entry other : Span × Span) : Decidable (Ahead entry other) :=
  inferInstanceAs (Decidable (entry.2.last.Precedes other.2.first))

/-- Declarations as they are written at the start, each apart from the others. -/
structure Apart (entries : List (Span × Span)) (form : Span × Span → WrittenTypedef) : Prop where
  stands : ∀ entry ∈ entries, (form entry).StandsAt entry.1 entry.2
  apart : ∀ entry ∈ entries, ∀ other ∈ entries, entry ≠ other →
    Ahead entry other ∨ Ahead other entry

/-- What is written at a declaration: its body alone, unless it is still to be detached. -/
def piece (form : Span × Span → WrittenTypedef) (pending : List (Span × Span))
    (entry : Span × Span) : Text :=
  if entry ∈ pending then (form entry).whole else (form entry).detached

/-- A text in which declarations stand in their order and on their lines, each behind what `front` says,
and those that are still to be detached at their very spans. -/
structure Layout (form : Span × Span → WrittenTypedef) (entries pending : List (Span × Span))
    (front : Span × Span → Text) (text : Text) : Prop where
  inside : ∀ entry ∈ entries, front entry ++ piece form pending entry <+: text
  ordered : ∀ entry ∈ entries, ∀ other ∈ entries, Ahead entry other →
    front entry ++ piece form pending entry <+: front other
  lines : ∀ entry ∈ entries, (origin.after (front entry)).line = entry.2.first.line
  placed : ∀ entry ∈ pending, origin.after (front entry) = entry.2.first

/-- What stands before a declaration when the body of another has been detached. -/
def slide (form : Span × Span → WrittenTypedef) (front : Span × Span → Text)
    (edited entry : Span × Span) : Text :=
  if Ahead edited entry then
    front edited ++ (form edited).detached ++
      (front entry).drop (front edited ++ (form edited).whole).length
  else front entry

section Step

variable {entries pending : List (Span × Span)} {form : Span × Span → WrittenTypedef}
  {front : Span × Span → Text} {text : Text} {edited entry other : Span × Span}

theorem slide_of_ahead {more : Text} (hahead : Ahead edited entry)
    (hfront : front entry = front edited ++ (form edited).whole ++ more) :
    slide form front edited entry = front edited ++ (form edited).detached ++ more := by
  rw [slide, if_pos hahead, hfront, List.drop_left]

theorem slide_of_not_ahead (hahead : ¬Ahead edited entry) :
    slide form front edited entry = front entry :=
  if_neg hahead

theorem Apart.trans (hapart : Apart entries form) {first second third : Span × Span}
    (hsecond : second ∈ entries) (hfirst : Ahead first second) (hthird : Ahead second third) :
    Ahead first third :=
  (hfirst.trans_before (hapart.stands second hsecond).first_before_last).trans hthird

theorem Apart.irrefl (hapart : Apart entries form) (hentry : entry ∈ entries) :
    ¬Ahead entry entry := fun hahead =>
  hahead.not_before (hapart.stands entry hentry).first_before_last

theorem Apart.not_ahead (hapart : Apart entries form) (hentry : entry ∈ entries)
    (hother : other ∈ entries) (hahead : Ahead entry other) : ¬Ahead other entry := fun hback =>
  hapart.irrefl hentry (hapart.trans hother hahead hback)

theorem piece_cons_of_ne (hne : entry ≠ edited) :
    piece form (edited :: pending) entry = piece form pending entry := by
  simp only [piece, List.mem_cons, hne, false_or]

theorem piece_cons_self : piece form (edited :: pending) edited = (form edited).whole :=
  if_pos List.mem_cons_self

theorem piece_of_not_mem (hentry : entry ∉ pending) :
    piece form pending entry = (form entry).detached :=
  if_neg hentry

theorem slide_self (hapart : Apart entries form) (hedited : edited ∈ entries) :
    slide form front edited edited = front edited :=
  slide_of_not_ahead (hapart.irrefl hedited)

/-- The declarations behind the edited one move with the text, and the others stay. -/
theorem Layout.slide_cases (hlayout : Layout form entries (edited :: pending) front text)
    (hapart : Apart entries form) (hedited : edited ∈ entries) (hentry : entry ∈ entries)
    (hne : entry ≠ edited) :
    (∃ more, Ahead edited entry ∧ front entry = front edited ++ (form edited).whole ++ more ∧
      slide form front edited entry = front edited ++ (form edited).detached ++ more) ∨
    (¬Ahead edited entry ∧ slide form front edited entry = front entry ∧
      front entry ++ piece form pending entry <+: front edited) := by
  rcases hapart.apart edited hedited entry hentry hne.symm with hahead | hahead
  · have hfront := hlayout.ordered edited hedited entry hentry hahead
    rw [piece_cons_self] at hfront
    obtain ⟨more, hmore⟩ := hfront
    exact .inl ⟨more, hahead, hmore.symm, slide_of_ahead hahead hmore.symm⟩
  · have hnot := hapart.not_ahead hentry hedited hahead
    have hfront := hlayout.ordered entry hentry edited hedited hahead
    rw [piece_cons_of_ne hne] at hfront
    exact .inr ⟨hnot, slide_of_not_ahead hnot, hfront⟩

theorem Layout.slide_inside {rest : Text} (hapart : Apart entries form) (hedited : edited ∈ entries)
    (hlayout : Layout form entries (edited :: pending) front
      (front edited ++ (form edited).whole ++ rest)) (hnew : edited ∉ pending)
    (hentry : entry ∈ entries) :
    slide form front edited entry ++ piece form pending entry <+:
      front edited ++ (form edited).detached ++ rest := by
  by_cases hne : entry = edited
  · rw [hne, slide_self hapart hedited, piece_of_not_mem hnew]
    exact List.prefix_append _ _
  · rcases hlayout.slide_cases hapart hedited hentry hne with
      ⟨more, -, hfront, hslide⟩ | ⟨-, hslide, hfront⟩
    · have hin := hlayout.inside entry hentry
      rw [hfront, piece_cons_of_ne hne, List.append_assoc, List.prefix_append_right_inj] at hin
      rw [hslide, List.append_assoc, List.prefix_append_right_inj]
      exact hin
    · rw [hslide, List.append_assoc]
      exact hfront.trans (List.prefix_append _ _)

theorem Layout.slide_ordered (hapart : Apart entries form) (hedited : edited ∈ entries)
    (hlayout : Layout form entries (edited :: pending) front text) (hnew : edited ∉ pending)
    (hentry : entry ∈ entries) (hother : other ∈ entries) (hahead : Ahead entry other) :
    slide form front edited entry ++ piece form pending entry <+: slide form front edited other := by
  by_cases hne : entry = edited
  · subst hne
    have hne' : other ≠ entry := fun heq => hapart.irrefl hentry (heq ▸ hahead)
    rcases hlayout.slide_cases hapart hedited hother hne' with ⟨more, -, -, hslide⟩ | ⟨hnot, -⟩
    · rw [slide_self hapart hedited, hslide, piece_of_not_mem hnew]
      exact List.prefix_append _ _
    · exact absurd hahead hnot
  have hfront := hlayout.ordered entry hentry other hother hahead
  rw [piece_cons_of_ne hne] at hfront
  rcases hlayout.slide_cases hapart hedited hentry hne with
    ⟨more, hbehind, hentryFront, hslide⟩ | ⟨-, hslide, hin⟩
  · -- Both are behind the edit and move together.
    have hahead' := hapart.trans hentry hbehind hahead
    have hne' : other ≠ edited := fun heq => hapart.irrefl hedited (heq ▸ hahead')
    rcases hlayout.slide_cases hapart hedited hother hne' with
      ⟨more', -, hotherFront, hslide'⟩ | ⟨hnot, -⟩
    · rw [hentryFront, hotherFront, List.append_assoc, List.prefix_append_right_inj] at hfront
      rw [hslide, hslide', List.append_assoc, List.prefix_append_right_inj]
      exact hfront
    · exact absurd hahead' hnot
  · rw [hslide]
    by_cases hne' : other = edited
    · rw [hne', slide_self hapart hedited]
      exact hin
    · rcases hlayout.slide_cases hapart hedited hother hne' with
        ⟨more', -, -, hslide'⟩ | ⟨-, hslide', -⟩
      · rw [hslide', List.append_assoc]
        exact hin.trans (List.prefix_append _ _)
      · rw [hslide']
        exact hfront

theorem Layout.line_slide (hapart : Apart entries form) (hedited : edited ∈ entries)
    (hlayout : Layout form entries (edited :: pending) front text) (hentry : entry ∈ entries) :
    (origin.after (slide form front edited entry)).line = (origin.after (front entry)).line := by
  by_cases hne : entry = edited
  · rw [hne, slide_self hapart hedited]
  · rcases hlayout.slide_cases hapart hedited hentry hne with
      ⟨more, -, hfront, hslide⟩ | ⟨-, hslide, -⟩
    · rw [hslide, hfront, line_after, line_after]
      simp only [List.count_append, WrittenTypedef.count_detached]
    · rw [hslide]

/-- A declaration that begins on a later line than the edited one ends on keeps its position. -/
theorem Layout.after_slide (hapart : Apart entries form) (hedited : edited ∈ entries)
    (hlayout : Layout form entries (edited :: pending) front text) (hentry : entry ∈ pending)
    (hmem : entry ∈ entries) (hne : entry ≠ edited)
    (hshift : Ahead edited entry → edited.2.last.line < entry.2.first.line) :
    origin.after (slide form front edited entry) = origin.after (front entry) := by
  rcases hlayout.slide_cases hapart hedited hmem hne with
    ⟨more, hahead, hfront, hslide⟩ | ⟨-, hslide, -⟩
  · have hplaced := hlayout.placed edited List.mem_cons_self
    have hplaced' := hlayout.placed entry (List.mem_cons_of_mem edited hentry)
    have hline := hshift hahead
    have hfeed : '\n' ∈ more := by
      rw [← List.count_pos_iff]
      rw [← hplaced', hfront, after_append, line_after, after_append, hplaced,
        (hapart.stands edited hedited).last] at hline
      simp only at hline
      omega
    rw [hslide, hfront]
    apply after_append_eq_of_feed _ hfeed
    rw [List.count_append, List.count_append, WrittenTypedef.count_detached]
  · rw [hslide]

/-- Detaching one declaration leaves a layout in which it is done with. -/
theorem Layout.step (hlayout : Layout form entries (edited :: pending) front text)
    (hapart : Apart entries form) (hmem : edited :: pending ⊆ entries) (hnew : edited ∉ pending)
    (hshift : ∀ entry ∈ pending, Ahead edited entry → edited.2.last.line < entry.2.first.line)
    (blanked : List Nat) :
    ∃ front' text', detach ⟨.ofText text, blanked⟩ edited.1 edited.2 = .ok ⟨.ofText text', blanked⟩ ∧
      Layout form entries pending front' text' := by
  have hedited : edited ∈ entries := hmem List.mem_cons_self
  have hinside := hlayout.inside edited hedited
  rw [piece_cons_self] at hinside
  obtain ⟨rest, rfl⟩ := hinside
  refine ⟨slide form front edited, front edited ++ (form edited).detached ++ rest,
    detach_ofText (hapart.stands edited hedited) (hlayout.placed edited List.mem_cons_self) rest
      blanked, ?_⟩
  constructor
  case inside => exact fun entry hentry => hlayout.slide_inside hapart hedited hnew hentry
  case ordered =>
    exact fun entry hentry other hother hahead =>
      hlayout.slide_ordered hapart hedited hnew hentry hother hahead
  case lines =>
    intro entry hentry
    rw [hlayout.line_slide hapart hedited hentry, hlayout.lines entry hentry]
  case placed =>
    intro entry hentry
    have hin : entry ∈ entries := hmem (List.mem_cons_of_mem edited hentry)
    have hne : entry ≠ edited := fun heq => hnew (heq ▸ hentry)
    rw [hlayout.after_slide hapart hedited hentry hin hne (hshift entry hentry)]
    exact hlayout.placed entry (List.mem_cons_of_mem edited hentry)

/-- No declaration ends on the line on which one begins that is behind it and is detached later. -/
def NoShift (entries : List (Span × Span)) : Prop :=
  entries.Pairwise fun entry later => Ahead entry later → entry.2.last.line < later.2.first.line

instance (entries : List (Span × Span)) : Decidable (NoShift entries) :=
  inferInstanceAs (Decidable (entries.Pairwise _))

theorem Layout.run (hlayout : Layout form entries pending front text) (hapart : Apart entries form)
    (hmem : pending ⊆ entries) (hnodup : pending.Nodup) (hshift : NoShift pending)
    (blanked : List Nat) :
    ∃ front' text', detachAll pending ⟨.ofText text, blanked⟩ = .ok ⟨.ofText text', blanked⟩ ∧
      Layout form entries [] front' text' := by
  induction pending generalizing front text with
  | nil => exact ⟨front, text, rfl, hlayout⟩
  | cons edited pending ih =>
      obtain ⟨hnew, hnodup'⟩ := List.nodup_cons.mp hnodup
      obtain ⟨hfirst, hshift'⟩ := List.pairwise_cons.mp hshift
      obtain ⟨front', text', hdetach, hlayout'⟩ := hlayout.step hapart hmem hnew hfirst blanked
      obtain ⟨front'', text'', hrun, hdone⟩ :=
        ih hlayout' (fun entry hentry => hmem (List.mem_cons_of_mem edited hentry)) hnodup' hshift'
      refine ⟨front'', text'', ?_, hdone⟩
      rw [detachAll_cons, hdetach]
      exact hrun

/-- Before the first declaration is detached, each stands at its span. -/
theorem layout_of_placed (hapart : Apart entries form)
    (hplaced : ∀ entry ∈ entries, front entry ++ (form entry).whole <+: text ∧
      origin.after (front entry) = entry.2.first) : Layout form entries entries front text := by
  have hpiece : ∀ entry ∈ entries, piece form entries entry = (form entry).whole :=
    fun entry hentry => if_pos hentry
  refine ⟨?_, ?_, ?_, fun entry hentry => (hplaced entry hentry).2⟩
  · intro entry hentry
    rw [hpiece entry hentry]
    exact (hplaced entry hentry).1
  · intro entry hentry other hother hahead
    obtain ⟨⟨rest, hrest⟩, hfront⟩ := hplaced entry hentry
    obtain ⟨⟨rest', hrest'⟩, hfront'⟩ := hplaced other hother
    have hbefore : (origin.after (front entry ++ (form entry).whole)).before
        (origin.after (front other)) := by
      rwa [after_append, hfront, (hapart.stands entry hentry).last, hfront', next_before_iff]
    rw [hpiece entry hentry]
    rw [List.append_assoc] at hrest'
    obtain ⟨between, hbetween, -⟩ := exists_append_of_before (hrest.trans hrest'.symm) hbefore
    exact ⟨between, hbetween.symm⟩
  · intro entry hentry
    rw [(hplaced entry hentry).2]

end Step

/-! ### The bodies of a list of typedefs -/

/-- Typedefs of a text that each hold a tag body behind the keyword that they begin with. Those of
different bodies do not overlap. -/
structure HoldBodies (text : Text) (typedefs : List Typedef) : Prop where
  holds : ∀ typedef ∈ typedefs, ∃ tag body keyword others, typedef.body = some tag ∧
    typedef.span.contains tag ∧ (Source.ofText text).extract? tag = some body ∧
    Text.StartsBare body ∧ (Source.ofText text).tokens typedef.span = .ok (keyword :: others) ∧
    keyword.kind = some .typedefKeyword ∧ keyword.span.last.Precedes tag.first
  apart : ∀ typedef ∈ typedefs, ∀ other ∈ typedefs, typedef.body ≠ other.body →
    typedef.span.last.Precedes other.span.first ∨ other.span.last.Precedes typedef.span.first

section Bodies

variable {text : Text} {typedefs : List Typedef} {form : Span × Span → WrittenTypedef}

theorem HoldBodies.exists_standsAt (hholds : HoldBodies text typedefs) {entry : Span × Span}
    (hentry : entry ∈ bodies typedefs) :
    ∃ typedef : WrittenTypedef, (Source.ofText text).extract? entry.1 = some typedef.body ∧
      typedef.StandsAt entry.1 entry.2 ∧ ∃ front, front ++ typedef.whole <+: text ∧
        origin.after front = entry.2.first := by
  obtain ⟨owner, howner, hbody, hspan⟩ := exists_of_mem_bodies hentry
  obtain ⟨tag, body, keyword, others, htag, hcontains, hextract, hbare, htokens, hkind, hbehind⟩ :=
    hholds.holds owner howner
  rw [hbody, Option.some.injEq] at htag
  subst htag
  rw [hspan] at hcontains htokens
  have hinside : entry.1.last.before entry.2.last := by
    rw [Span.contains, Bool.and_eq_true] at hcontains
    exact hcontains.2
  obtain ⟨typedef, rfl, hstands, front, rest, htext, hfront⟩ :=
    Unfolding.exists_standsAt htokens hkind hextract hbare hbehind hinside
  exact ⟨typedef, hextract, hstands, front, ⟨rest, htext.symm⟩, hfront⟩

theorem eq_of_fst_eq {entry other : Span × Span} (hentry : entry ∈ bodies typedefs)
    (hother : other ∈ bodies typedefs) (htag : entry.1 = other.1) : entry = other :=
  List.inj_on_of_nodup_map (nodup_map_fst_bodies typedefs) hentry hother htag

theorem HoldBodies.ahead_or (hholds : HoldBodies text typedefs) {entry other : Span × Span}
    (hentry : entry ∈ bodies typedefs) (hother : other ∈ bodies typedefs) (hne : entry ≠ other) :
    Ahead entry other ∨ Ahead other entry := by
  obtain ⟨owner, howner, hbody, hspan⟩ := exists_of_mem_bodies hentry
  obtain ⟨owner', howner', hbody', hspan'⟩ := exists_of_mem_bodies hother
  have htag : owner.body ≠ owner'.body := by
    rw [hbody, hbody', ne_eq, Option.some.injEq]
    exact fun htag => hne (eq_of_fst_eq hentry hother htag)
  rw [Ahead, Ahead, ← hspan, ← hspan']
  exact hholds.apart owner howner owner' howner' htag

/-- Of two bodies that stand one behind the other, the declarations do so too. -/
theorem Apart.ahead_of_precedes (hapart : Apart (bodies typedefs) form) {entry other : Span × Span}
    (hentry : entry ∈ bodies typedefs) (hother : other ∈ bodies typedefs)
    (hprecedes : entry.1.last.Precedes other.1.first) : Ahead entry other := by
  have hstands := hapart.stands entry hentry
  have hstands' := hapart.stands other hother
  by_cases hsame : entry = other
  · subst hsame
    exact absurd hstands.body_first_before_last hprecedes.not_before
  · rcases hapart.apart entry hentry other hother hsame with hahead | hahead
    · exact hahead
    · -- Else the other declaration would end before its own body begins.
      have hback : other.2.last.Precedes other.1.first :=
        ((hahead.trans_before hstands.body_behind_first).trans_before
          hstands.body_first_before_last).trans hprecedes
      exact absurd hstands'.body_before_last
        (hback.trans_before hstands'.body_first_before_last).not_before

theorem filter_contains_eq_self {aliases : Aliases}
    (haliases : ∀ typedef ∈ typedefs, aliases.contains typedef.name) :
    (typedefs.filter fun typedef => aliases.contains typedef.name) = typedefs :=
  List.filter_eq_self.mpr haliases

theorem blankPlain_of_owned (source : Source)
    (howned : ∀ typedef ∈ typedefs, ∃ tag, typedef.body = some tag) :
    blankPlain source typedefs = source := by
  induction typedefs with
  | nil => rfl
  | cons typedef typedefs ih =>
      obtain ⟨tag, htag⟩ := howned typedef List.mem_cons_self
      rw [blankPlain, List.foldl_cons, htag]
      exact ih fun other hother => howned other (List.mem_cons_of_mem typedef hother)

theorem HoldBodies.removeDeclarations_eq (hholds : HoldBodies text typedefs) {aliases : Aliases}
    (haliases : ∀ typedef ∈ typedefs, aliases.contains typedef.name) :
    removeDeclarations (.ofText text) typedefs aliases =
      detachAll (bodies typedefs) ⟨.ofText text, []⟩ := by
  rw [removeDeclarations_eq_detachAll, filter_contains_eq_self haliases, blankPlain_of_owned]
  intro typedef htypedef
  obtain ⟨tag, _, _, _, htag, -⟩ := hholds.holds typedef htypedef
  exact ⟨tag, htag⟩

end Bodies

/-- What it is for tag bodies to outlive their typedefs: each is in the new text behind what `above`
says, on the line on which it was, and those that stood behind each other still do. -/
structure Outlive (text : Text) (tags : List Span) (above : Span → Text) (out : Text) : Prop where
  present : ∀ tag ∈ tags, ∀ body, (Source.ofText text).extract? tag = some body →
    above tag ++ body <+: out ∧ (origin.after (above tag)).line = tag.first.line
  ordered : ∀ tag ∈ tags, ∀ other ∈ tags, tag.last.Precedes other.first →
    ∀ body, (Source.ofText text).extract? tag = some body → above tag ++ body <+: above other

theorem mem_filterMap_body {typedefs : List Typedef} {tag : Span} :
    tag ∈ typedefs.filterMap Typedef.body ↔ ∃ entry ∈ bodies typedefs, entry.1 = tag := by
  rw [List.mem_filterMap, ← mem_map_fst_bodies, List.mem_map]

/-- When no declaration is left to be detached, the bodies are there. -/
theorem Layout.outlive {text out : Text} {typedefs : List Typedef}
    {form : Span × Span → WrittenTypedef} {front : Span × Span → Text}
    (hlayout : Layout form (bodies typedefs) [] front out) (hapart : Apart (bodies typedefs) form)
    (hextract : ∀ entry ∈ bodies typedefs,
      (Source.ofText text).extract? entry.1 = some (form entry).body) :
    ∃ above, Outlive text (typedefs.filterMap Typedef.body) above out := by
  have habove : ∀ tag, ∃ above, ∀ entry ∈ bodies typedefs, entry.1 = tag →
      above = front entry ++ (form entry).lead := by
    intro tag
    by_cases htag : ∃ entry ∈ bodies typedefs, entry.1 = tag
    · obtain ⟨entry, hentry, rfl⟩ := htag
      refine ⟨front entry ++ (form entry).lead, ?_⟩
      intro other hother hsame
      rw [eq_of_fst_eq hother hentry hsame]
    · exact ⟨[], fun entry hentry hsame => absurd ⟨entry, hentry, hsame⟩ htag⟩
  choose above habove using habove
  have hbody : ∀ entry ∈ bodies typedefs, above entry.1 ++ (form entry).body <+:
      front entry ++ piece form [] entry := by
    intro entry hentry
    rw [habove entry.1 entry hentry rfl, piece_of_not_mem List.not_mem_nil, WrittenTypedef.detached,
      List.append_assoc, List.append_assoc (form entry).lead, List.prefix_append_right_inj,
      List.prefix_append_right_inj]
    exact List.prefix_append _ _
  refine ⟨above, ?_, ?_⟩
  · intro tag htag body hpiece
    obtain ⟨entry, hentry, rfl⟩ := mem_filterMap_body.mp htag
    rw [hextract entry hentry, Option.some.injEq] at hpiece
    subst hpiece
    refine ⟨(hbody entry hentry).trans (hlayout.inside entry hentry), ?_⟩
    rw [habove entry.1 entry hentry rfl, after_append, line_after, hlayout.lines entry hentry,
      WrittenTypedef.count_lead, ← line_after, (hapart.stands entry hentry).bodyFirst]
  · intro tag htag other hother hprecedes body hpiece
    obtain ⟨entry, hentry, rfl⟩ := mem_filterMap_body.mp htag
    obtain ⟨entry', hentry', rfl⟩ := mem_filterMap_body.mp hother
    rw [hextract entry hentry, Option.some.injEq] at hpiece
    subst hpiece
    have hahead := hapart.ahead_of_precedes hentry hentry' hprecedes
    have hfront := hlayout.ordered entry hentry entry' hentry' hahead
    rw [habove entry'.1 entry' hentry' rfl]
    exact ((hbody entry hentry).trans hfront).trans (List.prefix_append _ _)

theorem HoldBodies.exists_outlive {text : Text} {typedefs : List Typedef}
    (hholds : HoldBodies text typedefs) (hshift : NoShift (bodies typedefs)) :
    ∃ above out, detachAll (bodies typedefs) ⟨.ofText text, []⟩ = .ok ⟨.ofText out, []⟩ ∧
      Outlive text (typedefs.filterMap Typedef.body) above out := by
  choose! form hextract hstands front hwritten hfront using
    fun entry (hentry : entry ∈ bodies typedefs) => hholds.exists_standsAt hentry
  have hapart : Apart (bodies typedefs) form :=
    ⟨hstands, fun entry hentry other hother hne => hholds.ahead_or hentry hother hne⟩
  have hstart : Layout form (bodies typedefs) (bodies typedefs) front text :=
    layout_of_placed hapart fun entry hentry => ⟨hwritten entry hentry, hfront entry hentry⟩
  obtain ⟨front', out, hrun, hlayout⟩ := hstart.run hapart (List.Subset.refl _)
    (nodup_map_fst_bodies typedefs).of_map hshift []
  obtain ⟨above, houtlive⟩ := hlayout.outlive hapart hextract
  exact ⟨above, out, hrun, houtlive⟩

theorem HoldBodies.blankedEmpty {text : Text} {typedefs : List Typedef} {done : Progress}
    (hholds : HoldBodies text typedefs)
    (hrun : detachAll (bodies typedefs) ⟨.ofText text, []⟩ = .ok done) :
    BlankedEmpty done := by
  refine (detachAll_induction (P := fun current => (∃ text, current.source = .ofText text) ∧
    BlankedEmpty current) ?_ ⟨⟨text, rfl⟩, fun _ hn => absurd hn List.not_mem_nil⟩ hrun).2
  rintro entry hentry before after ⟨⟨text', htext'⟩, hempty⟩ hdetach
  obtain ⟨_, -, hstands, -⟩ := hholds.exists_standsAt hentry
  have hvalid := before_iff.mp hstands.first_before_last
  exact ⟨(trims_detach htext' hdetach).exists_ofText htext',
    hempty.of_detach (by omega) htext' hdetach⟩

/-- A body does not outlive its typedef when the line on which it begins was blanked. -/
theorem HoldBodies.not_outlive {text : Text} {typedefs : List Typedef} {done : Progress}
    (hholds : HoldBodies text typedefs)
    (hrun : detachAll (bodies typedefs) ⟨.ofText text, []⟩ = .ok done) {tag : Span}
    (htag : tag ∈ typedefs.filterMap Typedef.body) (hblanked : tag.first.line ∈ done.blanked)
    (above : Span → Text) :
    ¬Outlive text (typedefs.filterMap Typedef.body) above done.source.toText := by
  intro houtlive
  have hempty := hholds.blankedEmpty hrun
  have htrims : Source.Trims (fun _ => True) (.ofText text) done.source :=
    trims_detachAll rfl (fun _ _ _ _ => trivial) hrun
  obtain ⟨out, hout⟩ := htrims.exists_ofText rfl
  obtain ⟨entry, hentry, rfl⟩ := mem_filterMap_body.mp htag
  obtain ⟨typedef, hextract, -⟩ := hholds.exists_standsAt hentry
  obtain ⟨c, body, hbody, -, -, hfeed⟩ := typedef.bare
  obtain ⟨⟨rest, hrest⟩, hline⟩ := houtlive.present entry.1 htag typedef.body hextract
  rw [hout, Source.toText_ofText, hbody, List.append_assoc, List.cons_append] at hrest
  obtain ⟨line, hlineOut, hne⟩ := Source.exists_line?_ofText hfeed (above entry.1) (body ++ rest)
  rw [hrest, ← hout, hline] at hlineOut
  exact hne (hempty entry.1.first.line hblanked line hlineOut)

/-- If all typedefs hold tag bodies and are unfolded, the bodies outlive them, provided that none ends
on the line on which another begins that is detached later. They do not when a declaration is not read
as beginning with the keyword at its turn, for then its line is blanked. -/
theorem tag_bodies_outlive_typedefs (text : Text) (typedefs : List Typedef) (aliases : Aliases)
    (haliases : ∀ typedef ∈ typedefs, aliases.contains typedef.name)
    (hholds : HoldBodies text typedefs) :
    (NoShift (bodies typedefs) →
      ∃ above out, removeDeclarations (.ofText text) typedefs aliases = .ok ⟨.ofText out, []⟩ ∧
        Outlive text (typedefs.filterMap Typedef.body) above out) ∧
    ∀ progress, removeDeclarations (.ofText text) typedefs aliases = .ok progress →
      ∀ tag ∈ typedefs.filterMap Typedef.body, tag.first.line ∈ progress.blanked →
        ∀ above, ¬Outlive text (typedefs.filterMap Typedef.body) above progress.source.toText := by
  rw [hholds.removeDeclarations_eq haliases]
  exact ⟨hholds.exists_outlive, fun progress hrun tag htag hblanked =>
    hholds.not_outlive hrun htag hblanked⟩

def oneLineText : Text :=
  "typedef struct A \x7b int x; \x7d A; typedef struct B \x7b int y; \x7d B;\n".toList

def oneLineTypedefs : List Typedef :=
  [⟨"A".toList, "struct A".toList, ⟨⟨1, 1⟩, ⟨1, 29⟩⟩, some ⟨⟨1, 9⟩, ⟨1, 27⟩⟩⟩,
    ⟨"B".toList, "struct B".toList, ⟨⟨1, 32⟩, ⟨1, 60⟩⟩, some ⟨⟨1, 40⟩, ⟨1, 58⟩⟩⟩]

def oneLineAliases : Aliases :=
  .ofList (oneLineTypedefs.map fun typedef => (typedef.name, typedef.canonical))

theorem HoldBodies.mono {text : Text} {typedefs fewer : List Typedef}
    (hholds : HoldBodies text typedefs) (hfewer : fewer ⊆ typedefs) : HoldBodies text fewer where
  holds := fun typedef htypedef => hholds.holds typedef (hfewer htypedef)
  apart := fun typedef htypedef other hother =>
    hholds.apart typedef (hfewer htypedef) other (hfewer hother)

theorem exists_tokens_of_head? {tokens : Except Misplaced (List Token)} {first : Token}
    (hfirst : tokens.toOption.bind List.head? = some first) :
    ∃ others, tokens = .ok (first :: others) := by
  obtain ⟨list, hlist, hhead⟩ := Option.bind_eq_some_iff.mp hfirst
  cases tokens with
  | error misplaced => cases hlist
  | ok tokens =>
      cases hlist
      obtain ⟨others, rfl⟩ := List.head?_eq_some_iff.mp hhead
      exact ⟨others, rfl⟩

theorem holdBodies_oneLine : HoldBodies oneLineText oneLineTypedefs where
  holds := by
    intro typedef htypedef
    rcases List.mem_pair.mp htypedef with rfl | rfl
    · obtain ⟨others, htokens⟩ := exists_tokens_of_head? (show
        ((Source.ofText oneLineText).tokens ⟨⟨1, 1⟩, ⟨1, 29⟩⟩).toOption.bind List.head? =
          some ⟨some .typedefKeyword, "typedef".toList, ⟨⟨1, 1⟩, ⟨1, 7⟩⟩⟩ by decide +kernel)
      exact ⟨⟨⟨1, 9⟩, ⟨1, 27⟩⟩, "struct A \x7b int x; \x7d".toList, _, others, rfl, by decide,
        by decide +kernel, ⟨'s', _, rfl, by decide, by decide, by decide⟩, htokens, rfl, by decide⟩
    · obtain ⟨others, htokens⟩ := exists_tokens_of_head? (show
        ((Source.ofText oneLineText).tokens ⟨⟨1, 32⟩, ⟨1, 60⟩⟩).toOption.bind List.head? =
          some ⟨some .typedefKeyword, "typedef".toList, ⟨⟨1, 32⟩, ⟨1, 38⟩⟩⟩ by decide +kernel)
      exact ⟨⟨⟨1, 40⟩, ⟨1, 58⟩⟩, "struct B \x7b int y; \x7d".toList, _, others, rfl, by decide,
        by decide +kernel, ⟨'s', _, rfl, by decide, by decide, by decide⟩, htokens, rfl, by decide⟩
  apart := by decide

/-- Two typedefs on one line, of which the second is detached first, leave both bodies. -/
theorem tag_bodies_outlive_typedefs_from_the_right :
    NoShift (bodies oneLineTypedefs.reverse) ∧
      ∃ above out, removeDeclarations (.ofText oneLineText) oneLineTypedefs.reverse oneLineAliases =
        .ok ⟨.ofText out, []⟩ ∧
        Outlive oneLineText (oneLineTypedefs.reverse.filterMap Typedef.body) above out := by
  have hshift : NoShift (bodies oneLineTypedefs.reverse) := by decide +kernel
  have hholds := holdBodies_oneLine.mono (List.reverse_subset.mpr (List.Subset.refl oneLineTypedefs))
  exact ⟨hshift, (tag_bodies_outlive_typedefs oneLineText oneLineTypedefs.reverse oneLineAliases
    (by decide +kernel) hholds).1 hshift⟩

/-- Detached from the left, the second typedef is misread, and the line is lost with both bodies. -/
theorem tag_bodies_lost_from_the_left :
    (∀ typedef ∈ oneLineTypedefs, oneLineAliases.contains typedef.name) ∧
      HoldBodies oneLineText oneLineTypedefs ∧
      removeDeclarations (.ofText oneLineText) oneLineTypedefs oneLineAliases =
        .ok ⟨.ofText "\n".toList, [1]⟩ ∧
      ∀ above, ¬Outlive oneLineText (oneLineTypedefs.filterMap Typedef.body) above "\n".toList := by
  have hremoved : removeDeclarations (.ofText oneLineText) oneLineTypedefs oneLineAliases =
      .ok ⟨.ofText "\n".toList, [1]⟩ := by decide +kernel
  have haliases : ∀ typedef ∈ oneLineTypedefs, oneLineAliases.contains typedef.name := by
    decide +kernel
  have hrun := hremoved
  rw [holdBodies_oneLine.removeDeclarations_eq haliases] at hrun
  exact ⟨haliases, holdBodies_oneLine, hremoved, fun above =>
    holdBodies_oneLine.not_outlive hrun (by decide : ⟨⟨1, 40⟩, ⟨1, 58⟩⟩ ∈ _) (by decide) above⟩

end Unfolding

end PlainC
