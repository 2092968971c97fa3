import PlainC.Token.Located
import PlainC.Proofs.Text

/-!
# Positions in a text

A position is what is reached by reading a text from its origin. Reading on always leads further, so a
position names one place of a text, and the places of a text are ordered as their positions are.
-/

namespace PlainC

namespace Position

/-- Where a text begins. -/
def origin : Position := ⟨1, 1⟩

/-- Reading order without equality. -/
def Precedes (a b : Position) : Prop := a.line < b.line ∨ a.line = b.line ∧ a.col < b.col

instance (a b : Position) : Decidable (a.Precedes b) :=
  inferInstanceAs (Decidable (_ ∨ _))

theorem before_iff {a b : Position} :
    a.before b ↔ a.line < b.line ∨ a.line = b.line ∧ a.col ≤ b.col := by
  simp [before]

theorem not_before_iff {a b : Position} : ¬a.before b ↔ b.Precedes a := by
  rw [before_iff, Precedes]
  omega

theorem Precedes.before {a b : Position} (h : a.Precedes b) : a.before b := by
  rw [Precedes] at h
  rw [before_iff]
  omega

theorem Precedes.trans {a b c : Position} (hab : a.Precedes b) (hbc : b.Precedes c) :
    a.Precedes c := by
  rw [Precedes] at *
  omega

theorem Precedes.trans_before {a b c : Position} (hab : a.Precedes b) (hbc : b.before c) :
    a.Precedes c := by
  rw [before_iff] at hbc
  rw [Precedes] at *
  omega

/-- The position behind the last byte of something is compared as the byte itself is. -/
theorem precedes_next_iff {a b : Position} : a.Precedes ⟨b.line, b.col + 1⟩ ↔ a.before b := by
  rw [Precedes, before_iff]
  simp only
  omega

theorem next_before_iff {a b : Position} :
    (⟨a.line, a.col + 1⟩ : Position).before b ↔ a.Precedes b := by
  rw [Precedes, before_iff]
  simp only
  omega

theorem next_before_next_iff {a b : Position} :
    (⟨a.line, a.col + 1⟩ : Position).before ⟨b.line, b.col + 1⟩ ↔ a.before b := by
  rw [before_iff, before_iff]
  simp only
  omega

theorem Precedes.not_before {a b : Position} (h : a.Precedes b) : ¬b.before a :=
  not_before_iff.mpr h

/-! ### Reading on -/

@[simp]
theorem after_nil (position : Position) : position.after [] = position := rfl

theorem after_cons (position : Position) (c : Char) (text : Text) :
    position.after (c :: text) = (position.step c).after text := rfl

theorem after_append (position : Position) (before behind : Text) :
    position.after (before ++ behind) = (position.after before).after behind :=
  List.foldl_append

theorem after_feed (position : Position) (text : Text) :
    position.after ('\n' :: text) = (⟨position.line + 1, 1⟩ : Position).after text := by
  simp [after_cons, step]

theorem after_of_not_mem {text : Text} (htext : '\n' ∉ text) (position : Position) :
    position.after text = ⟨position.line, position.col + Text.byteLength text⟩ := by
  induction text generalizing position with
  | nil => simp
  | cons c text ih =>
      simp only [List.mem_cons, not_or] at htext
      rw [after_cons, ih htext.2, step, if_neg (Ne.symm htext.1)]
      simp [Nat.add_assoc]

theorem line_after (position : Position) (text : Text) :
    (position.after text).line = position.line + text.count '\n' := by
  induction text generalizing position with
  | nil => simp
  | cons c text ih =>
      rw [after_cons, ih, step]
      by_cases hc : c = '\n'
      · simp [hc]
        omega
      · simp [hc]

theorem after_closed {above : List Text} (habove : ∀ line ∈ above, '\n' ∉ line) (line : Nat)
    (text : Text) :
    (⟨line, 1⟩ : Position).after (Text.closed above ++ text) =
      (⟨line + above.length, 1⟩ : Position).after text := by
  induction above generalizing line with
  | nil => simp
  | cons first above ih =>
      have hrest := ih fun other hother => habove other (List.mem_cons_of_mem _ hother)
      rw [Text.closed_cons, List.append_assoc, after_append,
        after_of_not_mem (habove first List.mem_cons_self), List.cons_append, after_feed, hrest,
        List.length_cons, Nat.add_comm above.length, ← Nat.add_assoc]

/-- The position of a place is given by the number of lines above it and the bytes to the left. -/
theorem origin_after_place {above : List Text} {left : Text}
    (habove : ∀ line ∈ above, '\n' ∉ line) (hleft : '\n' ∉ left) :
    origin.after (Text.closed above ++ left) = ⟨above.length + 1, Text.byteLength left + 1⟩ := by
  rw [origin, after_closed habove, after_of_not_mem hleft]
  simp [Nat.add_comm]

theorem before_after (position : Position) (text : Text) : position.before (position.after text) := by
  rw [before_iff]
  by_cases htext : '\n' ∈ text
  · left
    rw [line_after]
    have hcount := List.count_pos_iff.mpr htext
    omega
  · right
    rw [after_of_not_mem htext]
    exact ⟨rfl, Nat.le_add_right _ _⟩

theorem precedes_after {text : Text} (hne : text ≠ []) (position : Position) :
    position.Precedes (position.after text) := by
  rw [Precedes]
  by_cases htext : '\n' ∈ text
  · left
    rw [line_after]
    have hcount := List.count_pos_iff.mpr htext
    omega
  · right
    rw [after_of_not_mem htext]
    have hlength := mt Text.byteLength_eq_zero_iff.mp hne
    exact ⟨rfl, by simp only; omega⟩

/-- Of two places of one text, the one with the earlier position comes first. -/
theorem exists_append_of_before {position : Position} {front rest front' rest' : Text}
    (heq : front ++ rest = front' ++ rest')
    (hbefore : (position.after front).before (position.after front')) :
    ∃ between, front' = front ++ between ∧ rest = between ++ rest' := by
  rcases List.append_eq_append_iff.mp heq with ⟨between, hfront, hrest⟩ | ⟨between, hfront, hrest⟩
  · exact ⟨between, hfront, hrest⟩
  · have hempty : between = [] := by
      by_contra hne
      rw [hfront, after_append] at hbefore
      exact (precedes_after hne (position.after front')).not_before hbefore
    subst hempty
    exact ⟨[], by simpa using hfront.symm, by simpa using hrest.symm⟩

/-- Texts with equally many line feeds lead to one line, and to one position once a line feed follows. -/
theorem after_append_eq_of_feed {position : Position} {before before' behind : Text}
    (hcount : before.count '\n' = before'.count '\n') (hfeed : '\n' ∈ behind) :
    position.after (before ++ behind) = position.after (before' ++ behind) := by
  obtain ⟨above, left, hbehind, habove, hleft⟩ := Text.exists_closed behind
  cases above with
  | nil =>
      rw [Text.closed_nil, List.nil_append] at hbehind
      exact absurd (hbehind ▸ hfeed) hleft
  | cons first above =>
      have hfirst := habove first List.mem_cons_self
      have hline : (position.after before).line = (position.after before').line := by
        rw [line_after, line_after, hcount]
      have hread : ∀ start : Position, start.after behind =
          (⟨start.line + 1, 1⟩ : Position).after (Text.closed above ++ left) := by
        intro start
        rw [hbehind, Text.closed_cons, List.append_assoc, after_append, after_of_not_mem hfirst,
          List.cons_append, after_feed]
      rw [after_append, after_append, hread, hread, hline]

end Position

end PlainC
