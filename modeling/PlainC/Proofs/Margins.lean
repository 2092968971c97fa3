import Mathlib.Data.List.DropRight
import PlainC.Text.Blank

/-!
# Blanks around a text

A text is a core with blanks on both sides. Trimming leaves the core, of which neither end is blank, and
there is only one such core. So texts that differ in the blanks around them are trimmed to the same.
-/

namespace PlainC

namespace Text

variable {text core : Text}

/-! ### At the start -/

theorem exists_blank_append_trimStart (text : Text) :
    ∃ gap, (∀ c ∈ gap, isBlank c) ∧ text = gap ++ trimStart text :=
  ⟨text.takeWhile isBlank, fun _ => List.mem_takeWhile_imp, List.takeWhile_append_dropWhile.symm⟩

theorem trimStart_blank_append {gap : Text} (hgap : ∀ c ∈ gap, isBlank c) (text : Text) :
    trimStart (gap ++ text) = trimStart text := List.dropWhile_append_of_pos hgap

/-- Whether something is left to trim shows in the first character. -/
theorem trimStart_eq_self_iff {text : Text} :
    trimStart text = text ↔ ∀ c, text.head? = some c → ¬isBlank c := by
  cases text with
  | nil => simp [trimStart]
  | cons c text => simp [trimStart, List.dropWhile_eq_self_iff]

theorem trimStart_trimStart (text : Text) : trimStart (trimStart text) = trimStart text :=
  List.dropWhile_idempotent isBlank text

/-! ### At the end -/

theorem trimEnd_eq_rdropWhile (text : Text) : trimEnd text = text.rdropWhile isBlank := rfl

theorem exists_trimEnd_append_blank (text : Text) :
    ∃ gap, (∀ c ∈ gap, isBlank c) ∧ text = trimEnd text ++ gap :=
  ⟨text.rtakeWhile isBlank, fun _ => List.mem_rtakeWhile_imp,
    List.rdropWhile_append_rtakeWhile.symm⟩

theorem trimEnd_append_blank {gap : Text} (hgap : ∀ c ∈ gap, isBlank c) (text : Text) :
    trimEnd (text ++ gap) = trimEnd text := by
  rw [trimEnd, List.reverse_append, List.dropWhile_append_of_pos, trimEnd]
  exact fun c hc => hgap c (List.mem_reverse.mp hc)

theorem trimEnd_eq_self_iff : trimEnd text = text ↔ ∀ c, text.getLast? = some c → ¬isBlank c := by
  rw [trimEnd_eq_rdropWhile, List.rdropWhile_eq_self_iff]
  constructor
  · intro h c hc
    obtain ⟨front, rfl⟩ := List.getLast?_eq_some_iff.mp hc
    simpa using h (by simp)
  · exact fun h hne => h _ (List.getLast?_eq_some_getLast hne)

theorem trimEnd_trimEnd (text : Text) : trimEnd (trimEnd text) = trimEnd text :=
  List.rdropWhile_idempotent isBlank text

/-! ### On both sides -/

/-- That a text neither begins nor ends with a blank. -/
def IsTrimmed (text : Text) : Prop :=
  (∀ c, text.head? = some c → ¬isBlank c) ∧ ∀ c, text.getLast? = some c → ¬isBlank c

/-- That a text is its core with blanks around it. -/
def Pads (text core : Text) : Prop :=
  ∃ left right, (∀ c ∈ left, isBlank c) ∧ (∀ c ∈ right, isBlank c) ∧ text = left ++ core ++ right

theorem pads_trim (text : Text) : text.Pads (trim text) := by
  obtain ⟨left, hleft, htext⟩ := exists_blank_append_trimStart text
  obtain ⟨right, hright, hstart⟩ := exists_trimEnd_append_blank (trimStart text)
  refine ⟨left, right, hleft, hright, ?_⟩
  rw [List.append_assoc, trim, ← hstart, ← htext]

theorem Pads.trim_eq (h : text.Pads core) : trim text = trim core := by
  obtain ⟨left, right, hleft, hright, rfl⟩ := h
  rw [trim, List.append_assoc, trimStart_blank_append hleft, trimStart, List.dropWhile_append]
  split <;> rename_i hempty
  · -- There is nothing but blanks.
    rw [List.dropWhile_eq_nil_iff.mpr hright, trim, trimStart, List.isEmpty_iff.mp hempty]
  · exact trimEnd_append_blank hright _

theorem isTrimmed_trim (text : Text) : (trim text).IsTrimmed := by
  constructor
  · intro c hc
    obtain ⟨gap, -, hstart⟩ := exists_trimEnd_append_blank (trimStart text)
    apply trimStart_eq_self_iff.mp (trimStart_trimStart text)
    rw [hstart, List.head?_append]
    exact Option.or_eq_some_iff.mpr (.inl hc)
  · exact trimEnd_eq_self_iff.mp (trimEnd_trimEnd (trimStart text))

theorem isTrimmed_iff : text.IsTrimmed ↔ trim text = text := by
  constructor
  · rintro ⟨hstart, hend⟩
    rw [trim, trimStart_eq_self_iff.mpr hstart, trimEnd_eq_self_iff.mpr hend]
  · intro h
    rw [← h]
    exact isTrimmed_trim text

/-- The core that is left is the only one without blanks at its ends. -/
theorem trim_eq_iff : trim text = core ↔ text.Pads core ∧ core.IsTrimmed := by
  constructor
  · rintro rfl
    exact ⟨pads_trim text, isTrimmed_trim text⟩
  · rintro ⟨hpads, htrimmed⟩
    rw [hpads.trim_eq, isTrimmed_iff.mp htrimmed]

theorem trim_eq_nil_iff : trim text = [] ↔ ∀ c ∈ text, isBlank c := by
  constructor
  · intro h c hc
    obtain ⟨left, right, hleft, hright, htext⟩ := pads_trim text
    rw [htext, h, List.append_nil, List.mem_append] at hc
    exact hc.elim (hleft c) (hright c)
  · intro h
    have hpads : text.Pads [] := ⟨text, [], h, by simp, by simp⟩
    exact hpads.trim_eq

end Text

end PlainC
