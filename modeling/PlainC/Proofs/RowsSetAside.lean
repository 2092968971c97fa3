import PlainC.Expansion
import Mathlib.Data.List.Basic

/-!
# Rows that are dropped and rows that are set aside

Before a file is expanded, its guards against C++ are dropped and the rows that include files are set
aside. A guard is a block from its opener to the first end of a condition behind it; an opener stays only
if no such end follows it at all. Nothing follows such an opener later on that could close it, so to drop
guards twice is to drop them once. The rows set aside, put back in their order, give the rows as they were.
-/

namespace PlainC

namespace Expansion

/-! ### Guards -/

/-- What is left of rows without their guards: blocks apart from each other go, and an opener stays if
nothing behind it closes a guard. -/
inductive Unguarded : List Text → List Text → Prop where
  | nil : Unguarded [] []
  | keep {row : Text} {rows kept : List Text} : (opensGuard row → ∀ later ∈ rows, ¬closesGuard later) →
      Unguarded rows kept → Unguarded (row :: rows) (row :: kept)
  | block {opener closer : Text} {inside rows kept : List Text} : opensGuard opener →
      (∀ row ∈ inside, ¬closesGuard row) → closesGuard closer → Unguarded rows kept →
      Unguarded (opener :: (inside ++ closer :: rows)) kept

theorem exists_block_of_findIdx? {rows : List Text} {n : Nat}
    (hfind : rows.findIdx? closesGuard = some n) :
    ∃ inside closer, rows = inside ++ closer :: rows.drop (n + 1) ∧
      (∀ row ∈ inside, ¬closesGuard row) ∧ closesGuard closer := by
  obtain ⟨hlt, hcloses, hfirst⟩ := List.findIdx?_eq_some_iff_getElem.mp hfind
  refine ⟨rows.take n, rows[n], ?_, ?_, hcloses⟩
  · rw [← List.drop_eq_getElem_cons hlt, List.take_append_drop]
  · intro row hrow
    obtain ⟨i, hi, rfl⟩ := List.mem_take_iff_getElem.mp hrow
    exact hfirst i (by omega)

theorem unguarded_dropGuardsFrom (skip : Nat) (rows : List Text) :
    Unguarded (rows.drop skip) (dropGuardsFrom skip rows) := by
  fun_induction dropGuardsFrom skip rows with
  | case1 skip =>
      rw [List.drop_nil]
      exact .nil
  | case2 skip row rows ih => exact ih
  | case3 row rows hopens n hfind ih =>
      obtain ⟨inside, closer, hrows, hinside, hcloses⟩ := exists_block_of_findIdx? hfind
      have hblock := Unguarded.block hopens hinside hcloses ih
      rwa [← hrows] at hblock
  | case4 row rows hopens hfind ih =>
      refine .keep (fun _ later hlater hcloses => ?_) ih
      have hnone := List.findIdx?_eq_none_iff.mp hfind later hlater
      rw [hcloses] at hnone
      cases hnone
  | case5 row rows hopens ih => exact .keep (fun hopens' => absurd hopens' hopens) ih

theorem Unguarded.sublist {rows kept : List Text} (h : Unguarded rows kept) : kept.Sublist rows := by
  induction h with
  | nil => exact .slnil
  | keep _ _ ih => exact ih.cons_cons _
  | @block _ closer inside _ _ _ _ _ _ ih =>
      exact ((ih.cons closer).trans (List.sublist_append_right inside _)).cons _

/-- No opener that stays is closed. -/
theorem Unguarded.pairwise {rows kept : List Text} (h : Unguarded rows kept) :
    kept.Pairwise fun row later => opensGuard row → ¬closesGuard later := by
  induction h with
  | nil => exact .nil
  | keep hopen hrest ih =>
      refine List.pairwise_cons.mpr ⟨fun later hlater hopens => ?_, ih⟩
      exact hopen hopens later (hrest.sublist.subset hlater)
  | block _ _ _ _ ih => exact ih

theorem dropGuards_eq_self {rows : List Text}
    (h : rows.Pairwise fun row later => opensGuard row → ¬closesGuard later) :
    dropGuards rows = rows := by
  rw [dropGuards]
  induction rows with
  | nil => rfl
  | cons row rows ih =>
      obtain ⟨hrow, hrows⟩ := List.pairwise_cons.mp h
      rw [dropGuardsFrom]
      split
      · rename_i hopens
        have hnone : rows.findIdx? closesGuard = none := by
          rw [List.findIdx?_eq_none_iff]
          exact fun later hlater => Bool.of_not_eq_true (hrow later hlater hopens)
        rw [hnone, ih hrows]
      · rw [ih hrows]

/-! ### Includes -/

/-- Rows with others put in the place of those that are marked, in order. -/
def putBack : (marks : List Bool) → (aside rows : List Text) → List Text
  | true :: marks, row :: aside, _ :: rows => row :: putBack marks aside rows
  | false :: marks, aside, row :: rows => row :: putBack marks aside rows
  | _, _, rows => rows

theorem putBack_setIncludesAside (rows : List Text) :
    putBack (rows.map isInclude) (setIncludesAside rows).2 (setIncludesAside rows).1 = rows := by
  induction rows with
  | nil => rfl
  | cons row rows ih =>
      rw [setIncludesAside] at ih ⊢
      cases hrow : isInclude row with
      | true =>
          rw [List.map_cons, List.map_cons, List.filter_cons_of_pos hrow, hrow, putBack, ih]
      | false =>
          rw [List.map_cons, List.map_cons, List.filter_cons_of_neg (by simp [hrow]), hrow, putBack,
            if_neg Bool.false_ne_true, ih]

theorem getElem?_setIncludesAside (rows : List Text) (n : Nat) :
    (setIncludesAside rows).1[n]? = rows[n]?.map fun row => if isInclude row then [] else row := by
  rw [setIncludesAside, List.getElem?_map]

theorem not_isInclude_of_mem_setIncludesAside {rows : List Text} {row : Text}
    (hrow : row ∈ (setIncludesAside rows).1) : ¬isInclude row := by
  obtain ⟨old, -, rfl⟩ := List.mem_map.mp hrow
  split
  · decide
  · assumption

/-- To drop guards is to take blocks out, so that no opener is left with an end behind it and dropping them
again changes nothing. To set includes aside keeps the number of rows and the rows that include nothing,
and leaves no include; the rows set aside go back to where they were. -/
theorem guards_and_includes_lose_nothing_else (rows : List Text) :
    Unguarded rows (dropGuards rows) ∧
      (dropGuards rows).Pairwise (fun row later => opensGuard row → ¬closesGuard later) ∧
      dropGuards (dropGuards rows) = dropGuards rows ∧
      (setIncludesAside rows).1.length = rows.length ∧
      (∀ row ∈ (setIncludesAside rows).1, ¬isInclude row) ∧
      (∀ (n : Nat) (row : Text), rows[n]? = some row →
        (setIncludesAside rows).1[n]? = some (if isInclude row then [] else row)) ∧
      (setIncludesAside rows).2 = rows.filter isInclude ∧
      putBack (rows.map isInclude) (setIncludesAside rows).2 (setIncludesAside rows).1 = rows := by
  have hunguarded : Unguarded rows (dropGuards rows) := unguarded_dropGuardsFrom 0 rows
  refine ⟨hunguarded, hunguarded.pairwise, dropGuards_eq_self hunguarded.pairwise, List.length_map _,
    fun row => not_isInclude_of_mem_setIncludesAside, fun n row hrow => ?_, rfl,
    putBack_setIncludesAside rows⟩
  rw [getElem?_setIncludesAside, hrow, Option.map_some]

-- An opener inside a guard goes with it, and one that nothing closes stays.
example :
    dropGuards (["#ifdef __cplusplus", "#ifdef __cplusplus", "  #endif // C++", "#endif",
      "#ifdef __cplusplus"].map String.toList) = ["#endif", "#ifdef __cplusplus"].map String.toList := by
  decide +kernel

end Expansion

end PlainC
