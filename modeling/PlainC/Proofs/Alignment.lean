import PlainC.Proofs.BareAliases
import PlainC.Proofs.TagBodies

/-!
# Unfolding keeps lines aligned

Whatever an alias is, spelling it out keeps every character of the text but those of the alias in some of
its occurrences. If there is no line feed in the alias or in its spelling, then the lines of the result
stand against the lines of the text one by one, and a line differs only if the alias occurs in it, also
where an occurrence behind a tag keyword reaches over the end of a line.
-/

namespace PlainC

namespace Substitution

open Text

/-- An alias occurs between what was read last and the rest of a text. -/
def Stands (name : Text) (before : Option Char) (rest : Text) : Prop :=
  isBoundary before (name ++ rest).head? ∧ endsWord before name rest

/-- What spelling out an alias can do: keep a character, or put the spelling in place of the alias. -/
inductive Swaps (name canonical : Text) : (before : Option Char) → (text result : Text) → Prop
  | done {before : Option Char} : Swaps name canonical before [] []
  | keep {before : Option Char} {c : Char} {text result : Text} :
      Swaps name canonical (some c) text result → Swaps name canonical before (c :: text) (c :: result)
  | swap {before : Option Char} {rest result : Text} : Stands name before rest →
      Swaps name canonical (name.getLast?.or before) rest result →
      Swaps name canonical before (name ++ rest) (canonical ++ result)

section Swaps

variable {name canonical : Text} {before : Option Char}

/-- What was read last behind a text. -/
theorem getLast?_cons_or (c : Char) (text : Text) (before : Option Char) :
    (c :: text).getLast?.or before = text.getLast?.or (some c) := by
  rw [List.getLast?_cons]
  cases text.getLast? <;> rfl

theorem Swaps.keep_append {kept text result : Text}
    (hswaps : Swaps name canonical (kept.getLast?.or before) text result) :
    Swaps name canonical before (kept ++ text) (kept ++ result) := by
  induction kept generalizing before with
  | nil => exact hswaps
  | cons c kept ih =>
      rw [getLast?_cons_or] at hswaps
      exact (ih hswaps).keep

/-- An occurrence takes a tag keyword along, or it is the alias alone. -/
theorem occurrence?_cases {text : Text} {occurrence : Occurrence}
    (hoccurrence : occurrence? name before text = some occurrence) :
    (occurrence.isTag = true ∧ 0 < occurrence.length) ∨
      occurrence = ⟨name.length, false⟩ ∧ ∃ rest, text = name ++ rest ∧ Stands name before rest := by
  rw [occurrence?] at hoccurrence
  split at hoccurrence
  · rename_i hboundary
    split at hoccurrence
    · rename_i length htagged
      cases hoccurrence
      obtain ⟨keyword, blanks, rest, htag, rfl⟩ := exists_of_taggedAt? htagged
      have hpos := List.length_pos_iff.mpr htag.ne_nil
      left
      refine ⟨rfl, ?_⟩
      simp only [List.length_append]
      omega
    · split at hoccurrence
      · rename_i hfollows
        cases hoccurrence
        obtain ⟨rest, rfl, hends⟩ := aliasFollows_iff.mp hfollows
        exact .inr ⟨rfl, rest, rfl, hboundary, hends⟩
      · cases hoccurrence
  · cases hoccurrence

theorem swaps_replaceFrom (name canonical : Text) (before : Option Char) (skip : Nat) (touching : Bool)
    (text : Text) :
    Swaps name canonical ((text.take skip).getLast?.or before) (text.drop skip)
      (replaceFrom name canonical before skip touching text) := by
  fun_induction replaceFrom name canonical before skip touching text with
  | case1 skip before occurrence hoccurrence =>
      rw [List.drop_nil]
      exact .done
  | case2 skip before touching occurrence hoccurrence htouching =>
      rw [List.take_nil, List.drop_nil, Occurrence.replacement]
      rcases occurrence?_cases hoccurrence with ⟨htag, -⟩ | ⟨rfl, rest, hnil, hstands⟩
      · rw [if_pos htag, List.take_nil]
        exact .done
      · obtain ⟨rfl, rfl⟩ := List.append_eq_nil_iff.mp hnil.symm
        have hswap : Swaps [] canonical before ([] ++ []) (canonical ++ []) := .swap hstands .done
        rwa [List.append_nil, List.append_nil] at hswap
  | case3 skip before touching hnone =>
      rw [List.drop_nil]
      exact .done
  | case4 before touching skip c rest ih =>
      rw [List.take_succ_cons, List.drop_succ_cons, getLast?_cons_or]
      exact ih
  | case5 before touching c rest hnone ih => exact .keep ih
  | case6 before touching c rest occurrence hoccurrence hlength ih =>
      -- Only the empty alias has an occurrence of no length.
      rcases occurrence?_cases hoccurrence with ⟨-, hpos⟩ | ⟨rfl, behind, heq, hstands⟩
      · omega
      · obtain rfl : name = [] := List.length_eq_zero_iff.mp hlength
        rw [List.nil_append] at heq
        subst heq
        cases touching with
        | false => exact .swap hstands (.keep ih)
        | true => exact .keep ih
  | case7 before touching c rest occurrence hoccurrence n hlength ih =>
      rw [← getLast?_cons_or c _ before, ← List.take_succ_cons] at ih
      rw [Occurrence.replacement]
      rcases occurrence?_cases hoccurrence with ⟨htag, -⟩ | ⟨rfl, behind, heq, hstands⟩
      · have hkept := ih.keep_append
        rw [List.take_succ_cons, List.cons_append, List.take_append_drop] at hkept
        rw [if_pos htag, hlength]
        exact hkept
      · have hlength' : name.length = n + 1 := hlength
        rw [← List.drop_succ_cons (a := c), heq, ← hlength', List.take_left, List.drop_left] at ih
        rw [if_neg Bool.false_ne_true, List.drop_zero, heq]
        exact .swap hstands ih

theorem swaps_spellOut (name canonical code : Text) :
    Swaps name canonical none code (spellOut name canonical code) :=
  swaps_replaceFrom name canonical none 0 false code

end Swaps

/-! ### Line by line -/

/-- An alias does not occur in a line, what stands before it being known. -/
def FreeOf (name : Text) (before : Option Char) (line : Text) : Prop :=
  ∀ left right, line = left ++ (name ++ right) → ¬Stands name (left.getLast?.or before) right

section Lines

variable {name canonical : Text}

theorem lines_cons_feed (text : Text) : lines ('\n' :: text) = [] :: lines text :=
  split_cons_mark '\n' text

theorem lines_append {front rest line : Text} {others : List Text} (hfront : '\n' ∉ front)
    (hlines : lines rest = line :: others) : lines (front ++ rest) = (front ++ line) :: others := by
  induction front with
  | nil => exact hlines
  | cons c front ih =>
      simp only [List.mem_cons, not_or] at hfront
      exact split_cons_of_ne (Ne.symm hfront.1) (ih hfront.2)

/-- No word character follows at the end of a line. -/
theorem isWordAt_head?_of_lines {text line : Text} {others : List Text}
    (hlines : lines text = line :: others) : isWordAt line.head? = isWordAt text.head? := by
  cases text with
  | nil =>
      cases hlines
      rfl
  | cons c text =>
      by_cases hc : c = '\n'
      · subst hc
        rw [lines_cons_feed] at hlines
        cases hlines
        exact (by decide : isWordAt none = isWordAt (some '\n'))
      · obtain ⟨first, below, hcons⟩ := List.exists_cons_of_ne_nil (split_ne_nil '\n' text)
        rw [lines, split_cons_of_ne hc hcons] at hlines
        cases hlines
        rfl

/-- The lines of a text and of its result, one by one. A line without the alias is kept, and for the
first line it also matters what stands before it. -/
theorem Swaps.exists_lines {before : Option Char} {text result : Text} (hname : '\n' ∉ name)
    (hcanonical : '\n' ∉ canonical) (hswaps : Swaps name canonical before text result) :
    ∃ line others line' others', lines text = line :: others ∧ lines result = line' :: others' ∧
      (FreeOf name before line → line' = line) ∧
      List.Forall₂ (fun old new => FreeOf name (some '\n') old → new = old) others others' := by
  induction hswaps with
  | done => exact ⟨[], [], [], [], rfl, rfl, fun _ => rfl, .nil⟩
  | @keep before c text result hrest ih =>
      obtain ⟨line, others, line', others', hlines, hlines', hfirst, hothers⟩ := ih
      by_cases hc : c = '\n'
      · subst hc
        refine ⟨[], line :: others, [], line' :: others', ?_, ?_, fun _ => rfl, .cons hfirst hothers⟩
        · rw [lines_cons_feed, hlines]
        · rw [lines_cons_feed, hlines']
      · refine ⟨c :: line, others, c :: line', others', split_cons_of_ne hc hlines,
          split_cons_of_ne hc hlines', ?_, hothers⟩
        intro hfree
        rw [hfirst]
        rintro left right rfl hstands
        apply hfree (c :: left) right rfl
        rwa [getLast?_cons_or]
  | @swap before rest result hstands hrest ih =>
      obtain ⟨line, others, line', others', hlines, hlines', -, hothers⟩ := ih
      have hwhole := lines_append hname hlines
      refine ⟨name ++ line, others, canonical ++ line', others', hwhole,
        lines_append hcanonical hlines', ?_, hothers⟩
      -- The line ends where the text goes on with a line feed, so the alias stands in the line as well.
      intro hfree
      refine absurd ?_ (hfree [] line rfl)
      rw [Stands, isBoundary, endsWord, isBoundary] at hstands ⊢
      rwa [isWordAt_head?_of_lines hwhole, isWordAt_head?_of_lines hlines]

theorem freeOf_of_not_hasWord (hname : IsRun name) {line : Text} (hword : ¬HasWord name line)
    (before : Option Char) : FreeOf name before line := by
  rintro left right rfl ⟨hboundary, hends⟩
  apply hword
  refine ⟨left, right, (List.append_assoc left name right).symm, hname, ?_, ?_⟩
  · rw [isBoundary, hname.head_append] at hboundary
    cases hlast : left.getLast? with
    | none => rfl
    | some c =>
        rw [hlast, Option.some_or] at hboundary
        simpa using hboundary
  · have hends' : endsWord (left.getLast?.or before) ([] ++ name) right := hends
    exact (endsWord_run hname _ []).mp hends'

end Lines

end Substitution

open Substitution Text

namespace Unfolding

/-! ### A table of aliases -/

theorem length_lines_spellOut {name canonical : Text} (hname : '\n' ∉ name)
    (hcanonical : '\n' ∉ canonical) (code : Text) :
    (lines (spellOut name canonical code)).length = (lines code).length := by
  obtain ⟨line, others, line', others', hlines, hlines', -, hothers⟩ :=
    (swaps_spellOut name canonical code).exists_lines hname hcanonical
  rw [hlines, hlines', List.length_cons, List.length_cons, hothers.length_eq]

theorem line?_spellOut {name canonical code line : Text} {n : Nat} (hname : IsRun name)
    (hfeed : '\n' ∉ name) (hcanonical : '\n' ∉ canonical) (hword : ¬HasWord name line)
    (hline : (Source.ofText code).line? n = some line) :
    (Source.ofText (spellOut name canonical code)).line? n = some line := by
  obtain ⟨first, others, first', others', hlines, hlines', hfirst, hothers⟩ :=
    (swaps_spellOut name canonical code).exists_lines hfeed hcanonical
  have hfree := freeOf_of_not_hasWord hname hword
  cases n with
  | zero => cases hline
  | succ i =>
      rw [Source.line?, Source.ofText] at hline ⊢
      simp only [hlines] at hline
      simp only [hlines']
      cases i with
      | zero =>
          cases hline
          exact congrArg some (hfirst (hfree none))
      | succ k =>
          rw [List.getElem?_cons_succ] at hline ⊢
          obtain ⟨hk, rfl⟩ := List.getElem?_eq_some_iff.mp hline
          have hk' : k < others'.length := hothers.length_eq ▸ hk
          rw [List.getElem?_eq_getElem hk']
          exact congrArg some ((List.forall₂_iff_get.mp hothers).2 k hk hk' (hfree _))

theorem length_lines_spellEntries {entries : List (Text × Text)}
    (hfeeds : ∀ entry ∈ entries, '\n' ∉ entry.1 ∧ '\n' ∉ entry.2) (code : Text) :
    (lines (spellEntries entries code)).length = (lines code).length := by
  induction entries generalizing code with
  | nil => rfl
  | cons entry entries ih =>
      rw [List.forall_mem_cons] at hfeeds
      rw [spellEntries_cons, ih hfeeds.2, length_lines_spellOut hfeeds.1.1 hfeeds.1.2]

theorem line?_spellEntries {entries : List (Text × Text)} {code line : Text} {n : Nat}
    (hfeeds : ∀ entry ∈ entries, '\n' ∉ entry.1 ∧ '\n' ∉ entry.2)
    (hnames : ∀ entry ∈ entries, IsRun entry.1) (hwords : ∀ entry ∈ entries, ¬HasWord entry.1 line)
    (hline : (Source.ofText code).line? n = some line) :
    (Source.ofText (spellEntries entries code)).line? n = some line := by
  induction entries generalizing code with
  | nil => exact hline
  | cons entry entries ih =>
      rw [List.forall_mem_cons] at hfeeds hnames hwords
      rw [spellEntries_cons]
      apply ih hfeeds.2 hnames.2 hwords.2
      exact line?_spellOut hnames.1 hfeeds.1.1 hfeeds.1.2 hwords.1 hline

/-- Unfolding neither adds nor drops a line, and a line stays as it is, at its number, if no typedef that
is unfolded touches it and no alias stands in it as a word. -/
theorem unfold_keeps_lines_aligned (text : Text) (typedefs : List Typedef) (aliases : Aliases)
    (hfeeds : ∀ entry ∈ aliases.entries, '\n' ∉ entry.1 ∧ '\n' ∉ entry.2)
    (hinside : ∀ typedef ∈ typedefs, ∀ tag ∈ typedef.body,
      typedef.span.contains tag ∧ tag.first.line ≤ tag.last.line)
    (result : Text) (hunfold : unfold (.ofText text) typedefs aliases = .ok result) :
    (Source.ofText result).lineCount = (Source.ofText text).lineCount ∧
      ((∀ entry ∈ aliases.entries, IsRun entry.1) → ∀ n line,
        (Source.ofText text).line? n = some line →
        (∀ typedef ∈ typedefs, aliases.contains typedef.name → ¬typedef.span.Covers n) →
        (∀ entry ∈ aliases.entries, ¬HasWord entry.1 line) →
        (Source.ofText result).line? n = some line) := by
  obtain ⟨progress, hremove, rfl⟩ := exists_of_unfold hunfold
  have htrims := trims_of_removeDeclarations hinside hremove
  obtain ⟨edited, hedited⟩ := htrims.exists_ofText rfl
  rw [hedited] at htrims
  rw [hedited, Source.toText_ofText]
  constructor
  · rw [Source.lineCount, Source.lineCount, ← htrims.length]
    exact length_lines_spellEntries hfeeds edited
  · intro hnames n line hline huntouched hwords
    apply line?_spellEntries hfeeds hnames hwords
    rw [htrims.kept n, hline]
    rintro ⟨typedef, htypedef, hcontains, hcovers⟩
    exact huntouched typedef htypedef hcontains hcovers

/-- A structure with its declarator on a line of its own. -/
def twoLineTypedef : Typedef :=
  ⟨"P".toList, "struct P".toList, ⟨⟨1, 1⟩, ⟨2, 1⟩⟩, some ⟨⟨1, 9⟩, ⟨1, 25⟩⟩⟩

def structureAlias : Aliases := ⟨[("P".toList, "struct P".toList)], by decide⟩

/-- The tag on the fourth line belongs to the keyword on the third. -/
theorem unfold_keeps_lines_aligned_over_line_end :
    unfold (.ofText "typedef struct P \x7bint x;\x7d\nP;\nP a; union\nP b;\nPs c;".toList) [twoLineTypedef]
        structureAlias =
      .ok "struct P \x7bint x;\x7d\n;\nstruct P a; union\nP b;\nPs c;".toList ∧
    (Source.ofText "struct P \x7bint x;\x7d\n;\nstruct P a; union\nP b;\nPs c;".toList).line? 5 =
      some "Ps c;".toList := by
  have hunfold : unfold (.ofText "typedef struct P \x7bint x;\x7d\nP;\nP a; union\nP b;\nPs c;".toList)
      [twoLineTypedef] structureAlias =
        .ok "struct P \x7bint x;\x7d\n;\nstruct P a; union\nP b;\nPs c;".toList := by decide +kernel
  have hfeeds : ∀ entry ∈ structureAlias.entries, '\n' ∉ entry.1 ∧ '\n' ∉ entry.2 := by decide +kernel
  have hinside : ∀ typedef ∈ [twoLineTypedef], ∀ tag ∈ typedef.body,
      typedef.span.contains tag ∧ tag.first.line ≤ tag.last.line := by
    rintro typedef htypedef tag htag
    obtain rfl := List.mem_singleton.mp htypedef
    cases htag
    decide
  have haligned := unfold_keeps_lines_aligned _ _ _ hfeeds hinside _ hunfold
  refine ⟨hunfold, haligned.2 (by decide +kernel) 5 _ (by decide +kernel) ?_ (by decide +kernel)⟩
  intro typedef htypedef _
  obtain rfl := List.mem_singleton.mp htypedef
  decide

end Unfolding

end PlainC
