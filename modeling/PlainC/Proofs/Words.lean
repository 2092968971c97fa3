import PlainC.Typedef.Substitution
import Mathlib.Data.List.SplitBy
import Mathlib.Data.List.TakeWhile

/-!
# Words of a text

A text is made of words, which are its longest runs of word characters, and of the single characters
between them. What a text says about its words is shown by going through these pieces. A word names a
tag if a tag keyword and white space stand directly before it, and it is bare otherwise; whether the next
word will be bare depends only on what was read last, its lead.
-/

namespace PlainC

theorem isWord_of_isBlank {c : Char} (hc : isBlank c) : isWord c = false := by
  have hcodes : ∀ n ∈ [9, 10, 11, 12, 13, 0x20, 0x85, 0xA0, 0x1680, 0x2000, 0x2001, 0x2002, 0x2003,
      0x2004, 0x2005, 0x2006, 0x2007, 0x2008, 0x2009, 0x200A, 0x2028, 0x2029, 0x202F, 0x205F, 0x3000],
      isWord (Char.ofNat n) = false := by decide +kernel
  rw [← Char.ofNat_toNat c]
  apply hcodes
  simp only [isBlank, Bool.or_eq_true, Bool.and_eq_true, decide_eq_true_eq] at hc
  simp only [List.mem_cons, List.not_mem_nil, or_false]
  omega

namespace Text

/-- A run of word characters. -/
def IsRun (text : Text) : Prop := text ≠ [] ∧ ∀ c ∈ text, isWord c

instance (text : Text) : Decidable (IsRun text) :=
  decidable_of_iff (text ≠ [] ∧ text.all isWord) (by rw [IsRun, List.all_eq_true])

/-- The longest runs of word characters of a text, and every other character by itself. -/
def pieces (text : Text) : List Text := text.splitBy fun a b => isWord a && isWord b

@[simp]
theorem pieces_nil : pieces [] = [] := rfl

section Runs

variable {word rest : Text}

theorem IsRun.head (hword : IsRun word) : isWordAt word.head? = true := by
  obtain ⟨c, others, rfl⟩ := List.exists_cons_of_ne_nil hword.1
  exact hword.2 c List.mem_cons_self

theorem IsRun.last (hword : IsRun word) : isWordAt word.getLast? = true := by
  rw [List.getLast?_eq_some_getLast hword.1]
  exact hword.2 _ (List.getLast_mem hword.1)

theorem IsRun.head_append (hword : IsRun word) (rest : Text) :
    isWordAt (word ++ rest).head? = true := by
  rw [List.head?_append_of_ne_nil _ hword.1, hword.head]

theorem not_isRun_singleton {c : Char} (hc : isWord c = false) : ¬IsRun [c] := by
  intro hrun
  rw [hrun.2 c List.mem_cons_self] at hc
  cases hc

theorem IsRun.not_blank (hword : IsRun word) : word.all isBlank = false := by
  obtain ⟨c, others, rfl⟩ := List.exists_cons_of_ne_nil hword.1
  have hc : isBlank c = false := by
    by_contra hblank
    have hnone := isWord_of_isBlank (Bool.of_not_eq_false hblank)
    rw [hword.2 c List.mem_cons_self] at hnone
    cases hnone
  rw [List.all_cons, hc, Bool.false_and]

/-- A word is what is taken from the text for as long as there are word characters. -/
theorem IsRun.takeWhile_append (hword : IsRun word) (hrest : isWordAt rest.head? = false) :
    (word ++ rest).takeWhile isWord = word := by
  rw [List.takeWhile_append_of_pos hword.2]
  cases rest with
  | nil => simp
  | cons c rest =>
      have hc : isWord c = false := hrest
      rw [List.takeWhile_cons_of_neg (by simp [hc]), List.append_nil]

/-- A text begins with one word at most. -/
theorem IsRun.append_inj {word' rest' : Text} (hword : IsRun word) (hword' : IsRun word')
    (hrest : isWordAt rest.head? = false) (hrest' : isWordAt rest'.head? = false)
    (heq : word ++ rest = word' ++ rest') : word = word' ∧ rest = rest' := by
  have htake := congrArg (List.takeWhile isWord) heq
  rw [hword.takeWhile_append hrest, hword'.takeWhile_append hrest'] at htake
  subst htake
  exact ⟨rfl, List.append_cancel_left heq⟩

end Runs

/-! ### The pieces of a text -/

theorem pieces_append {before after : Text}
    (hapart : isWordAt before.getLast? = false ∨ isWordAt after.head? = false) :
    pieces (before ++ after) = pieces before ++ pieces after := by
  apply List.splitBy_append
  intro x hx y hy
  rw [Option.mem_def] at hx hy
  rw [hx, hy] at hapart
  rcases hapart with hx' | hy'
  · rw [show isWord x = false from hx', Bool.false_and]
  · rw [show isWord y = false from hy', Bool.and_false]

theorem pieces_gap {c : Char} (hc : isWord c = false) (rest : Text) :
    pieces (c :: rest) = [c] :: pieces rest := by
  have hapart : isWordAt [c].getLast? = false := hc
  exact pieces_append (.inl hapart)

theorem pieces_run {word rest : Text} (hword : IsRun word) (hrest : isWordAt rest.head? = false) :
    pieces (word ++ rest) = word :: pieces rest := by
  have hchain : word.IsChain fun a b => isWord a && isWord b := by
    apply List.Pairwise.isChain
    apply List.pairwise_of_forall_mem_list
    intro a ha b hb
    rw [hword.2 a ha, hword.2 b hb, Bool.and_self]
  rw [pieces_append (.inr hrest), pieces, List.splitBy_of_isChain hword.1 hchain]
  rfl

/-- A text is empty, or begins with a character that stands in no word, or begins with a word. -/
theorem exists_first_piece (text : Text) :
    text = [] ∨ (∃ c rest, text = c :: rest ∧ isWord c = false) ∨
      ∃ word rest, text = word ++ rest ∧ IsRun word ∧ isWordAt rest.head? = false := by
  cases text with
  | nil => exact .inl rfl
  | cons c rest =>
      right
      by_cases hc : isWord c = true
      · right
        refine ⟨(c :: rest).takeWhile isWord, (c :: rest).dropWhile isWord,
          List.takeWhile_append_dropWhile.symm, ⟨by simp [hc], fun d hd => List.mem_takeWhile_imp hd⟩, ?_⟩
        have hstop := List.head?_dropWhile_not isWord (c :: rest)
        cases hhead : ((c :: rest).dropWhile isWord).head? with
        | none => rfl
        | some d =>
            rw [hhead] at hstop
            exact hstop
      · exact .inl ⟨c, rest, rfl, Bool.of_not_eq_true hc⟩

/-- Induction over the pieces of a text. -/
@[elab_as_elim]
theorem pieces_induction {motive : Text → Prop} (nil : motive [])
    (gap : ∀ c rest, isWord c = false → motive rest → motive (c :: rest))
    (run : ∀ word rest, IsRun word → isWordAt rest.head? = false → motive rest →
      motive (word ++ rest)) (text : Text) : motive text := by
  induction hlength : text.length using Nat.strong_induction_on generalizing text with
  | _ n ih =>
      subst hlength
      rcases exists_first_piece text with rfl | ⟨c, rest, rfl, hc⟩ | ⟨word, rest, rfl, hword, hrest⟩
      · exact nil
      · exact gap c rest hc (ih rest.length (Nat.lt_succ_self _) rest rfl)
      · refine run word rest hword hrest (ih rest.length ?_ rest rfl)
        rw [List.length_append]
        exact Nat.lt_add_of_pos_left (List.length_pos_iff.mpr hword.1)

/-! ### Whole words -/

/-- A word that stands between two texts as a whole. -/
structure Whole (before word after : Text) : Prop where
  run : IsRun word
  left : isWordAt before.getLast? = false
  right : isWordAt after.head? = false

/-- A text holds a word as a whole. -/
def HasWord (word text : Text) : Prop :=
  ∃ before after, text = before ++ word ++ after ∧ Whole before word after

theorem isWordAt_head?_of_append {before after : Text}
    (h : isWordAt (before ++ after).head? = false) : isWordAt before.head? = false := by
  cases before with
  | nil => rfl
  | cons c before => exact h

theorem isWordAt_getLast?_gap {c : Char} (hc : isWord c = false) (text : Text) :
    isWordAt (c :: text).getLast? = isWordAt text.getLast? := by
  cases text with
  | nil => exact hc
  | cons d text => rw [List.getLast?_cons_cons]

/-- What ends in no word character ends before a word begins or somewhere behind it. -/
theorem append_eq_run_append {before after word rest : Text} (hword : IsRun word)
    (hbefore : isWordAt before.getLast? = false) (heq : before ++ after = word ++ rest) :
    before = [] ∨ ∃ behind, behind ≠ [] ∧ before = word ++ behind ∧ rest = behind ++ after := by
  rcases List.append_eq_append_iff.mp heq with ⟨inside, hinside, -⟩ | ⟨behind, hbehind, hrest⟩
  · left
    by_contra hne
    have hlast := hword.2 (before.getLast hne) (by rw [hinside]; simp)
    rw [List.getLast?_eq_some_getLast hne] at hbefore
    rw [show isWord (before.getLast hne) = false from hbefore] at hlast
    cases hlast
  · right
    refine ⟨behind, ?_, hbehind, hrest⟩
    rintro rfl
    rw [hbehind, List.append_nil, hword.last] at hbefore
    cases hbefore

section Whole

variable {P : Text → Prop} {word rest : Text}

theorem exists_whole_gap {c : Char} (hc : isWord c = false) :
    (∃ before after, c :: rest = before ++ word ++ after ∧ Whole before word after ∧ P before) ↔
      ∃ before after, rest = before ++ word ++ after ∧ Whole before word after ∧ P (c :: before) := by
  constructor
  · rintro ⟨before, after, heq, hwhole, hP⟩
    cases before with
    | nil =>
        have hhead := hwhole.run.head_append after
        rw [List.nil_append] at heq
        rw [← heq] at hhead
        cases hc.symm.trans hhead
    | cons d before =>
        obtain ⟨rfl, rfl⟩ := List.cons.inj heq
        exact ⟨before, after, rfl,
          ⟨hwhole.run, isWordAt_getLast?_gap hc before ▸ hwhole.left, hwhole.right⟩, hP⟩
  · rintro ⟨before, after, rfl, hwhole, hP⟩
    exact ⟨c :: before, after, rfl,
      ⟨hwhole.run, (isWordAt_getLast?_gap hc before).trans hwhole.left, hwhole.right⟩, hP⟩

/-- A word of a text is the one that it begins with or stands behind that. -/
theorem exists_whole_run {first : Text} (hfirst : IsRun first) (hrest : isWordAt rest.head? = false) :
    (∃ before after, first ++ rest = before ++ word ++ after ∧ Whole before word after ∧ P before) ↔
      (word = first ∧ P []) ∨ ∃ before after, rest = before ++ word ++ after ∧
        Whole before word after ∧ P (first ++ before) := by
  constructor
  · rintro ⟨before, after, heq, hwhole, hP⟩
    rw [List.append_assoc] at heq
    rcases append_eq_run_append hfirst hwhole.left heq.symm with rfl | ⟨behind, hne, rfl, rfl⟩
    · obtain ⟨rfl, -⟩ := hfirst.append_inj hwhole.run hrest hwhole.right heq
      exact .inl ⟨rfl, hP⟩
    · refine .inr ⟨behind, after, by simp, ⟨hwhole.run, ?_, hwhole.right⟩, hP⟩
      rw [← List.getLast?_append_of_ne_nil first hne]
      exact hwhole.left
  · rintro (⟨rfl, hP⟩ | ⟨before, after, rfl, hwhole, hP⟩)
    · exact ⟨[], rest, by simp, ⟨hfirst, rfl, hrest⟩, hP⟩
    · have hne : before ≠ [] := by
        rintro rfl
        rw [List.nil_append, hwhole.run.head_append] at hrest
        cases hrest
      refine ⟨first ++ before, after, by simp, ⟨hwhole.run, ?_, hwhole.right⟩, hP⟩
      rw [List.getLast?_append_of_ne_nil first hne]
      exact hwhole.left

end Whole

theorem hasWord_gap {word rest : Text} {c : Char} (hc : isWord c = false) :
    HasWord word (c :: rest) ↔ HasWord word rest := by
  simpa [HasWord] using exists_whole_gap (P := fun _ => True) hc

theorem hasWord_run {word first rest : Text} (hfirst : IsRun first)
    (hrest : isWordAt rest.head? = false) :
    HasWord word (first ++ rest) ↔ word = first ∨ HasWord word rest := by
  simpa [HasWord] using exists_whole_run (P := fun _ => True) hfirst hrest

theorem hasWord_iff {word text : Text} : HasWord word text ↔ IsRun word ∧ word ∈ pieces text := by
  induction text using pieces_induction with
  | nil =>
      constructor
      · rintro ⟨before, after, heq, hwhole⟩
        have hnil := (List.append_eq_nil_iff.mp heq.symm).1
        exact absurd (List.append_eq_nil_iff.mp hnil).2 hwhole.run.1
      · rintro ⟨-, hmem⟩
        cases hmem
  | gap c rest hc ih =>
      rw [hasWord_gap hc, ih, pieces_gap hc, List.mem_cons]
      constructor
      · rintro ⟨hword, hmem⟩
        exact ⟨hword, .inr hmem⟩
      · rintro ⟨hword, rfl | hmem⟩
        · exact absurd hword (not_isRun_singleton hc)
        · exact ⟨hword, hmem⟩
  | run first rest hfirst hrest ih =>
      rw [hasWord_run hfirst hrest, ih, pieces_run hfirst hrest, List.mem_cons]
      constructor
      · rintro (rfl | ⟨hword, hmem⟩)
        · exact ⟨hfirst, .inl rfl⟩
        · exact ⟨hword, .inr hmem⟩
      · rintro ⟨hword, rfl | hmem⟩
        · exact .inl rfl
        · exact .inr ⟨hword, hmem⟩

instance (word text : Text) : Decidable (HasWord word text) := decidable_of_iff _ hasWord_iff.symm

end Text

namespace Substitution

open Text

theorem isRun_of_mem_tagKeywords {keyword : Text} (hkeyword : keyword ∈ tagKeywords) :
    IsRun keyword := by
  have hall : ∀ keyword ∈ tagKeywords, IsRun keyword := by decide +kernel
  exact hall keyword hkeyword

/-! ### What stands before a word -/

/-- What was read last: a tag keyword, such a keyword and white space behind it, or neither. -/
inductive Lead where
  | other
  | keyword
  | tag
  deriving DecidableEq

namespace Lead

def next (lead : Lead) (piece : Text) : Lead :=
  if piece ∈ tagKeywords then .keyword
  else if piece.all isBlank ∧ lead ≠ .other then .tag
  else .other

/-- The lead behind a text. -/
def after (lead : Lead) (text : Text) : Lead := (pieces text).foldl next lead

@[simp]
theorem after_nil (lead : Lead) : lead.after [] = lead := rfl

theorem after_append {before behind : Text}
    (hapart : isWordAt before.getLast? = false ∨ isWordAt behind.head? = false) (lead : Lead) :
    lead.after (before ++ behind) = (lead.after before).after behind := by
  rw [after, pieces_append hapart, List.foldl_append]
  rfl

theorem after_gap {c : Char} (hc : isWord c = false) (rest : Text) (lead : Lead) :
    lead.after (c :: rest) = (lead.next [c]).after rest := by
  rw [after, pieces_gap hc]
  rfl

theorem after_run {word rest : Text} (hword : IsRun word) (hrest : isWordAt rest.head? = false)
    (lead : Lead) : lead.after (word ++ rest) = (lead.next word).after rest := by
  rw [after, pieces_run hword hrest]
  rfl

theorem after_singleton {c : Char} (hc : isWord c = false) (lead : Lead) :
    lead.after [c] = lead.next [c] := after_gap hc [] lead

theorem after_word {word : Text} (hword : IsRun word) (lead : Lead) :
    lead.after word = lead.next word := by
  have hrun := after_run hword (rfl : isWordAt ([] : Text).head? = false) lead
  rwa [List.append_nil, after_nil] at hrun

theorem next_gap {c : Char} (hc : isWord c = false) (lead : Lead) :
    lead.next [c] = if isBlank c ∧ lead ≠ .other then .tag else .other := by
  have hword : [c] ∉ tagKeywords := fun hmem => not_isRun_singleton hc (isRun_of_mem_tagKeywords hmem)
  rw [next, if_neg hword]
  simp only [List.all_cons, List.all_nil, Bool.and_true]

theorem other_next_gap {c : Char} (hc : isWord c = false) : Lead.other.next [c] = .other := by
  rw [next_gap hc, if_neg fun h => h.2 rfl]

theorem next_run {word : Text} (hword : IsRun word) (lead : Lead) :
    lead.next word = if word ∈ tagKeywords then .keyword else .other := by
  rw [next, hword.not_blank]
  simp only [Bool.false_eq_true, false_and, if_false]

end Lead

/-- A tag keyword and white space stand at the end of a text. -/
def FollowsTag (before : Text) : Prop :=
  ∃ front keyword blanks, before = front ++ keyword ++ blanks ∧ isWordAt front.getLast? = false ∧
    keyword ∈ tagKeywords ∧ blanks ≠ [] ∧ ∀ c ∈ blanks, isBlank c

theorem isWordAt_head?_of_blank {blanks : Text} (hblanks : ∀ c ∈ blanks, isBlank c) :
    isWordAt blanks.head? = false := by
  cases blanks with
  | nil => rfl
  | cons c blanks => exact isWord_of_isBlank (hblanks c List.mem_cons_self)

theorem followsTag_gap {c : Char} (hc : isWord c = false) (rest : Text) :
    FollowsTag (c :: rest) ↔ FollowsTag rest := by
  constructor
  · rintro ⟨front, keyword, blanks, heq, hfront, hkeyword, hblanks⟩
    cases front with
    | nil =>
        have hhead := (isRun_of_mem_tagKeywords hkeyword).head_append blanks
        rw [List.nil_append] at heq
        rw [← heq] at hhead
        cases hc.symm.trans hhead
    | cons d front =>
        obtain ⟨rfl, rfl⟩ := List.cons.inj heq
        rw [isWordAt_getLast?_gap hc] at hfront
        exact ⟨front, keyword, blanks, rfl, hfront, hkeyword, hblanks⟩
  · rintro ⟨front, keyword, blanks, rfl, hfront, hkeyword, hblanks⟩
    exact ⟨c :: front, keyword, blanks, rfl, (isWordAt_getLast?_gap hc front).trans hfront, hkeyword,
      hblanks⟩

theorem followsTag_run {word rest : Text} (hword : IsRun word) (hrest : isWordAt rest.head? = false) :
    FollowsTag (word ++ rest) ↔
      FollowsTag rest ∨ word ∈ tagKeywords ∧ rest ≠ [] ∧ ∀ c ∈ rest, isBlank c := by
  constructor
  · rintro ⟨front, keyword, blanks, heq, hfront, hkeyword, hblanks⟩
    rw [List.append_assoc] at heq
    rcases append_eq_run_append hword hfront heq.symm with rfl | ⟨behind, hne, rfl, rfl⟩
    · obtain ⟨rfl, rfl⟩ := hword.append_inj (isRun_of_mem_tagKeywords hkeyword) hrest
        (isWordAt_head?_of_blank hblanks.2) heq
      exact .inr ⟨hkeyword, hblanks⟩
    · rw [List.getLast?_append_of_ne_nil word hne] at hfront
      exact .inl ⟨behind, keyword, blanks, by simp, hfront, hkeyword, hblanks⟩
  · rintro (⟨front, keyword, blanks, rfl, hfront, hkeyword, hblanks⟩ | ⟨hkeyword, hblanks⟩)
    · have hne : front ≠ [] := by
        rintro rfl
        rw [List.nil_append, (isRun_of_mem_tagKeywords hkeyword).head_append] at hrest
        cases hrest
      refine ⟨word ++ front, keyword, blanks, by simp, ?_, hkeyword, hblanks⟩
      rw [List.getLast?_append_of_ne_nil word hne]
      exact hfront
    · exact ⟨[], word, rest, by simp, rfl, hkeyword, hblanks⟩

/-- A word behind a text names a tag if the text ends in a keyword and white space, or is white space
that comes behind a keyword. -/
theorem Lead.after_eq_tag_iff {lead : Lead} {text : Text} :
    lead.after text = .tag ↔ FollowsTag text ∨
      (∀ c ∈ text, isBlank c) ∧ (lead = .tag ∨ lead ≠ .other ∧ text ≠ []) := by
  induction text using pieces_induction generalizing lead with
  | nil => simp [FollowsTag, tagKeywords]
  | gap c rest hc ih =>
      rw [after_gap hc, ih, followsTag_gap hc, next_gap hc, List.forall_mem_cons]
      by_cases hnext : isBlank c ∧ lead ≠ .other
      · simp [hnext]
      · rw [if_neg hnext]
        have hlead : ¬(isBlank c = true ∧ (lead = .tag ∨ lead ≠ .other)) := by
          rintro ⟨hblank, rfl | hne⟩
          · exact hnext ⟨hblank, by simp⟩
          · exact hnext ⟨hblank, hne⟩
        simp only [reduceCtorEq, ne_eq, not_true_eq_false, false_and, and_false, or_false,
          not_false_eq_true, and_true]
        tauto
  | run word rest hword hrest ih =>
      have hblank : ¬∀ c ∈ word ++ rest, isBlank c := by
        intro hall
        have hnone := hword.not_blank
        rw [List.all_eq_true.mpr fun c hc => hall c (List.mem_append_left rest hc)] at hnone
        cases hnone
      rw [after_run hword hrest, ih, followsTag_run hword hrest, next_run hword]
      simp only [hblank, false_and, or_false]
      by_cases hkeyword : word ∈ tagKeywords
      · simp [hkeyword, and_comm]
      · simp [hkeyword]

theorem followsTag_iff {text : Text} : FollowsTag text ↔ Lead.other.after text = .tag := by
  simp [Lead.after_eq_tag_iff]

instance (text : Text) : Decidable (FollowsTag text) := decidable_of_iff _ followsTag_iff.symm

/-- A tag keyword stands at the end of a text, possibly with white space behind it. -/
def EndsInTag (text : Text) : Prop :=
  ∃ front keyword blanks, text = front ++ keyword ++ blanks ∧ isWordAt front.getLast? = false ∧
    keyword ∈ tagKeywords ∧ ∀ c ∈ blanks, isBlank c

/-- A text ends in a tag keyword if a space behind it would make the next word a tag. -/
theorem endsInTag_iff {text : Text} : EndsInTag text ↔ Lead.other.after text ≠ .other := by
  have hspace : isWordAt [' '].head? = false := by decide
  have hafter : Lead.other.after (text ++ [' ']) = .tag ↔ Lead.other.after text ≠ .other := by
    rw [Lead.after_append (.inr hspace), Lead.after_gap hspace, Lead.next_gap hspace]
    by_cases hother : Lead.other.after text = .other
    · simp [hother]
    · simp [hother, show isBlank ' ' = true by decide]
  rw [← hafter, ← followsTag_iff]
  constructor
  · rintro ⟨front, keyword, blanks, rfl, hfront, hkeyword, hblanks⟩
    refine ⟨front, keyword, blanks ++ [' '], by simp, hfront, hkeyword, by simp, ?_⟩
    rw [List.forall_mem_append]
    exact ⟨hblanks, List.forall_mem_singleton.mpr (by decide)⟩
  · rintro ⟨front, keyword, blanks, heq, hfront, hkeyword, hne, hblanks⟩
    obtain ⟨others, last, rfl⟩ := List.eq_nil_or_concat' blanks |>.resolve_left hne
    rw [← List.append_assoc] at heq
    obtain ⟨rfl, -⟩ := List.append_inj' heq rfl
    exact ⟨front, keyword, others, rfl, hfront, hkeyword, (List.forall_mem_append.mp hblanks).1⟩

instance (text : Text) : Decidable (EndsInTag text) := decidable_of_iff _ endsInTag_iff.symm

/-! ### Bare words -/

/-- A text holds a word that does not name a tag. -/
def Bare (word text : Text) : Prop :=
  ∃ before after, text = before ++ word ++ after ∧ Whole before word after ∧ ¬FollowsTag before

/-- The bare words among pieces, in order. -/
def bareFrom : Lead → List Text → List Text
  | _, [] => []
  | lead, piece :: rest =>
    (if lead ≠ .tag ∧ IsRun piece then [piece] else []) ++ bareFrom (lead.next piece) rest

def bareWords (text : Text) : List Text := bareFrom .other (pieces text)

theorem bareFrom_gap {c : Char} (hc : isWord c = false) (rest : Text) (lead : Lead) :
    bareFrom lead (pieces (c :: rest)) = bareFrom (lead.next [c]) (pieces rest) := by
  rw [pieces_gap hc, bareFrom, if_neg fun h => not_isRun_singleton hc h.2, List.nil_append]

theorem bareFrom_run {word rest : Text} (hword : IsRun word) (hrest : isWordAt rest.head? = false)
    (lead : Lead) : bareFrom lead (pieces (word ++ rest)) =
      (if lead ≠ .tag then [word] else []) ++ bareFrom (lead.next word) (pieces rest) := by
  rw [pieces_run hword hrest, bareFrom]
  simp only [hword, and_true]

theorem mem_bareFrom_iff {word text : Text} {lead : Lead} :
    word ∈ bareFrom lead (pieces text) ↔ ∃ before after, text = before ++ word ++ after ∧
      Whole before word after ∧ lead.after before ≠ .tag := by
  induction text using pieces_induction generalizing lead with
  | nil =>
      constructor
      · intro hmem
        cases hmem
      · rintro ⟨before, after, heq, hwhole, -⟩
        have hnil := (List.append_eq_nil_iff.mp heq.symm).1
        exact absurd (List.append_eq_nil_iff.mp hnil).2 hwhole.run.1
  | gap c rest hc ih =>
      rw [bareFrom_gap hc, ih, exists_whole_gap hc]
      simp only [Lead.after_gap hc]
  | run first rest hfirst hrest ih =>
      rw [bareFrom_run hfirst hrest, List.mem_append, ih, exists_whole_run hfirst hrest]
      apply or_congr
      · by_cases htag : lead = .tag
        · simp [htag]
        · simp [htag]
      · apply exists_congr
        intro before
        apply exists_congr
        intro after
        apply and_congr_right
        -- Behind the first word stands none of its characters, so it is a piece of what comes before.
        rintro rfl
        rw [List.append_assoc] at hrest
        rw [Lead.after_run hfirst (isWordAt_head?_of_append hrest)]

theorem bare_iff {word text : Text} : Bare word text ↔ word ∈ bareWords text := by
  rw [bareWords, mem_bareFrom_iff, Bare]
  simp only [followsTag_iff, ne_eq]

instance (word text : Text) : Decidable (Bare word text) := decidable_of_iff _ bare_iff.symm

end Substitution

end PlainC
