import PlainC.Proofs.Substitution

/-!
# An alias is spelled out word by word

There is one way to cut a text into its longest words and the characters between them. What the search
for an alias does to the text is said by this cut alone: each part that is the alias becomes the canonical
spelling, unless a part that is a tag keyword and parts of white space stand right before it.
-/

namespace PlainC

namespace Text

/-- Parts that make up a text: words and single other characters, with no two words side by side. -/
structure IsCut (text : Text) (parts : List Text) : Prop where
  joined : parts.flatten = text
  simple : ∀ part ∈ parts, IsRun part ∨ ∃ c, part = [c] ∧ isWord c = false
  longest : parts.IsChain fun part next => ¬(IsRun part ∧ IsRun next)

variable {text part : Text} {parts : List Text}

theorem IsCut.tail (hcut : IsCut text (part :: parts)) : IsCut parts.flatten parts where
  joined := rfl
  simple := fun other hother => hcut.simple other (List.mem_cons_of_mem part hother)
  longest := hcut.longest.tail

/-- What follows a word in a cut does not begin with a word character. -/
theorem IsCut.head_tail (hcut : IsCut text (part :: parts)) (hpart : IsRun part) :
    isWordAt parts.flatten.head? = false := by
  cases parts with
  | nil => rfl
  | cons next parts =>
      have hnext : ¬IsRun next := fun hrun =>
        (List.isChain_cons_cons.mp hcut.longest).1 ⟨hpart, hrun⟩
      rcases hcut.simple next (by simp) with hrun | ⟨c, rfl, hc⟩
      · exact absurd hrun hnext
      · exact hc

theorem IsCut.eq_pieces (hcut : IsCut text parts) : parts = pieces text := by
  rw [← hcut.joined]
  induction parts generalizing text with
  | nil => rfl
  | cons part parts ih =>
      have htail := ih hcut.tail
      rcases hcut.simple part List.mem_cons_self with hrun | ⟨c, rfl, hc⟩
      · rw [List.flatten_cons, pieces_run hrun (hcut.head_tail hrun), ← htail]
      · rw [List.flatten_cons, List.singleton_append, pieces_gap hc, ← htail]

theorem isCut_pieces (text : Text) : IsCut text (pieces text) := by
  induction text using pieces_induction with
  | nil => exact ⟨rfl, by simp, .nil⟩
  | gap c rest hc ih =>
      rw [pieces_gap hc]
      refine ⟨by rw [List.flatten_cons, ih.joined]; rfl, ?_, ?_⟩
      · rw [List.forall_mem_cons]
        exact ⟨.inr ⟨c, rfl, hc⟩, ih.simple⟩
      · exact ih.longest.cons fun next _ h => not_isRun_singleton hc h.1
  | run word rest hword hrest ih =>
      rw [pieces_run hword hrest]
      refine ⟨by rw [List.flatten_cons, ih.joined], ?_, ?_⟩
      · rw [List.forall_mem_cons]
        exact ⟨.inl hword, ih.simple⟩
      · -- The rest does not begin with a word character, so its first piece is no word.
        refine ih.longest.cons fun next hnext h => ?_
        obtain ⟨others, hpieces⟩ := List.head?_eq_some_iff.mp hnext
        rw [← ih.joined, hpieces, List.flatten_cons, h.2.head_append] at hrest
        cases hrest

end Text

namespace Substitution

open Text

variable {name canonical part : Text} {parts : List Text}

theorem Lead.next_ne_other_iff {lead : Lead} :
    lead.next part ≠ .other ↔
      part ∈ tagKeywords ∨ (∀ c ∈ part, isBlank c) ∧ lead ≠ .other := by
  rw [next]
  by_cases hkeyword : part ∈ tagKeywords
  · simp [hkeyword]
  · simp [hkeyword]

theorem Lead.next_eq_tag_iff {lead : Lead} :
    lead.next part = .tag ↔ (∀ c ∈ part, isBlank c) ∧ lead ≠ .other := by
  rw [next]
  by_cases hkeyword : part ∈ tagKeywords
  · have hblank := (isRun_of_mem_tagKeywords hkeyword).not_blank
    rw [← Bool.not_eq_true, List.all_eq_true] at hblank
    simp [hkeyword, hblank]
  · simp [hkeyword]

/-- Parts that end in a tag keyword and at least one part of white space. -/
def BehindTag (earlier : List Text) : Prop :=
  ∃ front keyword blanks, earlier = front ++ keyword :: blanks ∧ keyword ∈ tagKeywords ∧
    blanks ≠ [] ∧ ∀ blank ∈ blanks, ∀ c ∈ blank, isBlank c

theorem behindTag_concat_iff {earlier : List Text} {last : Text} :
    BehindTag (earlier ++ [last]) ↔ (∀ c ∈ last, isBlank c) ∧ ∃ front keyword blanks,
      earlier = front ++ keyword :: blanks ∧ keyword ∈ tagKeywords ∧
        ∀ blank ∈ blanks, ∀ c ∈ blank, isBlank c := by
  constructor
  · rintro ⟨front, keyword, blanks, heq, hkeyword, hne, hblanks⟩
    obtain ⟨others, blank, rfl⟩ := (List.eq_nil_or_concat' blanks).resolve_left hne
    rw [← List.cons_append, ← List.append_assoc] at heq
    obtain ⟨rfl, hlast⟩ := List.append_inj' heq rfl
    rw [List.forall_mem_append, List.forall_mem_singleton] at hblanks
    exact ⟨List.singleton_inj.mp hlast ▸ hblanks.2, front, keyword, others, rfl, hkeyword, hblanks.1⟩
  · rintro ⟨hblank, front, keyword, blanks, rfl, hkeyword, hblanks⟩
    refine ⟨front, keyword, blanks ++ [last], by simp, hkeyword, by simp, ?_⟩
    rw [List.forall_mem_append, List.forall_mem_singleton]
    exact ⟨hblanks, hblank⟩

/-- The lead behind parts tells whether they end in a tag keyword, with white space behind it or not. -/
theorem foldl_next_ne_other_iff :
    parts.foldl Lead.next .other ≠ .other ↔ ∃ front keyword blanks,
      parts = front ++ keyword :: blanks ∧ keyword ∈ tagKeywords ∧
        ∀ blank ∈ blanks, ∀ c ∈ blank, isBlank c := by
  induction parts using List.reverseRecOn with
  | nil => simp
  | append_singleton parts last ih =>
      rw [List.foldl_append, List.foldl_cons, List.foldl_nil, Lead.next_ne_other_iff, ih,
        ← behindTag_concat_iff]
      constructor
      · rintro (hkeyword | ⟨front, keyword, blanks, heq, hkeyword, -, hblanks⟩)
        · exact ⟨parts, last, [], rfl, hkeyword, by simp⟩
        · exact ⟨front, keyword, blanks, heq, hkeyword, hblanks⟩
      · rintro ⟨front, keyword, blanks, heq, hkeyword, hblanks⟩
        by_cases hne : blanks = []
        · rw [hne] at heq
          obtain ⟨-, hlast⟩ := List.append_inj' heq rfl
          exact .inl (List.singleton_inj.mp hlast ▸ hkeyword)
        · exact .inr ⟨front, keyword, blanks, heq, hkeyword, hne, hblanks⟩

theorem behindTag_iff : BehindTag parts ↔ parts.foldl Lead.next .other = .tag := by
  rcases List.eq_nil_or_concat' parts with rfl | ⟨earlier, last, rfl⟩
  · simp [BehindTag]
  · rw [List.foldl_append, List.foldl_cons, List.foldl_nil, Lead.next_eq_tag_iff,
      foldl_next_ne_other_iff, behindTag_concat_iff]

instance (earlier : List Text) : Decidable (BehindTag earlier) :=
  decidable_of_iff _ behindTag_iff.symm

/-- The parts of a text with the alias spelled out wherever it is a part and names no tag. -/
def spellParts (name canonical : Text) (parts : List Text) : List Text :=
  parts.mapIdx fun i part => if part = name ∧ ¬BehindTag (parts.take i) then canonical else part

theorem spellLed_eq_flatten (earlier : List Text) :
    spellLed (only name canonical) (earlier.foldl Lead.next .other) parts =
      (parts.mapIdx fun i part =>
        if part = name ∧ ¬BehindTag (earlier ++ parts.take i) then canonical else part).flatten := by
  induction parts generalizing earlier with
  | nil => rfl
  | cons part parts ih =>
      have hrest := ih (earlier ++ [part])
      simp only [List.foldl_append, List.foldl_cons, List.foldl_nil, List.append_assoc,
        List.singleton_append] at hrest
      rw [spellLed, hrest, List.mapIdx_cons, List.flatten_cons]
      simp only [List.take_zero, List.append_nil, List.take_succ_cons, behindTag_iff]
      congr 1
      by_cases htag : earlier.foldl Lead.next .other = .tag
      · simp [htag]
      · simp only [htag, if_false, not_false_eq_true, and_true, only]
        split <;> rfl

/-- A text has one cut into its words and the characters between them. Spelling out an alias that is a
word and no tag keyword replaces exactly the parts that are the alias and do not stand behind a tag
keyword and white space, and keeps all others. -/
theorem alias_spelled_out_word_by_word {name : Text} (hname : IsRun name) (hnot : name ∉ tagKeywords)
    (canonical code : Text) :
    ∃ parts, IsCut code parts ∧ (∀ others, IsCut code others → others = parts) ∧
      spellOut name canonical code = (spellParts name canonical parts).flatten := by
  refine ⟨pieces code, isCut_pieces code, fun others hcut => hcut.eq_pieces, ?_⟩
  rw [spellOut_eq_spellWords hname hnot, spellWords_eq_spellLed]
  exact spellLed_eq_flatten []

/-- Behind two keywords in a row, over a line break, next to a longer word and without a space. -/
theorem alias_spelled_out_word_by_word_among_tags :
    IsRun "T".toList ∧ "T".toList ∉ tagKeywords ∧
      IsCut "enum struct\n T;T T_1 unionT,T".toList
        ["enum".toList, [' '], "struct".toList, ['\n'], [' '], ['T'], [';'], ['T'], [' '],
          "T_1".toList, [' '], "unionT".toList, [','], ['T']] ∧
      spellOut "T".toList "long".toList "enum struct\n T;T T_1 unionT,T".toList =
        "enum struct\n T;long T_1 unionT,long".toList := by
  have hname : IsRun "T".toList := by decide +kernel
  have hnot : "T".toList ∉ tagKeywords := by decide
  obtain ⟨parts, hcut, -, hspell⟩ := alias_spelled_out_word_by_word hname hnot "long".toList
    "enum struct\n T;T T_1 unionT,T".toList
  have hpieces : parts = ["enum".toList, [' '], "struct".toList, ['\n'], [' '], ['T'], [';'], ['T'],
      [' '], "T_1".toList, [' '], "unionT".toList, [','], ['T']] := by
    rw [hcut.eq_pieces]
    decide +kernel
  subst hpieces
  refine ⟨hname, hnot, hcut, ?_⟩
  rw [hspell]
  decide +kernel

end Substitution

end PlainC
