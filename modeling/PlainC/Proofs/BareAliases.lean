import PlainC.Typedef.Unfolding
import PlainC.Proofs.Substitution
import Mathlib.Data.List.Nodup

/-!
# Spelling out a table of aliases

The aliases of a table are spelled out one after another, over a text that already holds the spellings
of earlier ones. A step takes the bare occurrences of its own alias away and brings in no bare words but
those of its spelling. So an alias is gone for good once no later spelling has it bare. If no spelling
has any alias bare, and none ends in a tag keyword that would take hold of the word behind it, then the
steps do not see each other: they are one replacement of all aliases at once, in any order.
-/

namespace PlainC

namespace Substitution

open Text

/-! ### What follows a spelling -/

theorem bareFrom_append (lead : Lead) (before after : List Text) :
    bareFrom lead (before ++ after) =
      bareFrom lead before ++ bareFrom (before.foldl Lead.next lead) after := by
  induction before generalizing lead with
  | nil => rfl
  | cons piece before ih =>
      rw [List.cons_append, bareFrom, ih, bareFrom, List.append_assoc, List.foldl_cons]

theorem spellLed_append (spelling : Text → Option Text) (lead : Lead) (before after : List Text) :
    spellLed spelling lead (before ++ after) =
      spellLed spelling lead before ++ spellLed spelling (before.foldl Lead.next lead) after := by
  induction before generalizing lead with
  | nil => rfl
  | cons piece before ih =>
      rw [List.cons_append, spellLed, ih, spellLed, List.append_assoc, List.foldl_cons]

/-- Words stay apart from what follows them. -/
theorem isWordAt_head?_spellLed {spelling : Text → Option Text} (hwords : OfWords spelling)
    {text : Text} (htext : isWordAt text.head? = false) (lead : Lead) :
    isWordAt (spellLed spelling lead (pieces text)).head? = false := by
  cases text with
  | nil => rfl
  | cons c rest =>
      rw [spellLed_gap hwords htext]
      exact htext

/-- A lead that says less: it may not tell of a keyword that the other tells of. -/
def Lead.Weaker (lead lead' : Lead) : Prop := lead = .other ∨ lead = lead'

theorem Lead.Weaker.next {lead lead' : Lead} (hweaker : lead.Weaker lead') {piece : Text}
    (hpiece : IsRun piece ∨ ∃ c, piece = [c] ∧ isWord c = false) :
    (lead.next piece).Weaker (lead'.next piece) := by
  rcases hpiece with hword | ⟨c, rfl, hc⟩
  · right
    rw [next_run hword, next_run hword]
  · rcases hweaker with rfl | rfl
    · exact .inl (other_next_gap hc)
    · exact .inr rfl

theorem Lead.Weaker.ne_tag {lead lead' : Lead} (hweaker : lead.Weaker lead') (hne : lead' ≠ .tag) :
    lead ≠ .tag := by
  rcases hweaker with rfl | rfl
  · simp
  · exact hne

theorem bareFrom_subset {lead lead' : Lead} (hweaker : lead.Weaker lead') (text : Text) :
    bareFrom lead' (pieces text) ⊆ bareFrom lead (pieces text) := by
  induction text using pieces_induction generalizing lead lead' with
  | nil => exact List.Subset.refl []
  | gap c rest hc ih =>
      rw [bareFrom_gap hc, bareFrom_gap hc]
      exact ih (hweaker.next (.inr ⟨c, rfl, hc⟩))
  | run word rest hword hrest ih =>
      rw [bareFrom_run hword hrest, bareFrom_run hword hrest]
      apply List.append_subset.mpr
      constructor
      · by_cases htag : lead' = .tag
        · simp [htag]
        · rw [if_pos htag, if_pos (hweaker.ne_tag htag)]
          exact List.subset_append_left _ _
      · exact List.subset_append_of_subset_right _ (ih (hweaker.next (.inl hword)))

/-! ### Bare words of a step -/

section Step

variable {name canonical text word : Text}

theorem mem_bareFrom_spellLed (hname : IsRun name) (hnot : name ∉ tagKeywords) {lead lead' : Lead}
    (hweaker : lead.Weaker lead')
    (hmem : word ∈ bareFrom lead' (pieces (spellLed (only name canonical) lead (pieces text)))) :
    word ∈ bareFrom lead (pieces text) ∧ word ≠ name ∨ word ∈ bareWords canonical := by
  -- Two leads, since a spelling that ends in a tag keyword takes hold of the word behind it in the
  -- result while nothing did so in the text.
  have hwords := ofWords_only hname canonical
  induction text using pieces_induction generalizing lead lead' with
  | nil => cases hmem
  | gap c rest hc ih =>
      rw [spellLed_gap hwords hc, bareFrom_gap hc] at hmem
      rw [bareFrom_gap hc]
      exact ih (hweaker.next (.inr ⟨c, rfl, hc⟩)) hmem
  | run first rest hfirst hrest ih =>
      have hhead := isWordAt_head?_spellLed hwords hrest (lead.next first)
      rw [spellLed_run hfirst hrest] at hmem
      rw [bareFrom_run hfirst hrest, List.mem_append]
      by_cases hreplaced : lead ≠ .tag ∧ first = name
      · obtain ⟨htag, rfl⟩ := hreplaced
        have hnext : lead.next first = .other := by rw [Lead.next_run hname, if_neg hnot]
        rw [if_neg htag, getD_only_self, pieces_append (.inr hhead), bareFrom_append,
          List.mem_append] at hmem
        rcases hmem with hmem | hmem
        · exact .inr (bareFrom_subset (.inl rfl) canonical hmem)
        · exact (ih (.inl hnext) hmem).imp_left fun hbare => ⟨.inr hbare.1, hbare.2⟩
      · have hkept : (if lead = .tag then first else (only name canonical first).getD first) = first := by
          by_cases htag : lead = .tag
          · exact if_pos htag
          · rw [if_neg htag, getD_only_of_ne fun heq => hreplaced ⟨htag, heq⟩]
        rw [hkept, bareFrom_run hfirst hhead, List.mem_append] at hmem
        rcases hmem with hmem | hmem
        · have htag : lead' ≠ .tag := by
            rintro rfl
            simp at hmem
          have hlead := hweaker.ne_tag htag
          rw [if_pos htag, List.mem_singleton] at hmem
          subst hmem
          exact .inl ⟨.inl (by simp [hlead]), fun heq => hreplaced ⟨hlead, heq⟩⟩
        · exact (ih (hweaker.next (.inl hfirst)) hmem).imp_left fun hbare => ⟨.inr hbare.1, hbare.2⟩

/-- The bare words of a text in which an alias was spelled out are others that were there before, and
those of its spelling. -/
theorem Bare.of_spellOut (hname : IsRun name) (hnot : name ∉ tagKeywords)
    (hbare : Bare word (spellOut name canonical text)) :
    Bare word text ∧ word ≠ name ∨ Bare word canonical := by
  rw [bare_iff, spellOut_eq_spellWords hname hnot, spellWords_eq_spellLed] at hbare
  rw [bare_iff, bare_iff]
  exact mem_bareFrom_spellLed hname hnot (.inr rfl) hbare

end Step

/-! ### All at once -/

section Simultaneous

variable {spelling : Text → Option Text}

theorem spellLed_of_not_bare {lead : Lead} {text : Text}
    (hnone : ∀ word ∈ bareFrom lead (pieces text), spelling word = none)
    (hwords : OfWords spelling) : spellLed spelling lead (pieces text) = text := by
  induction text using pieces_induction generalizing lead with
  | nil => rfl
  | gap c rest hc ih =>
      rw [bareFrom_gap hc] at hnone
      rw [spellLed_gap hwords hc, ih hnone]
  | run word rest hword hrest ih =>
      rw [bareFrom_run hword hrest] at hnone
      obtain ⟨hfirst, hothers⟩ := List.forall_mem_append.mp hnone
      rw [spellLed_run hword hrest, ih hothers]
      by_cases htag : lead = .tag
      · rw [if_pos htag]
      · rw [if_neg htag, hfirst word (by simp [htag]), Option.getD_none]

theorem OfWords.or {first : Text → Option Text} (hfirst : OfWords first) (hwords : OfWords spelling) :
    OfWords fun word => (first word).or (spelling word) := by
  intro word hsome
  by_cases hone : first word = none
  · simp only [hone, Option.none_or] at hsome
    exact hwords word hsome
  · exact hfirst word hone

/-- A spelling that came in is passed over, and what stands behind it is read as from the start. -/
theorem spellLed_append_of_flat {canonical rest : Text} (hwords : OfWords spelling)
    (hflat : ∀ word, Bare word canonical → spelling word = none) (hends : ¬EndsInTag canonical)
    (hrest : isWordAt rest.head? = false) :
    spellLed spelling .other (pieces (canonical ++ rest)) =
      canonical ++ spellLed spelling .other (pieces rest) := by
  have hafter : (pieces canonical).foldl Lead.next .other = .other := by
    by_contra hne
    exact hends (endsInTag_iff.mpr hne)
  have hkept : spellLed spelling .other (pieces canonical) = canonical :=
    spellLed_of_not_bare (fun word hword => hflat word (bare_iff.mpr hword)) hwords
  rw [pieces_append (.inr hrest), spellLed_append, hafter, hkept]

/-- Spelling out one alias and then others is to spell them out at once, if the spelling of the first
has none of the others bare and does not end in a tag keyword. -/
theorem spellLed_only_spellLed {name canonical text : Text} (hname : IsRun name)
    (hnot : name ∉ tagKeywords) (hwords : OfWords spelling)
    (hflat : ∀ word, Bare word canonical → spelling word = none) (hends : ¬EndsInTag canonical)
    {lead : Lead} (hfits : lead = .keyword → isWordAt text.head? = false) :
    spellLed spelling lead (pieces (spellLed (only name canonical) lead (pieces text))) =
      spellLed (fun word => (only name canonical word).or (spelling word)) lead (pieces text) := by
  have hfirst := ofWords_only hname canonical
  induction text using pieces_induction generalizing lead with
  | nil => rfl
  | gap c rest hc ih =>
      have hnext : lead.next [c] ≠ .keyword := by
        rw [Lead.next_gap hc]
        split <;> simp
      rw [spellLed_gap hfirst hc, spellLed_gap hwords hc, spellLed_gap (hfirst.or hwords) hc,
        ih fun heq => absurd heq hnext]
  | run word rest hword hrest ih =>
      have hhead := isWordAt_head?_spellLed hfirst hrest (lead.next word)
      have hrestEq : spellLed spelling (lead.next word) (pieces (spellLed _ _ (pieces rest))) = _ :=
        ih fun _ => hrest
      rw [spellLed_run hword hrest, spellLed_run hword hrest]
      by_cases htag : lead = .tag
      · rw [if_pos htag, if_pos htag, spellLed_run hword hhead, if_pos htag, hrestEq]
      · rw [if_neg htag, if_neg htag]
        by_cases heq : word = name
        · subst heq
          -- No keyword stands directly before a word, so the spelling is read from the start.
          have hlead : lead = .other := by
            cases lead with
            | other => rfl
            | tag => exact absurd rfl htag
            | keyword =>
                have hnone := hfits rfl
                rw [hword.head_append] at hnone
                cases hnone
          subst hlead
          have hnext : Lead.other.next word = .other := by rw [Lead.next_run hname, if_neg hnot]
          rw [hnext] at hrestEq hhead ⊢
          rw [getD_only_self, spellLed_append_of_flat hwords hflat hends hhead, hrestEq, only, if_pos rfl,
            Option.some_or, Option.getD_some]
        · rw [getD_only_of_ne heq, spellLed_run hword hhead, if_neg htag, hrestEq, only, if_neg heq,
            Option.none_or]

/-- What the entries of a table spell out; the first entry of a name counts. -/
def spellingOf (entries : List (Text × Text)) (word : Text) : Option Text :=
  (entries.find? fun entry => entry.1 = word).map Prod.snd

theorem spellingOf_cons (entry : Text × Text) (entries : List (Text × Text)) (word : Text) :
    spellingOf (entry :: entries) word =
      (only entry.1 entry.2 word).or (spellingOf entries word) := by
  rw [spellingOf, List.find?_cons, only]
  by_cases heq : entry.1 = word
  · simp [heq]
  · simp [heq, Ne.symm heq, spellingOf]

theorem spellingOf_eq_none_iff {entries : List (Text × Text)} {word : Text} :
    spellingOf entries word = none ↔ ∀ entry ∈ entries, entry.1 ≠ word := by
  simp [spellingOf, List.find?_eq_none]

theorem ofWords_spellingOf {entries : List (Text × Text)} (hnames : ∀ entry ∈ entries, IsRun entry.1) :
    OfWords (spellingOf entries) := by
  intro word hsome
  by_contra hword
  apply hsome
  rw [spellingOf_eq_none_iff]
  rintro entry hentry rfl
  exact hword (hnames entry hentry)

end Simultaneous

end Substitution

open Substitution

namespace Aliases

/-- The names are words, and none is a tag keyword. -/
def NamesWords (aliases : Aliases) : Prop :=
  ∀ entry ∈ aliases.entries, entry.1.IsRun ∧ entry.1 ∉ tagKeywords

instance (aliases : Aliases) : Decidable aliases.NamesWords :=
  inferInstanceAs (Decidable (∀ entry ∈ aliases.entries, _))

/-- No spelling has the name of its own entry or of an earlier one bare. -/
def NeverComesBack (aliases : Aliases) : Prop :=
  ∀ i j : Fin aliases.entries.length, j ≤ i →
    ¬Bare (aliases.entries.get j).1 (aliases.entries.get i).2

instance (aliases : Aliases) : Decidable aliases.NeverComesBack :=
  inferInstanceAs (Decidable (∀ _ _ : Fin aliases.entries.length, _ → _))

/-- No spelling has any name bare, and none ends in a tag keyword. -/
def Flat (aliases : Aliases) : Prop :=
  ∀ entry ∈ aliases.entries,
    (∀ other ∈ aliases.entries, ¬Bare other.1 entry.2) ∧ ¬EndsInTag entry.2

instance (aliases : Aliases) : Decidable aliases.Flat :=
  inferInstanceAs (Decidable (∀ entry ∈ aliases.entries, _))

theorem get?_eq_some_iff (aliases : Aliases) (name canonical : Text) :
    aliases.get? name = some canonical ↔ (name, canonical) ∈ aliases.entries := by
  rw [get?, Option.map_eq_some_iff]
  constructor
  · rintro ⟨⟨found, spelling⟩, hfind, rfl⟩
    have heq := List.find?_some hfind
    rw [decide_eq_true_eq] at heq
    rw [← heq]
    exact List.mem_of_find?_eq_some hfind
  · intro hmem
    cases hfind : aliases.entries.find? fun entry => entry.1 = name with
    | none =>
        rw [List.find?_eq_none] at hfind
        exact absurd (decide_eq_true rfl) (hfind (name, canonical) hmem)
    | some found =>
        have heq := List.find?_some hfind
        rw [decide_eq_true_eq] at heq
        have hsame := List.inj_on_of_nodup_map aliases.distinct (List.mem_of_find?_eq_some hfind) hmem heq
        exact ⟨found, rfl, by rw [hsame]⟩

variable {aliases reordered : Aliases}

theorem get?_perm (hperm : reordered.entries.Perm aliases.entries) :
    reordered.get? = aliases.get? := by
  funext name
  apply Option.ext
  intro canonical
  rw [get?_eq_some_iff, get?_eq_some_iff, hperm.mem_iff]

end Aliases

namespace Unfolding

/-- Spells out the entries of a table one after another. -/
def spellEntries (entries : List (Text × Text)) (code : Text) : Text :=
  entries.foldl (fun code entry => spellOut entry.1 entry.2 code) code

theorem spellEntries_cons (entry : Text × Text) (entries : List (Text × Text)) (code : Text) :
    spellEntries (entry :: entries) code = spellEntries entries (spellOut entry.1 entry.2 code) := rfl

theorem unfold_eq_map (source : Source) (typedefs : List Typedef) (aliases : Aliases) :
    unfold source typedefs aliases =
      (removeDeclarations source typedefs aliases).map fun progress =>
        spellEntries aliases.entries progress.source.toText := by
  rw [unfold]
  cases removeDeclarations source typedefs aliases <;> rfl

theorem removeDeclarations_congr {aliases reordered : Aliases} (hget : reordered.get? = aliases.get?)
    (source : Source) (typedefs : List Typedef) :
    removeDeclarations source typedefs reordered = removeDeclarations source typedefs aliases := by
  have hcontains : reordered.contains = aliases.contains := by
    funext name
    rw [Aliases.contains, hget, Aliases.contains]
  rw [removeDeclarations, hcontains]
  rfl

/-- An unfolded text is what is left without the declarations, with the aliases spelled out. -/
theorem exists_of_unfold {source : Source} {typedefs : List Typedef} {aliases : Aliases} {result : Text}
    (hunfold : unfold source typedefs aliases = .ok result) :
    ∃ progress, removeDeclarations source typedefs aliases = .ok progress ∧
      result = spellEntries aliases.entries progress.source.toText := by
  rw [unfold_eq_map] at hunfold
  cases hremove : removeDeclarations source typedefs aliases with
  | error misplaced =>
      rw [hremove] at hunfold
      cases hunfold
  | ok progress =>
      rw [hremove] at hunfold
      cases hunfold
      exact ⟨progress, rfl, rfl⟩

/-! ### No alias is left -/

/-- A word that is not bare stays so while spellings come in that do not have it bare. -/
theorem not_bare_spellEntries {entries : List (Text × Text)} {word code : Text}
    (hnames : ∀ entry ∈ entries, entry.1.IsRun ∧ entry.1 ∉ tagKeywords)
    (hspellings : ∀ entry ∈ entries, ¬Bare word entry.2) (hcode : ¬Bare word code) :
    ¬Bare word (spellEntries entries code) := by
  induction entries generalizing code with
  | nil => exact hcode
  | cons entry entries ih =>
      rw [List.forall_mem_cons] at hnames hspellings
      rw [spellEntries_cons]
      apply ih hnames.2 hspellings.2
      intro hbare
      rcases hbare.of_spellOut hnames.1.1 hnames.1.2 with ⟨hbefore, -⟩ | hspelling
      · exact hcode hbefore
      · exact hspellings.1 hspelling

theorem not_bare_of_mem {aliases : Aliases} (hnames : aliases.NamesWords)
    (hgone : aliases.NeverComesBack) {entry : Text × Text} (hentry : entry ∈ aliases.entries)
    (code : Text) : ¬Bare entry.1 (spellEntries aliases.entries code) := by
  -- The entries from this one on keep its name away, whatever the earlier ones have left.
  obtain ⟨j, hj, rfl⟩ := List.getElem_of_mem hentry
  have hlater : ∀ other ∈ aliases.entries.drop j, ¬Bare aliases.entries[j].1 other.2 := by
    intro other hother
    obtain ⟨k, hk, rfl⟩ := List.getElem_of_mem hother
    rw [List.length_drop] at hk
    rw [List.getElem_drop]
    exact hgone ⟨j + k, by omega⟩ ⟨j, hj⟩ (Nat.le_add_right j k)
  have hnames' : ∀ other ∈ aliases.entries.drop j, other.1.IsRun ∧ other.1 ∉ tagKeywords :=
    fun other hother => hnames other (List.mem_of_mem_drop hother)
  rw [List.drop_eq_getElem_cons hj, List.forall_mem_cons] at hlater hnames'
  have hsplit : spellEntries aliases.entries code = spellEntries (aliases.entries.drop j)
      (spellEntries (aliases.entries.take j) code) := by
    rw [spellEntries, spellEntries, spellEntries, ← List.foldl_append, List.take_append_drop]
  rw [hsplit, List.drop_eq_getElem_cons hj, spellEntries_cons]
  apply not_bare_spellEntries hnames'.2 hlater.2
  intro hbare
  rcases hbare.of_spellOut hnames'.1.1 hnames'.1.2 with ⟨-, hne⟩ | hspelling
  · exact hne rfl
  · exact hlater.1 hspelling

/-- A text in which aliases were unfolded has none of them bare, if the spelling of each leaves alone
what was spelled out up to then. -/
theorem no_bare_alias_after_unfold (source : Source) (typedefs : List Typedef) (aliases : Aliases)
    (hnames : aliases.NamesWords) (hgone : aliases.NeverComesBack) (result : Text)
    (hunfold : unfold source typedefs aliases = .ok result) :
    ∀ entry ∈ aliases.entries, ¬Bare entry.1 result := by
  intro entry hentry
  obtain ⟨progress, -, rfl⟩ := exists_of_unfold hunfold
  exact not_bare_of_mem hnames hgone hentry progress.source.toText

/-- A name for a name, and that name for a type. -/
def chainedAliases : Aliases :=
  ⟨[("mid".toList, "base".toList), ("base".toList, "int".toList)], by decide⟩

theorem no_bare_alias_after_unfold_chained :
    chainedAliases.NamesWords ∧ chainedAliases.NeverComesBack ∧
      unfold (.ofText "typedef int base;\nmid v; struct\nmid w; base_mid x;\n".toList)
        [⟨"base".toList, "int".toList, ⟨⟨1, 1⟩, ⟨1, 16⟩⟩, none⟩] chainedAliases =
          .ok "\nint v; struct\nmid w; base_mid x;\n".toList ∧
      ∀ entry ∈ chainedAliases.entries,
        ¬Bare entry.1 "\nint v; struct\nmid w; base_mid x;\n".toList := by
  have hnames : chainedAliases.NamesWords := by decide +kernel
  have hgone : chainedAliases.NeverComesBack := by decide +kernel
  have hunfold : unfold (.ofText "typedef int base;\nmid v; struct\nmid w; base_mid x;\n".toList)
      [⟨"base".toList, "int".toList, ⟨⟨1, 1⟩, ⟨1, 16⟩⟩, none⟩] chainedAliases =
        .ok "\nint v; struct\nmid w; base_mid x;\n".toList := by decide +kernel
  exact ⟨hnames, hgone, hunfold, no_bare_alias_after_unfold _ _ _ hnames hgone _ hunfold⟩

/-! ### In any order -/

theorem spellEntries_eq_spellWords {entries : List (Text × Text)}
    (hnames : ∀ entry ∈ entries, entry.1.IsRun ∧ entry.1 ∉ tagKeywords)
    (hflat : ∀ entry ∈ entries, (∀ other ∈ entries, ¬Bare other.1 entry.2) ∧ ¬EndsInTag entry.2)
    (code : Text) :
    spellEntries entries code = spellWords (spellingOf entries) code := by
  induction entries generalizing code with
  | nil =>
      have hkept : spellLed (spellingOf []) .other (Text.pieces code) = code :=
        spellLed_of_not_bare (fun _ _ => rfl) (ofWords_spellingOf (by simp))
      rw [spellWords_eq_spellLed, hkept]
      rfl
  | cons entry entries ih =>
      have hfirst := hflat entry List.mem_cons_self
      have hothers : ∀ word, Bare word entry.2 → spellingOf entries word = none := by
        intro word hbare
        rw [spellingOf_eq_none_iff]
        rintro other hother rfl
        exact hfirst.1 other (List.mem_cons_of_mem entry hother) hbare
      have hrest := ih (fun other hother => hnames other (List.mem_cons_of_mem entry hother))
        fun other hother => ⟨fun another hanother => (hflat other (List.mem_cons_of_mem entry hother)).1
          another (List.mem_cons_of_mem entry hanother),
          (hflat other (List.mem_cons_of_mem entry hother)).2⟩
      rw [List.forall_mem_cons] at hnames
      have hwords : OfWords (spellingOf entries) :=
        ofWords_spellingOf fun other hother => (hnames.2 other hother).1
      have hspelling : spellingOf (entry :: entries) =
          fun word => (only entry.1 entry.2 word).or (spellingOf entries word) := by
        funext word
        exact spellingOf_cons entry entries word
      rw [spellEntries_cons, hrest, spellOut_eq_spellWords hnames.1.1 hnames.1.2, hspelling,
        spellWords_eq_spellLed, spellWords_eq_spellLed, spellWords_eq_spellLed]
      exact spellLed_only_spellLed hnames.1.1 hnames.1.2 hwords hothers hfirst.2 fun h => by cases h

/-- The aliases of a flat table may be unfolded in any order: each time the result is the text without
the declarations in which all bare aliases are replaced at once. -/
theorem unfold_flat_in_any_order (source : Source) (typedefs : List Typedef) (aliases : Aliases)
    (hnames : aliases.NamesWords) (hflat : aliases.Flat) (reordered : Aliases)
    (hperm : reordered.entries.Perm aliases.entries) :
    unfold source typedefs reordered = unfold source typedefs aliases ∧
      unfold source typedefs reordered =
        (removeDeclarations source typedefs aliases).map fun progress =>
          spellWords aliases.get? progress.source.toText := by
  have hget := Aliases.get?_perm hperm
  have hsteps : ∀ code, spellEntries aliases.entries code = spellWords aliases.get? code :=
    spellEntries_eq_spellWords hnames hflat
  have hsteps' : ∀ code, spellEntries reordered.entries code = spellWords aliases.get? code := by
    intro code
    rw [← hget]
    apply spellEntries_eq_spellWords
    · exact fun entry hentry => hnames entry (hperm.mem_iff.mp hentry)
    · intro entry hentry
      obtain ⟨hbare, hends⟩ := hflat entry (hperm.mem_iff.mp hentry)
      exact ⟨fun other hother => hbare other (hperm.mem_iff.mp hother), hends⟩
  rw [unfold_eq_map, unfold_eq_map, removeDeclarations_congr hget]
  simp only [hsteps, hsteps', and_self]

/-- A structure and a pointer to it, by the name of the tag. -/
def flatAliases : Aliases :=
  ⟨[("P".toList, "struct P".toList), ("N".toList, "struct P *".toList)], by decide⟩

def flatAliasesBackwards : Aliases :=
  ⟨[("N".toList, "struct P *".toList), ("P".toList, "struct P".toList)], by decide⟩

theorem unfold_flat_in_any_order_backwards :
    flatAliases.NamesWords ∧ flatAliases.Flat ∧
      flatAliasesBackwards.entries.Perm flatAliases.entries ∧
      unfold (.ofText "typedef struct P *N;\nN P; union P N;\n".toList)
        [⟨"N".toList, "struct P *".toList, ⟨⟨1, 1⟩, ⟨1, 19⟩⟩, none⟩] flatAliasesBackwards =
          .ok "\nstruct P * struct P; union P struct P *;\n".toList := by
  have hnames : flatAliases.NamesWords := by decide +kernel
  have hflat : flatAliases.Flat := by decide +kernel
  have hperm : flatAliasesBackwards.entries.Perm flatAliases.entries := List.Perm.swap _ _ []
  refine ⟨hnames, hflat, hperm, ?_⟩
  rw [(unfold_flat_in_any_order _ _ flatAliases hnames hflat flatAliasesBackwards hperm).1]
  decide +kernel

end Unfolding

end PlainC
