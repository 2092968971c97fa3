import PlainC.Proofs.Words

/-!
# Where an alias is spelled out

The search for an alias looks ahead from each place: first for a tag keyword, white space and the alias,
then for the alias alone. Seen word by word it looks back instead: an alias that is a word, and no tag
keyword itself, is spelled out wherever it stands bare and nowhere else. `spellWords` says this for
many words at once, and spelling one alias out is the case of one word.
-/

namespace PlainC

namespace Substitution

open Text

/-! ### Occurrences -/

section Occurrences

variable {name text : Text} {before : Option Char} {n : Nat}

theorem aliasFollows_iff {read rest : Text} :
    aliasFollows name before read rest ↔
      ∃ behind, rest = name ++ behind ∧ endsWord before (read ++ name) behind := by
  rw [aliasFollows, Bool.and_eq_true, List.isPrefixOf_iff_prefix]
  constructor
  · rintro ⟨⟨behind, rfl⟩, hends⟩
    rw [List.drop_left] at hends
    exact ⟨behind, rfl, hends⟩
  · rintro ⟨behind, rfl, hends⟩
    rw [List.drop_left]
    exact ⟨⟨behind, rfl⟩, hends⟩

/-- An alias that names a tag: it stands behind a keyword and white space, up to a word boundary. -/
structure TaggedAt (name : Text) (before : Option Char) (text keyword blanks rest : Text) : Prop where
  eq : text = keyword ++ (blanks ++ (name ++ rest))
  isKeyword : keyword ∈ tagKeywords
  ne_nil : blanks ≠ []
  blank : ∀ c ∈ blanks, isBlank c
  ends : endsWord before (keyword ++ blanks ++ name) rest

theorem exists_of_taggedAt? (htagged : taggedAt? name before text = some n) :
    ∃ keyword blanks rest, TaggedAt name before text keyword blanks rest ∧
      n = (keyword ++ (blanks ++ name)).length := by
  obtain ⟨keyword, hkeyword, htagged⟩ := List.exists_of_findSome?_eq_some htagged
  split at htagged
  · rename_i hstarts
    obtain ⟨behind, rfl⟩ := List.isPrefixOf_iff_prefix.mp hstarts
    rw [List.drop_left] at htagged
    obtain ⟨i, hi, htagged⟩ := List.exists_of_findSome?_eq_some htagged
    rw [List.mem_reverse, List.mem_range] at hi
    split at htagged
    · rename_i hfollows
      cases htagged
      obtain ⟨rest, hrest, hends⟩ := aliasFollows_iff.mp hfollows
      have htake : behind.take (i + 1) = (behind.takeWhile isBlank).take (i + 1) := by
        conv_lhs => rw [← List.takeWhile_append_dropWhile (p := isBlank) (l := behind)]
        rw [List.take_append_of_le_length (by omega)]
      have hbehind : behind = (behind.takeWhile isBlank).take (i + 1) ++ behind.drop (i + 1) := by
        rw [← htake, List.take_append_drop]
      refine ⟨keyword, (behind.takeWhile isBlank).take (i + 1), rest, ⟨?_, hkeyword, ?_, ?_, hends⟩, ?_⟩
      · rw [← hrest, ← hbehind]
      · rw [← List.length_pos_iff, List.length_take]
        omega
      · intro c hc
        exact List.mem_takeWhile_imp (List.mem_of_mem_take hc)
      · simp only [List.length_append, List.length_take]
        omega
    · cases htagged
  · cases htagged

theorem TaggedAt.isSome {keyword blanks rest : Text}
    (htagged : TaggedAt name before text keyword blanks rest) :
    (taggedAt? name before text).isSome := by
  have hpos := List.length_pos_iff.mpr htagged.ne_nil
  have htake : ((blanks ++ (name ++ rest)).takeWhile isBlank).take (blanks.length - 1 + 1) = blanks := by
    rw [Nat.sub_add_cancel hpos, List.takeWhile_append_of_pos htagged.blank, List.take_left]
  have hdrop : (blanks ++ (name ++ rest)).drop (blanks.length - 1 + 1) = name ++ rest := by
    rw [Nat.sub_add_cancel hpos, List.drop_left]
  rw [taggedAt?, List.findSome?_isSome_iff, htagged.eq]
  refine ⟨keyword, htagged.isKeyword, ?_⟩
  rw [if_pos (List.isPrefixOf_iff_prefix.mpr (List.prefix_append _ _)), List.drop_left]
  simp only [List.findSome?_isSome_iff, List.mem_reverse, List.mem_range]
  refine ⟨blanks.length - 1, ?_, ?_⟩
  · rw [List.takeWhile_append_of_pos htagged.blank, List.length_append]
    omega
  · rw [htake, hdrop, if_pos (aliasFollows_iff.mpr ⟨rest, rfl, htagged.ends⟩)]
    rfl

end Occurrences

/-! ### Many words at once -/

/-- Spells words out among pieces that `before` stands before. A word that names a tag is kept. -/
def spellFrom (spelling : Text → Option Text) : (before : Text) → List Text → Text
  | _, [] => []
  | before, piece :: rest =>
    (if FollowsTag before then piece else (spelling piece).getD piece) ++
      spellFrom spelling (before ++ piece) rest

/-- Replaces all bare words of a text that have a spelling, each by its spelling and all at once. -/
def spellWords (spelling : Text → Option Text) (text : Text) : Text :=
  spellFrom spelling [] (pieces text)

/-- The same by leads, for a text that is read behind something else. -/
def spellLed (spelling : Text → Option Text) : Lead → List Text → Text
  | _, [] => []
  | lead, piece :: rest =>
    (if lead = .tag then piece else (spelling piece).getD piece) ++
      spellLed spelling (lead.next piece) rest

/-- Only words have spellings. -/
def OfWords (spelling : Text → Option Text) : Prop := ∀ word, spelling word ≠ none → IsRun word

section Spelling

variable {spelling : Text → Option Text} {rest : Text}

theorem OfWords.eq_none (hwords : OfWords spelling) {c : Char} (hc : isWord c = false) :
    spelling [c] = none := by
  by_contra hsome
  exact not_isRun_singleton hc (hwords [c] hsome)

theorem spellLed_gap (hwords : OfWords spelling) {c : Char} (hc : isWord c = false) (lead : Lead) :
    spellLed spelling lead (pieces (c :: rest)) =
      c :: spellLed spelling (lead.next [c]) (pieces rest) := by
  rw [pieces_gap hc, spellLed, hwords.eq_none hc, Option.getD_none, ite_self, List.cons_append,
    List.nil_append]

theorem spellLed_run {word : Text} (hword : IsRun word) (hrest : isWordAt rest.head? = false)
    (lead : Lead) : spellLed spelling lead (pieces (word ++ rest)) =
      (if lead = .tag then word else (spelling word).getD word) ++
        spellLed spelling (lead.next word) (pieces rest) := by
  rw [pieces_run hword hrest, spellLed]

theorem spellLed_blanks (hwords : OfWords spelling) {blanks : Text} (hne : blanks ≠ [])
    (hblanks : ∀ c ∈ blanks, isBlank c) {lead : Lead} (hlead : lead ≠ .other) :
    spellLed spelling lead (pieces (blanks ++ rest)) =
      blanks ++ spellLed spelling .tag (pieces rest) := by
  induction blanks generalizing lead with
  | nil => exact absurd rfl hne
  | cons c blanks ih =>
      have hblank := hblanks c List.mem_cons_self
      have hc := isWord_of_isBlank hblank
      rw [List.cons_append, spellLed_gap hwords hc, Lead.next_gap hc, if_pos ⟨hblank, hlead⟩]
      cases blanks with
      | nil => rfl
      | cons d blanks =>
          rw [ih (List.cons_ne_nil d blanks) (fun e he => hblanks e (List.mem_cons_of_mem c he))
            (by simp)]
          rfl

theorem spellFrom_eq_spellLed {before text : Text}
    (hapart : isWordAt before.getLast? = false ∨ isWordAt text.head? = false) :
    spellFrom spelling before (pieces text) =
      spellLed spelling (Lead.other.after before) (pieces text) := by
  induction text using pieces_induction generalizing before with
  | nil => rfl
  | gap c rest hc ih =>
      have hhead : isWordAt [c].head? = false := hc
      have hlead : Lead.other.after (before ++ [c]) = (Lead.other.after before).next [c] := by
        rw [Lead.after_append (.inr hhead), Lead.after_singleton hc]
      have hlast : isWordAt (before ++ [c]).getLast? = false := by
        rw [List.getLast?_append_of_ne_nil before (by simp)]
        exact hc
      rw [pieces_gap hc, spellFrom, spellLed, ih (.inl hlast), hlead]
      simp only [followsTag_iff]
  | run word rest hword hrest ih =>
      have hleft : isWordAt before.getLast? = false := by
        apply hapart.resolve_right
        rw [hword.head_append]
        exact Bool.true_eq_false.mp
      have hlead : Lead.other.after (before ++ word) = (Lead.other.after before).next word := by
        rw [Lead.after_append (.inl hleft), Lead.after_word hword]
      rw [pieces_run hword hrest, spellFrom, spellLed, ih (.inr hrest), hlead]
      simp only [followsTag_iff]

theorem spellWords_eq_spellLed (spelling : Text → Option Text) (text : Text) :
    spellWords spelling text = spellLed spelling .other (pieces text) :=
  spellFrom_eq_spellLed (.inl rfl)

end Spelling

/-! ### One alias -/

/-- The spelling of one alias. -/
def only (name canonical : Text) (word : Text) : Option Text :=
  if word = name then some canonical else none

section Alias

variable {name canonical rest : Text}

theorem ofWords_only (hname : IsRun name) (canonical : Text) : OfWords (only name canonical) := by
  intro word hsome
  rw [only] at hsome
  split at hsome
  · rename_i heq
    exact heq ▸ hname
  · exact absurd rfl hsome

theorem getD_only_self : (only name canonical name).getD name = canonical := by
  rw [only, if_pos rfl, Option.getD_some]

theorem getD_only_of_ne {word : Text} (hne : word ≠ name) :
    (only name canonical word).getD word = word := by
  rw [only, if_neg hne, Option.getD_none]

/-- The alias does not come next as a word, with or without white space before it. -/
def NotAhead (name text : Text) : Prop :=
  ∀ blanks behind, text = blanks ++ (name ++ behind) → (∀ c ∈ blanks, isBlank c) →
    isWordAt behind.head? = true

/-- If the alias does not come next, it makes no difference what was read last. -/
theorem spellLed_of_notAhead (hname : IsRun name) {text : Text} (hahead : NotAhead name text)
    (lead : Lead) : spellLed (only name canonical) lead (pieces text) =
      spellLed (only name canonical) .other (pieces text) := by
  induction text using pieces_induction generalizing lead with
  | nil => rfl
  | gap c rest hc ih =>
      rw [spellLed_gap (ofWords_only hname canonical) hc,
        spellLed_gap (ofWords_only hname canonical) hc, Lead.next_gap hc, Lead.next_gap hc]
      by_cases hblank : isBlank c
      · have hrest : NotAhead name rest := by
          intro blanks behind heq hblanks
          apply hahead (c :: blanks) behind (by rw [heq, List.cons_append])
          exact List.forall_mem_cons.mpr ⟨hblank, hblanks⟩
        rw [ih hrest, ih hrest (if isBlank c ∧ Lead.other ≠ .other then .tag else .other)]
      · rw [if_neg fun h => hblank h.1, if_neg fun h => hblank h.1]
  | run word rest hword hrest ih =>
      have hne : word ≠ name := by
        rintro rfl
        have hbehind := hahead [] rest rfl (by simp)
        rw [hrest] at hbehind
        cases hbehind
      rw [spellLed_run hword hrest, spellLed_run hword hrest, getD_only_of_ne hne, ite_self, ite_self,
        Lead.next_run hword, Lead.next_run hword]

/-! ### Reading on -/

theorem occurrence?_gap (hname : IsRun name) {c : Char} (hc : isWord c = false) (before : Option Char) :
    occurrence? name before (c :: rest) = none := by
  have htagged : taggedAt? name before (c :: rest) = none := by
    rw [Option.eq_none_iff_forall_ne_some]
    intro n hsome
    obtain ⟨keyword, blanks, behind, htagged, -⟩ := exists_of_taggedAt? hsome
    have hhead := (isRun_of_mem_tagKeywords htagged.isKeyword).head_append (blanks ++ (name ++ behind))
    rw [← htagged.eq] at hhead
    cases hc.symm.trans hhead
  have hfollows : ¬aliasFollows name before [] (c :: rest) := by
    intro hfollows
    obtain ⟨behind, heq, -⟩ := aliasFollows_iff.mp hfollows
    have hhead := hname.head_append behind
    rw [← heq] at hhead
    cases hc.symm.trans hhead
  rw [occurrence?, htagged]
  simp only [if_neg hfollows, ite_self]

theorem occurrence?_inside {before : Option Char} {text : Text} (hbefore : isWordAt before = true)
    (htext : isWordAt text.head? = true) : occurrence? name before text = none := by
  rw [occurrence?, isBoundary, hbefore, htext]
  rfl

/-- What belongs to an occurrence is passed over. -/
theorem replaceFrom_skip {passed : Text} (hne : passed ≠ []) (before : Option Char) (touching : Bool) :
    replaceFrom name canonical before passed.length touching (passed ++ rest) =
      replaceFrom name canonical passed.getLast? 0 true rest := by
  induction passed generalizing before touching with
  | nil => exact absurd rfl hne
  | cons c passed ih =>
      rw [List.cons_append, List.length_cons, replaceFrom]
      cases passed with
      | nil => rfl
      | cons d passed =>
          rw [ih (List.cons_ne_nil d passed), List.getLast?_cons_cons]

theorem replaceFrom_nil (hname : IsRun name) (before : Option Char) (touching : Bool) :
    replaceFrom name canonical before 0 touching [] = [] := by
  have htagged : taggedAt? name before [] = none := by simp [taggedAt?, tagKeywords]
  have hfollows : ¬aliasFollows name before [] [] := by
    intro hfollows
    obtain ⟨behind, heq, -⟩ := aliasFollows_iff.mp hfollows
    exact hname.1 (List.append_eq_nil_iff.mp heq.symm).1
  rw [replaceFrom, occurrence?, htagged]
  simp only [if_neg hfollows, ite_self]

theorem replaceFrom_found {found : Text} (hne : found ≠ []) {before : Option Char} {isTag : Bool}
    (hoccurrence : occurrence? name before (found ++ rest) = some ⟨found.length, isTag⟩)
    (touching : Bool) :
    replaceFrom name canonical before 0 touching (found ++ rest) =
      (if isTag then found else canonical) ++
        replaceFrom name canonical found.getLast? 0 true rest := by
  have hpass : replaceFrom name canonical before found.length false (found ++ rest) = _ :=
    replaceFrom_skip hne before false
  cases found with
  | nil => exact absurd rfl hne
  | cons c found =>
      rw [List.cons_append] at hoccurrence ⊢
      rw [List.cons_append, List.length_cons, replaceFrom] at hpass
      rw [replaceFrom, hoccurrence]
      simp only [List.length_cons, hpass, Occurrence.replacement, List.take_succ_cons, List.take_left]

/-- No occurrence begins inside a word. -/
theorem replaceFrom_inside {word : Text} (hword : ∀ c ∈ word, isWord c) {before : Option Char}
    (hbefore : isWordAt before = true) :
    replaceFrom name canonical before 0 false (word ++ rest) =
      word ++ replaceFrom name canonical (word.getLast?.or before) 0 false rest := by
  induction word generalizing before with
  | nil => rfl
  | cons c word ih =>
      have hc : isWordAt (c :: (word ++ rest)).head? = true := hword c List.mem_cons_self
      have hrest := ih (fun d hd => hword d (List.mem_cons_of_mem c hd))
        (show isWordAt (some c) = true from hc)
      rw [List.cons_append, replaceFrom, occurrence?_inside hbefore hc]
      simp only [hrest]
      cases word with
      | nil => rfl
      | cons d word => rw [List.getLast?_cons_cons]; rfl

/-! ### Piece by piece -/

theorem endsWord_run (hname : IsRun name) (before : Option Char) (read : Text) :
    endsWord before (read ++ name) rest ↔ isWordAt rest.head? = false := by
  have hlast := hname.last
  rw [← List.getLast?_append_of_ne_nil read hname.1] at hlast
  rw [endsWord, isBoundary]
  cases hget : (read ++ name).getLast? with
  | none =>
      rw [hget] at hlast
      cases hlast
  | some c =>
      rw [hget] at hlast
      rw [Option.some_or, hlast]
      cases isWordAt rest.head? <;> decide

theorem replaceFrom_gap (hname : IsRun name) {c : Char} (hc : isWord c = false) (before : Option Char)
    (touching : Bool) : replaceFrom name canonical before 0 touching (c :: rest) =
      c :: replaceFrom name canonical (some c) 0 false rest := by
  rw [replaceFrom, occurrence?_gap hname hc]

section Word

variable {word : Text} {before : Option Char}

theorem isBoundary_run (hword : IsRun word) (hbefore : isWordAt before = false) (rest : Text) :
    isBoundary before (word ++ rest).head? = true := by
  rw [isBoundary, hbefore, hword.head_append]
  rfl

/-- A tag keyword, white space and the alias are passed over together. -/
theorem replaceFrom_of_taggedAt? (hname : IsRun name) (hword : IsRun word)
    (hbefore : isWordAt before = false) {n : Nat}
    (htagged : taggedAt? name before (word ++ rest) = some n) :
    ∃ keyword blanks behind, TaggedAt name before (word ++ rest) keyword blanks behind ∧
      isWordAt behind.head? = false ∧ ∀ touching,
        replaceFrom name canonical before 0 touching (word ++ rest) =
          keyword ++ (blanks ++ (name ++ replaceFrom name canonical name.getLast? 0 true behind)) := by
  obtain ⟨keyword, blanks, behind, htag, rfl⟩ := exists_of_taggedAt? htagged
  refine ⟨keyword, blanks, behind, htag, (endsWord_run hname before _).mp htag.ends, ?_⟩
  intro touching
  have hfound : word ++ rest = (keyword ++ (blanks ++ name)) ++ behind := by
    rw [htag.eq]
    simp
  have hlast : (keyword ++ (blanks ++ name)).getLast? = name.getLast? := by
    rw [List.getLast?_append_of_ne_nil _ (by simp [hname.1]), List.getLast?_append_of_ne_nil _ hname.1]
  have hoccurrence : occurrence? name before (word ++ rest) =
      some ⟨(keyword ++ (blanks ++ name)).length, true⟩ := by
    rw [occurrence?, if_pos (isBoundary_run hword hbefore rest), htagged]
  rw [hfound] at hoccurrence
  rw [hfound, replaceFrom_found (by simp [hname.1]) hoccurrence, if_pos rfl, hlast]
  simp

theorem replaceFrom_name (hname : IsRun name) (hbefore : isWordAt before = false)
    (hrest : isWordAt rest.head? = false) (htagged : taggedAt? name before (name ++ rest) = none)
    (touching : Bool) : replaceFrom name canonical before 0 touching (name ++ rest) =
      canonical ++ replaceFrom name canonical name.getLast? 0 true rest := by
  have hfollows : aliasFollows name before [] (name ++ rest) :=
    aliasFollows_iff.mpr ⟨rest, rfl, (endsWord_run hname before []).mpr hrest⟩
  have hoccurrence : occurrence? name before (name ++ rest) = some ⟨name.length, false⟩ := by
    rw [occurrence?, if_pos (isBoundary_run hname hbefore rest), htagged]
    exact if_pos hfollows
  rw [replaceFrom_found hname.1 hoccurrence, if_neg Bool.false_ne_true]

theorem replaceFrom_other (hname : IsRun name) (hword : IsRun word) (hne : word ≠ name)
    (hrest : isWordAt rest.head? = false) (htagged : taggedAt? name before (word ++ rest) = none)
    (touching : Bool) : replaceFrom name canonical before 0 touching (word ++ rest) =
      word ++ replaceFrom name canonical word.getLast? 0 false rest := by
  have hfollows : ¬aliasFollows name before [] (word ++ rest) := by
    intro hfollows
    obtain ⟨behind, heq, hends⟩ := aliasFollows_iff.mp hfollows
    exact hne (hword.append_inj hname hrest ((endsWord_run hname before []).mp hends) heq).1
  have hoccurrence : occurrence? name before (word ++ rest) = none := by
    rw [occurrence?, htagged]
    simp only [if_neg hfollows, ite_self]
  obtain ⟨c, inside, rfl⟩ := List.exists_cons_of_ne_nil hword.1
  have hc : isWordAt (some c) = true := hword.2 c List.mem_cons_self
  rw [List.cons_append] at hoccurrence ⊢
  rw [replaceFrom, hoccurrence]
  simp only [replaceFrom_inside (fun d hd => hword.2 d (List.mem_cons_of_mem c hd)) hc]
  cases inside with
  | nil => rfl
  | cons d inside => rw [List.getLast?_cons_cons]; rfl

/-- Where a keyword was not read together with the alias, the alias does not come next. -/
theorem notAhead_of_taggedAt? (hname : IsRun name) (hkeyword : word ∈ tagKeywords)
    (hrest : isWordAt rest.head? = false) (htagged : taggedAt? name before (word ++ rest) = none) :
    NotAhead name rest := by
  rintro blanks behind rfl hblanks
  by_contra hbehind
  have hne : blanks ≠ [] := by
    rintro rfl
    rw [List.nil_append, hname.head_append] at hrest
    cases hrest
  have hends := (endsWord_run hname before (word ++ blanks)).mpr (Bool.of_not_eq_true hbehind)
  have hsome := TaggedAt.isSome ⟨rfl, hkeyword, hne, hblanks, hends⟩
  rw [htagged] at hsome
  cases hsome

end Word

/-- A tag keyword, white space and the alias are kept together. -/
theorem spellLed_tagged (hname : IsRun name) (hnot : name ∉ tagKeywords) {keyword blanks : Text}
    (hkeyword : keyword ∈ tagKeywords) (hne : blanks ≠ []) (hblanks : ∀ c ∈ blanks, isBlank c)
    (hrest : isWordAt rest.head? = false) :
    spellLed (only name canonical) .other (pieces (keyword ++ (blanks ++ (name ++ rest)))) =
      keyword ++ (blanks ++ (name ++ spellLed (only name canonical) .other (pieces rest))) := by
  have hdiffer : keyword ≠ name := by
    rintro rfl
    exact hnot hkeyword
  have hhead : isWordAt (blanks ++ (name ++ rest)).head? = false := by
    rw [List.head?_append_of_ne_nil _ hne]
    exact isWordAt_head?_of_blank hblanks
  have hrun := isRun_of_mem_tagKeywords hkeyword
  rw [spellLed_run hrun hhead, Lead.next_run hrun, if_pos hkeyword, getD_only_of_ne hdiffer, ite_self,
    spellLed_blanks (ofWords_only hname canonical) hne hblanks (by simp), spellLed_run hname hrest,
    if_pos rfl, Lead.next_run hname, if_neg hnot]

/-- From a place that is not inside a word on, exactly the bare occurrences of the alias are replaced. -/
theorem replaceFrom_eq_spellLed (hname : IsRun name) (hnot : name ∉ tagKeywords) {before : Option Char}
    {text : Text} (hapart : isWordAt before = false ∨ isWordAt text.head? = false) (touching : Bool) :
    replaceFrom name canonical before 0 touching text =
      spellLed (only name canonical) .other (pieces text) := by
  -- By length, since an occurrence as a tag takes several pieces at once.
  induction hlength : text.length using Nat.strong_induction_on generalizing text before touching with
  | _ n ih =>
      subst hlength
      rcases exists_first_piece text with rfl | ⟨c, rest, rfl, hc⟩ | ⟨word, rest, rfl, hword, hrest⟩
      · exact replaceFrom_nil hname before touching
      · have hbefore : isWordAt (some c) = false := hc
        rw [replaceFrom_gap hname hc, spellLed_gap (ofWords_only hname canonical) hc,
          Lead.other_next_gap hc, ih rest.length (Nat.lt_succ_self _) (.inl hbefore) false rfl]
      · have hbefore : isWordAt before = false := by
          apply hapart.resolve_right
          rw [hword.head_append]
          exact Bool.true_eq_false.mp
        have hshort : rest.length < (word ++ rest).length := by
          rw [List.length_append]
          exact Nat.lt_add_of_pos_left (List.length_pos_iff.mpr hword.1)
        cases htagged : taggedAt? name before (word ++ rest) with
        | some length =>
            obtain ⟨keyword, blanks, behind, htag, hbehind, hreplace⟩ :=
              replaceFrom_of_taggedAt? hname hword hbefore htagged
            rw [hreplace, ih behind.length ?_ (.inr hbehind) true rfl, htag.eq,
              spellLed_tagged hname hnot htag.isKeyword htag.ne_nil htag.blank hbehind]
            have hpos := List.length_pos_iff.mpr hname.1
            rw [htag.eq]
            simp only [List.length_append]
            omega
        | none =>
            rw [spellLed_run hword hrest, if_neg (by simp)]
            by_cases heq : word = name
            · subst heq
              rw [replaceFrom_name hname hbefore hrest htagged, getD_only_self, Lead.next_run hword,
                if_neg hnot, ih rest.length hshort (.inr hrest) true rfl]
            · rw [replaceFrom_other hname hword heq hrest htagged, getD_only_of_ne heq,
                ih rest.length hshort (.inr hrest) false rfl, Lead.next_run hword]
              split
              · rename_i hkeyword
                have hahead := notAhead_of_taggedAt? hname hkeyword hrest htagged
                rw [spellLed_of_notAhead hname hahead .keyword]
              · rfl

end Alias

end Substitution

/-- An alias that is a word and no tag keyword is spelled out exactly where it stands bare. -/
theorem spellOut_eq_spellWords {name : Text} (hname : name.IsRun)
    (hnot : name ∉ Substitution.tagKeywords) (canonical code : Text) :
    spellOut name canonical code = Substitution.spellWords (Substitution.only name canonical) code := by
  rw [spellOut, Substitution.spellWords_eq_spellLed]
  exact Substitution.replaceFrom_eq_spellLed hname hnot (.inl rfl) false

end PlainC
