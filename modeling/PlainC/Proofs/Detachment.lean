import PlainC.Typedef.Unfolding
import PlainC.Proofs.Lexing

/-!
# Taking a tag body out of its typedef

A typedef that holds a tag body is written as the keyword, the body and the declarators, with other
text between. To detach the body is to drop the keyword with one blank behind it and of the declarators
all but their line feeds, and it touches nothing else of the text. The lemmas say so for a declaration
that stands where its span says.
-/

namespace PlainC

open Position

namespace Text

/-- What is left of a text when all but its line feeds go. -/
def feeds (text : Text) : Text := text.filter (· = '\n')

theorem feeds_of_not_mem {text : Text} (htext : '\n' ∉ text) : feeds text = [] := by
  rw [feeds, List.filter_eq_nil_iff]
  intro c hc
  simp only [decide_eq_true_eq]
  rintro rfl
  exact htext hc

theorem feeds_append (before after : Text) :
    feeds (before ++ after) = feeds before ++ feeds after :=
  List.filter_append before after

@[simp]
theorem count_feeds (text : Text) : (feeds text).count '\n' = text.count '\n' := by
  rw [feeds, List.count_filter (by simp)]

theorem feeds_opened {below : List Text} (hbelow : ∀ line ∈ below, '\n' ∉ line) :
    feeds (opened below) = opened (below.map fun _ => []) := by
  induction below with
  | nil => rfl
  | cons line below ih =>
      have hline : feeds line = [] := feeds_of_not_mem (hbelow line List.mem_cons_self)
      have hrest := ih fun other hother => hbelow other (List.mem_cons_of_mem line hother)
      rw [opened_cons, List.map_cons, opened_cons, feeds_append, hrest, feeds,
        List.filter_cons_of_pos (by simp), ← feeds, hline]

@[simp]
theorem count_dropBlank (text : Text) : (dropBlank text).count '\n' = text.count '\n' := by
  obtain ⟨blank, hblank, rfl | rfl | rfl⟩ := exists_blank text
  · exact congrArg (List.count '\n') hblank.symm
  · conv_rhs => rw [hblank]
    simp
  · conv_rhs => rw [hblank]
    simp

/-- A text that begins with something else than a space, a tab or a line feed. -/
def StartsBare (text : Text) : Prop := ∃ c rest, text = c :: rest ∧ c ≠ ' ' ∧ c ≠ '\t' ∧ c ≠ '\n'

theorem StartsBare.ne_nil {text : Text} (hbare : StartsBare text) : text ≠ [] := by
  obtain ⟨c, rest, rfl, -⟩ := hbare
  exact List.cons_ne_nil c rest

/-- Dropping a blank stops at a text that begins with none. -/
theorem dropBlank_append_of_startsBare (before : Text) {text : Text} (hbare : StartsBare text)
    (rest : Text) : dropBlank (before ++ (text ++ rest)) = dropBlank before ++ (text ++ rest) := by
  cases before with
  | nil =>
      obtain ⟨c, behind, rfl, hspace, htab, -⟩ := hbare
      exact if_neg (not_or.mpr ⟨hspace, htab⟩)
  | cons c before =>
      rw [List.cons_append, dropBlank, dropBlank]
      split
      · rfl
      · rfl

end Text

namespace Source

theorem clearLines_place (above inner below : List Text) :
    (⟨above ++ (inner ++ below)⟩ : Source).clearLines (above.length + 1)
      (above.length + inner.length) = ⟨above ++ ((inner.map fun _ => []) ++ below)⟩ := by
  rw [clearLines, Source.mk.injEq, List.mapIdx_append, List.mapIdx_append]
  congr 1
  · apply List.ext_getElem (by simp)
    intro i hi hi'
    rw [List.getElem_mapIdx, if_neg (by omega)]
  · congr 1
    · apply List.ext_getElem (by simp)
      intro i hi hi'
      rw [List.length_mapIdx] at hi
      rw [List.getElem_mapIdx, if_pos (by omega), List.getElem_map]
    · apply List.ext_getElem (by simp)
      intro i hi hi'
      rw [List.getElem_mapIdx, if_neg (by omega)]

end Source

namespace Unfolding

/-- The end of a line goes, from a column on. -/
theorem clearColumns_lineEnd (above below : List Text) (left right : Text) :
    clearColumns ⟨above ++ (left ++ right) :: below⟩ (above.length + 1) (Text.byteLength left + 1)
      (Text.byteLength (left ++ right)) = ⟨above ++ left :: below⟩ := by
  have hdelete : (⟨above ++ (left ++ right) :: below⟩ : Source).deleteColumns? (above.length + 1)
      (Text.byteLength left + 1) (Text.byteLength (left ++ right)) = some ⟨above ++ left :: below⟩ := by
    rw [Source.deleteColumns?_eq_some_iff]
    exact ⟨above, left, right, [], below, by simp, rfl, rfl, by simp, by simp⟩
  rw [clearColumns, hdelete, Option.getD_some]

/-- The beginning of a line goes, up to a column. -/
theorem clearColumns_lineStart (above below : List Text) (left right : Text) :
    clearColumns ⟨above ++ (left ++ right) :: below⟩ (above.length + 1) 1 (Text.byteLength left) =
      ⟨above ++ right :: below⟩ := by
  have hdelete : (⟨above ++ (left ++ right) :: below⟩ : Source).deleteColumns? (above.length + 1) 1
      (Text.byteLength left) = some ⟨above ++ right :: below⟩ := by
    rw [Source.deleteColumns?_eq_some_iff]
    exact ⟨above, [], left, right, below, by simp, rfl, rfl, by simp, by simp⟩
  rw [clearColumns, hdelete, Option.getD_some]

section Declarators

variable {before declarators rest : Text} {tag declaration : Span}

theorem removeDeclarators_within_line (hsame : tag.last.line = declaration.last.line)
    (hbody : origin.after before = ⟨tag.last.line, tag.last.col + 1⟩)
    (hlast : origin.after (before ++ declarators) =
      ⟨declaration.last.line, declaration.last.col + 1⟩) :
    removeDeclarators (.ofText (before ++ declarators ++ rest)) tag declaration =
      .ofText (before ++ declarators.feeds ++ rest) := by
  have hfeed : '\n' ∉ declarators := by
    have hline := congrArg Position.line hlast
    rw [after_append, line_after, hbody] at hline
    rw [← List.count_eq_zero]
    simp only at hline
    omega
  have hcol := hlast
  rw [after_append, hbody, after_of_not_mem hfeed, Position.mk.injEq] at hcol
  have hdelete : (Source.ofText (before ++ declarators ++ rest)).deleteColumns? tag.last.line
      (tag.last.col + 1) declaration.last.col = some (.ofText (before ++ rest)) := by
    rw [Source.deleteColumns?_ofText_eq_some_iff]
    exact ⟨before, declarators, rest, rfl, hfeed, hbody, hcol.2.symm, rfl⟩
  rw [removeDeclarators, if_pos hsame, clearColumns, hdelete, Option.getD_some,
    Text.feeds_of_not_mem hfeed, List.append_nil]

theorem removeDeclarators_lines {above inner below : List Text} {left right last tail : Text}
    (hbody : tag.last = ⟨above.length + 1, Text.byteLength left⟩)
    (hlast : declaration.last = ⟨above.length + 1 + inner.length + 1, Text.byteLength last⟩) :
    removeDeclarators ⟨above ++ (left ++ right) :: (inner ++ (last ++ tail) :: below)⟩ tag declaration =
      ⟨above ++ left :: ((inner.map fun _ => []) ++ tail :: below)⟩ := by
  have hclear := Source.clearLines_place (above ++ [left]) inner ((last ++ tail) :: below)
  have hstart := clearColumns_lineStart (above ++ left :: inner.map fun _ => []) below last tail
  simp only [List.append_assoc, List.cons_append, List.nil_append, List.length_append,
    List.length_cons, List.length_nil, List.length_map] at hclear hstart
  rw [Nat.add_comm inner.length 1, ← Nat.add_assoc] at hstart
  rw [removeDeclarators, hbody, hlast, if_neg (by simp only; omega)]
  simp only [Source.line?_place, Option.getD_some, clearColumns_lineEnd]
  rw [Nat.add_sub_cancel, hclear]
  exact hstart

theorem removeDeclarators_across_lines (hacross : tag.last.line ≠ declaration.last.line)
    (hbody : origin.after before = ⟨tag.last.line, tag.last.col + 1⟩)
    (hlast : origin.after (before ++ declarators) =
      ⟨declaration.last.line, declaration.last.col + 1⟩) :
    removeDeclarators (.ofText (before ++ declarators ++ rest)) tag declaration =
      .ofText (before ++ declarators.feeds ++ rest) := by
  obtain ⟨above, left, rfl, habove, hleft⟩ := Text.exists_closed before
  obtain ⟨right, under, rfl, hright, hunder⟩ := Text.exists_opened declarators
  obtain ⟨tail, below, rfl, htail, hbelow⟩ := Text.exists_opened rest
  have hjoined : '\n' ∉ left ++ right := by simp [hleft, hright]
  rw [origin_after_place habove hleft, Position.mk.injEq] at hbody
  rcases List.eq_nil_or_concat' under with rfl | ⟨inner, last, rfl⟩
  · -- Without a line feed the declarators would end on the line of the body.
    rw [Text.opened_nil, List.append_nil, List.append_assoc, origin_after_place habove hjoined,
      Position.mk.injEq] at hlast
    exact absurd (hbody.1.symm.trans hlast.1) hacross
  · obtain ⟨hinner, hlastLine⟩ := List.forall_mem_append.mp hunder
    rw [List.forall_mem_singleton] at hlastLine
    have hplace : Text.closed above ++ left ++ (right ++ Text.opened (inner ++ [last])) =
        Text.closed (above ++ (left ++ right) :: inner) ++ last := by
      rw [List.append_assoc, ← List.append_assoc left, Text.append_opened_concat, Text.closed_append,
        List.append_assoc]
    rw [hplace, origin_after_place
      (List.forall_mem_append.mpr ⟨habove, List.forall_mem_cons.mpr ⟨hjoined, hinner⟩⟩) hlastLine,
      Position.mk.injEq, List.length_append, List.length_cons] at hlast
    have hsource : Source.ofText (Text.closed above ++ left ++ (right ++ Text.opened (inner ++ [last]))
        ++ (tail ++ Text.opened below)) =
        ⟨above ++ (left ++ right) :: (inner ++ (last ++ tail) :: below)⟩ := by
      have hjoined' : '\n' ∉ last ++ tail := by simp [hlastLine, htail]
      rw [← Source.ofText_place habove hjoined
        (List.forall_mem_append.mpr ⟨hinner, List.forall_mem_cons.mpr ⟨hjoined', hbelow⟩⟩)]
      simp
    have hresult : Source.ofText (Text.closed above ++ left ++
        (right ++ Text.opened (inner ++ [last])).feeds ++ (tail ++ Text.opened below)) =
        ⟨above ++ left :: ((inner.map fun _ => []) ++ tail :: below)⟩ := by
      rw [← Source.ofText_place habove hleft
        (List.forall_mem_append.mpr ⟨by simp, List.forall_mem_cons.mpr ⟨htail, hbelow⟩⟩),
        Text.feeds_append, Text.feeds_of_not_mem hright, Text.feeds_opened hunder]
      simp
    rw [hsource, hresult]
    apply removeDeclarators_lines
    · rw [hbody.1, Nat.succ.inj hbody.2]
    · rw [show above.length + 1 + inner.length + 1 = declaration.last.line by omega,
        Nat.succ.inj hlast.2]

/-- Of the declarators only the line feeds stay. -/
theorem removeDeclarators_ofText
    (hbody : origin.after before = ⟨tag.last.line, tag.last.col + 1⟩)
    (hlast : origin.after (before ++ declarators) =
      ⟨declaration.last.line, declaration.last.col + 1⟩) :
    removeDeclarators (.ofText (before ++ declarators ++ rest)) tag declaration =
      .ofText (before ++ declarators.feeds ++ rest) := by
  by_cases hsame : tag.last.line = declaration.last.line
  · exact removeDeclarators_within_line hsame hbody hlast
  · exact removeDeclarators_across_lines hsame hbody hlast

end Declarators

/-- A text cut around a typedef with a tag body: what stands before the typedef, before its keyword,
between the keyword and the body, in the body, behind it, and behind the typedef. -/
structure CutTypedef where
  front : Text
  gap : Text
  between : Text
  body : Text
  declarators : Text
  rest : Text

namespace CutTypedef

def beforeKeyword (cut : CutTypedef) : Text := cut.front ++ cut.gap

def beforeBody (cut : CutTypedef) : Text := cut.beforeKeyword ++ "typedef".toList ++ cut.between

def text (cut : CutTypedef) : Text := cut.beforeBody ++ cut.body ++ cut.declarators ++ cut.rest

/-- What is left of the body and of what stands behind it without the declarators. -/
def kept (cut : CutTypedef) : Text := cut.body ++ (cut.declarators.feeds ++ cut.rest)

/-- What stands before the body without the keyword and one blank behind it. -/
def lead (cut : CutTypedef) : Text := cut.beforeKeyword ++ cut.between.dropBlank

/-- The text without the declarators, the keyword and one blank that follows the keyword then. -/
def detached (cut : CutTypedef) : Text := cut.beforeKeyword ++ (cut.between ++ cut.kept).dropBlank

theorem count_keyword : List.count '\n' "typedef".toList = 0 := by decide

theorem count_lead (cut : CutTypedef) : cut.lead.count '\n' = cut.beforeBody.count '\n' := by
  simp only [lead, beforeBody, List.count_append, Text.count_dropBlank, count_keyword, Nat.add_zero]

theorem count_detached (cut : CutTypedef) : cut.detached.count '\n' = cut.text.count '\n' := by
  simp only [detached, text, beforeBody, kept, List.count_append, Text.count_dropBlank,
    Text.count_feeds, count_keyword]
  omega

/-- The pieces stand where the spans of the tag, of the declaration and of its keyword say. -/
structure StandsAt (cut : CutTypedef) (tag declaration : Span) (keyword : Token) : Prop where
  first : origin.after cut.front = declaration.first
  keywordFirst : origin.after cut.beforeKeyword = keyword.span.first
  keywordLast : origin.after (cut.beforeKeyword ++ "typedef".toList) =
    ⟨keyword.span.last.line, keyword.span.last.col + 1⟩
  bodyFirst : origin.after cut.beforeBody = tag.first
  bodyLast : origin.after (cut.beforeBody ++ cut.body) = ⟨tag.last.line, tag.last.col + 1⟩
  last : origin.after (cut.beforeBody ++ cut.body ++ cut.declarators) =
    ⟨declaration.last.line, declaration.last.col + 1⟩

end CutTypedef

/-- To detach a body is to delete the declarators but for their line feeds, and then the keyword. -/
theorem detach_cut {cut : CutTypedef} {tag declaration : Span} {keyword : Token}
    {others : List Token} (hstands : cut.StandsAt tag declaration keyword)
    (htokens : (Source.ofText cut.text).tokens declaration = .ok (keyword :: others))
    (hkind : keyword.kind = some .typedefKeyword) (blanked : List Nat) :
    detach ⟨.ofText cut.text, blanked⟩ tag declaration = .ok ⟨.ofText cut.detached, blanked⟩ := by
  have hdeclarators : removeDeclarators (.ofText cut.text) tag declaration =
      .ofText (cut.beforeKeyword ++ "typedef".toList ++ (cut.between ++ cut.kept)) := by
    rw [CutTypedef.text, removeDeclarators_ofText hstands.bodyLast hstands.last]
    simp only [CutTypedef.beforeBody, CutTypedef.kept, List.append_assoc]
  have hdelete := Source.deleteToken?_ofText (cut.between ++ cut.kept)
    (by decide : '\n' ∉ "typedef".toList) hstands.keywordFirst hstands.keywordLast
  rw [detach]
  simp only [htokens, hkind, hdeclarators, hdelete, bind, Except.bind, pure, Except.pure, if_true,
    Option.getD_some]
  rfl

/-- A text in which the keyword is the first token of a declaration and a tag body stands behind it can be
cut around that declaration. -/
theorem exists_cut {text body : Text} {tag declaration : Span} {keyword : Token}
    {others : List Token}
    (htokens : (Source.ofText text).tokens declaration = .ok (keyword :: others))
    (hkind : keyword.kind = some .typedefKeyword)
    (hbody : (Source.ofText text).extract? tag = some body)
    (hbehind : keyword.span.last.Precedes tag.first) (hinside : tag.last.before declaration.last) :
    ∃ cut : CutTypedef, cut.text = text ∧ cut.body = body ∧ cut.StandsAt tag declaration keyword := by
  obtain ⟨-, front, gap, behind, rest, htext, hfront, hend, hfirst, hlast⟩ :=
    Source.standsFirst_of_tokens pattern_of_typedef (by decide) (by decide) htokens hkind
  obtain ⟨front', rest', htext', hfront', hend'⟩ := Source.extract?_ofText_eq_some_iff.mp hbody
  have hafter : (origin.after (front ++ gap ++ "typedef".toList)).before (origin.after front') := by
    rwa [hlast, hfront', next_before_iff]
  obtain ⟨between, rfl, -⟩ := exists_append_of_before
    (show front ++ gap ++ "typedef".toList ++ (behind ++ rest) = front' ++ (body ++ rest') by
      rw [← List.append_assoc front', ← htext', htext]; simp) hafter
  have hbefore : (origin.after (front ++ gap ++ "typedef".toList ++ between ++ body)).before
      (origin.after (front ++ (gap ++ "typedef".toList ++ behind))) := by
    rwa [hend, hend', next_before_next_iff]
  obtain ⟨declarators, hdeclarators, rfl⟩ :=
    exists_append_of_before (htext'.symm.trans htext) hbefore
  rw [hdeclarators] at hend
  refine ⟨⟨front, gap, between, body, declarators, rest⟩, ?_, rfl, hfront, hfirst, hlast, hfront', hend',
    hend⟩
  rw [htext', ← List.append_assoc]
  rfl

/-- A typedef with a tag body, as it is written: what stands before the keyword, between the keyword
and the body, in the body, and behind it. -/
structure WrittenTypedef where
  gap : Text
  between : Text
  body : Text
  declarators : Text
  bare : Text.StartsBare body

instance : Inhabited WrittenTypedef :=
  ⟨⟨[], [], "enum".toList, [], 'e', "num".toList, rfl, by decide, by decide, by decide⟩⟩

namespace WrittenTypedef

/-- A text in which the typedef is written, cut around it. -/
def cut (typedef : WrittenTypedef) (front rest : Text) : CutTypedef :=
  ⟨front, typedef.gap, typedef.between, typedef.body, typedef.declarators, rest⟩

def beforeBody (typedef : WrittenTypedef) : Text :=
  typedef.gap ++ "typedef".toList ++ typedef.between

def whole (typedef : WrittenTypedef) : Text :=
  typedef.beforeBody ++ typedef.body ++ typedef.declarators

/-- What stands before the body when it is detached. -/
def lead (typedef : WrittenTypedef) : Text := (typedef.cut [] []).lead

/-- What is written in place of the typedef when the body is detached. -/
def detached (typedef : WrittenTypedef) : Text :=
  typedef.lead ++ typedef.body ++ typedef.declarators.feeds

theorem whole_ne_nil (typedef : WrittenTypedef) : typedef.whole ≠ [] := by
  simp [whole, typedef.bare.ne_nil]

theorem beforeBody_cut (typedef : WrittenTypedef) (front rest : Text) :
    (typedef.cut front rest).beforeBody = front ++ typedef.beforeBody := by
  simp [cut, CutTypedef.beforeBody, CutTypedef.beforeKeyword, beforeBody]

theorem text_cut (typedef : WrittenTypedef) (front rest : Text) :
    (typedef.cut front rest).text = front ++ typedef.whole ++ rest := by
  rw [CutTypedef.text, beforeBody_cut]
  simp [cut, whole]

theorem detached_cut (typedef : WrittenTypedef) (front rest : Text) :
    (typedef.cut front rest).detached = front ++ typedef.detached ++ rest := by
  simp [cut, CutTypedef.detached, CutTypedef.kept, CutTypedef.beforeKeyword, detached, lead,
    CutTypedef.lead, Text.dropBlank_append_of_startsBare typedef.between typedef.bare]

theorem count_lead (typedef : WrittenTypedef) :
    typedef.lead.count '\n' = typedef.beforeBody.count '\n' := by
  rw [lead, CutTypedef.count_lead, beforeBody_cut, List.nil_append]

theorem count_detached (typedef : WrittenTypedef) :
    typedef.detached.count '\n' = typedef.whole.count '\n' := by
  have hcount := (typedef.cut [] []).count_detached
  rwa [detached_cut, text_cut, List.append_nil, List.append_nil, List.nil_append, List.nil_append]
    at hcount

/-- The typedef is where the span of its declaration begins, its body is where the span of the tag
says, and its first token is the keyword. -/
structure StandsAt (typedef : WrittenTypedef) (tag declaration : Span) : Prop where
  last : declaration.first.after typedef.whole =
    ⟨declaration.last.line, declaration.last.col + 1⟩
  bodyFirst : declaration.first.after typedef.beforeBody = tag.first
  bodyLast : declaration.first.after (typedef.beforeBody ++ typedef.body) =
    ⟨tag.last.line, tag.last.col + 1⟩
  keyword : ∃ keyword others,
    Token.place declaration.first (lex typedef.whole) = .ok (keyword :: others) ∧
    keyword.kind = some .typedefKeyword ∧
    declaration.first.after typedef.gap = keyword.span.first ∧
    declaration.first.after (typedef.gap ++ "typedef".toList) =
      ⟨keyword.span.last.line, keyword.span.last.col + 1⟩

theorem StandsAt.first_before_last {typedef : WrittenTypedef} {tag declaration : Span}
    (h : typedef.StandsAt tag declaration) : declaration.first.before declaration.last := by
  have hprecedes := precedes_after typedef.whole_ne_nil declaration.first
  rwa [h.last, precedes_next_iff] at hprecedes

theorem StandsAt.body_behind_first {typedef : WrittenTypedef} {tag declaration : Span}
    (h : typedef.StandsAt tag declaration) : declaration.first.before tag.first := by
  rw [← h.bodyFirst]
  exact before_after declaration.first typedef.beforeBody

theorem StandsAt.body_first_before_last {typedef : WrittenTypedef} {tag declaration : Span}
    (h : typedef.StandsAt tag declaration) : tag.first.before tag.last := by
  have hprecedes := precedes_after typedef.bare.ne_nil tag.first
  rwa [← h.bodyFirst, ← after_append, h.bodyLast, h.bodyFirst, precedes_next_iff] at hprecedes

theorem StandsAt.body_before_last {typedef : WrittenTypedef} {tag declaration : Span}
    (h : typedef.StandsAt tag declaration) : tag.last.before declaration.last := by
  have hbefore := before_after (declaration.first.after (typedef.beforeBody ++ typedef.body))
    typedef.declarators
  rwa [← after_append, ← whole, h.last, h.bodyLast, next_before_next_iff] at hbefore

variable {typedef : WrittenTypedef} {tag declaration : Span} {front : Text}

/-- The typedef stands at its spans in the text that is cut around it. -/
theorem StandsAt.exists_cut (h : typedef.StandsAt tag declaration)
    (hfront : origin.after front = declaration.first) (rest : Text) :
    ∃ keyword others, (typedef.cut front rest).StandsAt tag declaration keyword ∧
      Token.place declaration.first (lex typedef.whole) = .ok (keyword :: others) ∧
      keyword.kind = some .typedefKeyword := by
  obtain ⟨keyword, others, hplace, hkind, hfirst, hlast⟩ := h.keyword
  refine ⟨keyword, others, ⟨hfront, ?_, ?_, ?_, ?_, ?_⟩, hplace, hkind⟩
  · rw [CutTypedef.beforeKeyword, after_append, cut, hfront, hfirst]
  · rw [CutTypedef.beforeKeyword, List.append_assoc, after_append, cut, hfront, hlast]
  · rw [beforeBody_cut, after_append, hfront, h.bodyFirst]
  · rw [beforeBody_cut, List.append_assoc, after_append, hfront, cut, h.bodyLast]
  · rw [beforeBody_cut, List.append_assoc, List.append_assoc, after_append, hfront, ← h.last, whole,
      List.append_assoc, cut]

end WrittenTypedef

/-- To detach the body of a typedef that stands at its spans is to write the detached form in its
place. -/
theorem detach_ofText {typedef : WrittenTypedef} {tag declaration : Span} {front : Text}
    (hstands : typedef.StandsAt tag declaration) (hfront : origin.after front = declaration.first)
    (rest : Text) (blanked : List Nat) :
    detach ⟨.ofText (front ++ typedef.whole ++ rest), blanked⟩ tag declaration =
      .ok ⟨.ofText (front ++ typedef.detached ++ rest), blanked⟩ := by
  obtain ⟨keyword, others, hcut, hplace, hkind⟩ := hstands.exists_cut hfront rest
  have hextract : (Source.ofText (front ++ typedef.whole ++ rest)).extract? declaration =
      some typedef.whole :=
    Source.extract?_ofText_eq_some_iff.mpr
      ⟨front, rest, rfl, hfront, by rw [after_append, hfront, hstands.last]⟩
  have htokens : (Source.ofText (typedef.cut front rest).text).tokens declaration =
      .ok (keyword :: others) := by
    rw [typedef.text_cut, Source.tokens, hextract]
    exact hplace
  rw [← typedef.text_cut, ← typedef.detached_cut]
  exact detach_cut hcut htokens hkind blanked

/-- A typedef whose first token is the keyword and whose tag body stands behind that is written so that
its body can be detached. -/
theorem exists_standsAt {text body : Text} {tag declaration : Span} {keyword : Token}
    {others : List Token}
    (htokens : (Source.ofText text).tokens declaration = .ok (keyword :: others))
    (hkind : keyword.kind = some .typedefKeyword)
    (hbody : (Source.ofText text).extract? tag = some body) (hbare : Text.StartsBare body)
    (hbehind : keyword.span.last.Precedes tag.first) (hinside : tag.last.before declaration.last) :
    ∃ typedef : WrittenTypedef, typedef.body = body ∧ typedef.StandsAt tag declaration ∧
      ∃ front rest, text = front ++ typedef.whole ++ rest ∧
        origin.after front = declaration.first := by
  obtain ⟨⟨front, gap, between, body, declarators, rest⟩, htext, rfl, hstands⟩ :=
    exists_cut htokens hkind hbody hbehind hinside
  let typedef : WrittenTypedef := ⟨gap, between, body, declarators, hbare⟩
  have hcut : (typedef.cut front rest).StandsAt tag declaration keyword := hstands
  have hwhole : origin.after (front ++ typedef.whole) =
      ⟨declaration.last.line, declaration.last.col + 1⟩ := by
    have hlast := hcut.last
    rw [typedef.beforeBody_cut, List.append_assoc, List.append_assoc] at hlast
    rw [WrittenTypedef.whole, List.append_assoc]
    exact hlast
  have htext' : text = front ++ typedef.whole ++ rest := by
    rw [← typedef.text_cut]
    exact htext.symm
  have hextract : (Source.ofText text).extract? declaration = some typedef.whole :=
    Source.extract?_ofText_eq_some_iff.mpr ⟨front, rest, htext', hstands.first, hwhole⟩
  rw [Source.tokens, hextract] at htokens
  refine ⟨typedef, rfl, ⟨?_, ?_, ?_, keyword, others, htokens, hkind, ?_, ?_⟩, front, rest, htext',
    hstands.first⟩
  · rw [← hstands.first, ← after_append, hwhole]
  · rw [← hstands.first, ← after_append, ← typedef.beforeBody_cut front rest, hcut.bodyFirst]
  · rw [← hstands.first, ← after_append, ← List.append_assoc, ← typedef.beforeBody_cut front rest]
    exact hcut.bodyLast
  · rw [← hstands.first, ← after_append]
    exact hcut.keywordFirst
  · rw [← hstands.first, ← after_append, ← List.append_assoc]
    exact hcut.keywordLast

end Unfolding

end PlainC
