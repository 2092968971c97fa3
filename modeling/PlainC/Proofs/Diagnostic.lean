import PlainC.Diagnostic
import PlainC.Proofs.Margins

/-!
# Diagnostics read again

What was read as a diagnostic is read the same from its printed form. Behind the file stand two numbers
and a label, each behind a colon. Were these to be found before the end of the file, they would either
lie in the file up to the colon that follows it, and then the file would have been read shorter in the
first place, or the printed line or column would be the label, which is never a number.
-/

namespace PlainC

namespace Text

/-- Two cuts of a text at a mark, the second of them at the first mark there is. -/
theorem cases_of_append_mark {mark : Char} {before after piece rest : Text} (hpiece : mark ∉ piece)
    (h : before ++ mark :: after = piece ++ mark :: rest) :
    before = piece ∧ after = rest ∨
      ∃ more, before = piece ++ mark :: more ∧ more ++ mark :: after = rest := by
  rcases List.append_eq_append_iff.mp h with ⟨between, hbetween, hafter⟩ | ⟨between, hbetween, hrest⟩
  · cases between with
    | nil =>
        left
        rw [List.nil_append, List.cons.injEq] at hafter
        exact ⟨by rw [hbetween, List.append_nil], hafter.2⟩
    | cons c between =>
        -- The first mark would be inside the piece.
        rw [List.cons_append, List.cons.injEq] at hafter
        rw [hbetween, ← hafter.1] at hpiece
        simp at hpiece
  · cases between with
    | nil =>
        left
        rw [List.nil_append, List.cons.injEq] at hrest
        exact ⟨by rw [hbetween, List.append_nil], hrest.2.symm⟩
    | cons c more =>
        right
        rw [List.cons_append, List.cons.injEq] at hrest
        exact ⟨more, by rw [hbetween, hrest.1], hrest.2.symm⟩

theorem append_mark_inj {mark : Char} {before after piece rest : Text} (hbefore : mark ∉ before)
    (hpiece : mark ∉ piece) (h : before ++ mark :: after = piece ++ mark :: rest) :
    before = piece ∧ after = rest := by
  rcases cases_of_append_mark hpiece h with hsame | ⟨more, rfl, -⟩
  · exact hsame
  · simp at hbefore

/-! ### Decimals -/

theorem ofNat_ne_nil (n : Nat) : ofNat n ≠ [] := by
  rw [ofNat, Nat.toList_repr]
  exact Nat.toDigits_ne_nil

theorem isDigit_of_mem_ofNat {n : Nat} {c : Char} (hc : c ∈ ofNat n) : c.isDigit := by
  rw [ofNat, Nat.toList_repr] at hc
  exact Nat.isDigit_of_mem_toDigits (by decide) (by decide) hc

theorem digitsValue?_ofNat (n : Nat) : digitsValue? (ofNat n) = some n := by
  have hall : (ofNat n).all Char.isDigit := List.all_eq_true.mpr fun _ => isDigit_of_mem_ofNat
  have hvalue : (ofNat n).foldl (fun value c => value * 10 + (c.toNat - 48)) 0 = n := by
    have hdigits := Nat.ofDigitChars_toDigits (b := 10) (n := n) (by decide) (by decide)
    rw [Nat.ofDigitChars] at hdigits
    rw [ofNat, Nat.toList_repr]
    simpa only [Nat.mul_comm, show '0'.toNat = 48 from rfl] using hdigits
  unfold digitsValue?
  split
  · rename_i hnil
    exact absurd hnil (ofNat_ne_nil n)
  · rw [if_pos hall, hvalue]

end Text

theorem isDecimalDigit_of_isDigit {c : Char} (hc : c.isDigit) : isDecimalDigit c := by
  simp only [Char.isDigit, Bool.and_eq_true, decide_eq_true_eq] at hc
  simp only [isDecimalDigit, DecimalDigit.ranges, List.any_cons, Bool.or_eq_true, Bool.and_eq_true,
    decide_eq_true_eq]
  exact .inl hc

namespace Diagnostic

variable {text rest file message : Text}

/-! ### What stands behind a file -/

/-- Decimal digits of any script, at least one. -/
def IsNumber (digits : Text) : Prop := digits ≠ [] ∧ ∀ c ∈ digits, isDecimalDigit c

/-- A word for a severity, without its colon, and blanks before it. -/
def IsLabel (severity : Severity) (label : Text) : Prop :=
  ∃ gap word, label = gap ++ word ∧ (∀ c ∈ gap, isBlank c) ∧ (word ++ [':'], severity) ∈ severityWords

theorem exists_of_mem_severityWords {word : Text} {severity : Severity}
    (hword : (word, severity) ∈ severityWords) :
    ∃ c letters, word = (c :: letters) ++ [':'] ∧ ':' ∉ c :: letters ∧ ¬isBlank c ∧
      ¬isDecimalDigit c := by
  simp only [severityWords, List.mem_cons, List.not_mem_nil, or_false, Prod.mk.injEq] at hword
  rcases hword with ⟨rfl, -⟩ | ⟨rfl, -⟩ | ⟨rfl, -⟩ | ⟨rfl, -⟩
  · exact ⟨'f', "atal error".toList, rfl, by decide, by decide, by decide⟩
  · exact ⟨'e', "rror".toList, rfl, by decide, by decide, by decide⟩
  · exact ⟨'w', "arning".toList, rfl, by decide, by decide, by decide⟩
  · exact ⟨'n', "ote".toList, rfl, by decide, by decide, by decide⟩

/-- No word begins with another, so the first that fits is the only one. -/
theorem find?_severityWords {entry : Text × Severity} (hentry : entry ∈ severityWords) (rest : Text) :
    severityWords.find? (fun other => other.1.isPrefixOf (entry.1 ++ rest)) = some entry := by
  simp only [severityWords, List.mem_cons, List.not_mem_nil, or_false] at hentry
  rcases hentry with rfl | rfl | rfl | rfl <;> rfl

theorem IsNumber.colon_notMem {digits : Text} (h : IsNumber digits) : ':' ∉ digits := by
  intro hcolon
  exact absurd (h.2 ':' hcolon) (by decide)

theorem IsLabel.colon_notMem {severity : Severity} {label : Text} (h : IsLabel severity label) :
    ':' ∉ label := by
  obtain ⟨gap, word, rfl, hgap, hword⟩ := h
  obtain ⟨c, letters, hletters, hcolon, -⟩ := exists_of_mem_severityWords hword
  rw [List.append_cancel_right hletters, List.mem_append, not_or]
  exact ⟨fun hmem => absurd (hgap ':' hmem) (by decide), hcolon⟩

/-- A label begins with a blank or with a letter. -/
theorem IsLabel.not_isNumber {severity : Severity} {label : Text} (h : IsLabel severity label) :
    ¬IsNumber label := by
  obtain ⟨gap, word, rfl, hgap, hword⟩ := h
  obtain ⟨c, letters, hletters, -, -, hletter⟩ := exists_of_mem_severityWords hword
  rintro ⟨-, hdigits⟩
  apply hletter
  apply hdigits
  rw [List.append_cancel_right hletters]
  simp

theorem isLabel_name (severity : Severity) : IsLabel severity (' ' :: severity.name) := by
  refine ⟨[' '], severity.name, rfl, List.forall_mem_singleton.mpr rfl, ?_⟩
  cases severity <;> decide

theorem isNumber_ofNat (n : Nat) : IsNumber (Text.ofNat n) :=
  ⟨Text.ofNat_ne_nil n, fun _ hc => isDecimalDigit_of_isDigit (Text.isDigit_of_mem_ofNat hc)⟩

theorem number?_colon_append {digits : Text} (hdigits : IsNumber digits) (rest : Text) :
    number? (':' :: (digits ++ ':' :: rest)) = some (digits, ':' :: rest) := by
  have hcolon : isDecimalDigit ':' = false := by decide
  have htake : (digits ++ ':' :: rest).takeWhile isDecimalDigit = digits := by
    rw [List.takeWhile_append_of_pos hdigits.2, List.takeWhile_cons_of_neg (by simp [hcolon]),
      List.append_nil]
  rw [number?]
  simp only [htake, List.drop_left]
  rw [if_neg (by simpa using hdigits.1)]

theorem exists_of_number? {digits : Text} (h : number? text = some (digits, rest)) :
    text = ':' :: (digits ++ rest) ∧ IsNumber digits := by
  unfold number? at h
  split at h
  · rename_i more
    dsimp only at h
    split at h <;> rename_i hempty
    · cases h
    cases h
    have hmore := List.prefix_iff_eq_append.mp (List.takeWhile_prefix (l := more) isDecimalDigit)
    exact ⟨by rw [hmore], by simpa using hempty, fun _ => List.mem_takeWhile_imp⟩
  · cases h

theorem exists_label_of_find? {word : Text} {severity : Severity}
    (hfind : severityWords.find? (fun other => other.1.isPrefixOf (Text.trimStart text)) =
      some (word, severity)) :
    ∃ label, text = label ++ ':' :: (Text.trimStart text).drop word.length ∧
      IsLabel severity label := by
  have hmem := List.mem_of_find?_eq_some hfind
  have hfits : word.isPrefixOf (Text.trimStart text) := by simpa using List.find?_some hfind
  obtain ⟨rest, hrest⟩ := List.isPrefixOf_iff_prefix.mp hfits
  obtain ⟨c, letters, rfl, -⟩ := exists_of_mem_severityWords hmem
  obtain ⟨gap, hgap, hgapped⟩ := Text.exists_blank_append_trimStart text
  refine ⟨gap ++ c :: letters, ?_, gap, c :: letters, rfl, hgap, hmem⟩
  rw [← hrest, List.drop_left]
  calc text
      = gap ++ (c :: letters ++ [':'] ++ rest) := by rw [hrest, ← hgapped]
    _ = gap ++ c :: letters ++ ':' :: rest := by simp

theorem find?_label {severity : Severity} {label : Text} (h : IsLabel severity label) (rest : Text) :
    ∃ word, Text.trimStart (label ++ ':' :: rest) = word ++ rest ∧
      severityWords.find? (fun other => other.1.isPrefixOf (word ++ rest)) = some (word, severity) := by
  obtain ⟨gap, word, rfl, hgap, hword⟩ := h
  obtain ⟨c, letters, hletters, -, hblank, -⟩ := exists_of_mem_severityWords hword
  refine ⟨word ++ [':'], ?_, find?_severityWords hword rest⟩
  calc Text.trimStart (gap ++ word ++ ':' :: rest)
      = Text.trimStart (word ++ [':'] ++ rest) := by
        rw [List.append_assoc, Text.trimStart_blank_append hgap, List.append_assoc,
          List.singleton_append]
    _ = word ++ [':'] ++ rest := by
        rw [hletters, Text.trimStart_eq_self_iff]
        rintro _ ⟨⟩
        exact hblank

theorem tail?_colon_append {line column label : Text} {severity : Severity} (hline : IsNumber line)
    (hcolumn : IsNumber column) (hlabel : IsLabel severity label) (hfeed : '\n' ∉ Text.trimStart rest) :
    tail? (':' :: (line ++ ':' :: (column ++ ':' :: (label ++ ':' :: rest)))) =
      some ⟨line, column, severity, Text.trimStart rest⟩ := by
  obtain ⟨word, htrim, hfind⟩ := find?_label hlabel rest
  simp only [tail?, number?_colon_append hline, number?_colon_append hcolumn, Option.bind_eq_bind,
    Option.bind_some, htrim, hfind, List.drop_left]
  exact if_neg hfeed

/-- A tail is two numbers and a label, each behind a colon, and a message behind one more. -/
theorem exists_of_tail? {tail : Tail} (h : tail? text = some tail) :
    ∃ label rest, text = ':' :: (tail.line ++ ':' :: (tail.column ++ ':' :: (label ++ ':' :: rest))) ∧
      IsNumber tail.line ∧ IsNumber tail.column ∧ IsLabel tail.severity label ∧
      tail.message = Text.trimStart rest ∧ '\n' ∉ tail.message := by
  obtain ⟨⟨line, behindLine⟩, hline, h⟩ := Option.bind_eq_some_iff.mp h
  obtain ⟨⟨column, behindColumn⟩, hcolumn, h⟩ := Option.bind_eq_some_iff.mp h
  obtain ⟨htext, hlineDigits⟩ := exists_of_number? hline
  obtain ⟨hbehind, hcolumnDigits⟩ := exists_of_number? hcolumn
  dsimp only at hbehind h
  split at h
  · rename_i behind
    obtain ⟨⟨word, severity⟩, hfind, h⟩ := Option.bind_eq_some_iff.mp h
    obtain ⟨label, hlabel, hisLabel⟩ := exists_label_of_find? hfind
    dsimp only at h
    split at h <;> rename_i hfeed
    · cases h
    cases h
    refine ⟨label, _, ?_, hlineDigits, hcolumnDigits, hisLabel, rfl, hfeed⟩
    rw [htext, hbehind, ← hlabel]
  · cases h

/-! ### Where the file ends -/

theorem exists_of_splitFile? {tail : Tail} (h : splitFile? text = some (file, tail)) :
    ∃ rest, text = file ++ rest ∧ tail? rest = some tail ∧
      ∀ before inner, file = before ++ inner → inner ≠ [] → tail? (inner ++ rest) = none := by
  induction text generalizing file with
  | nil => cases h
  | cons c text ih =>
      rw [splitFile?] at h
      cases hhere : tail? (c :: text) with
      | some here =>
          rw [hhere] at h
          cases h
          refine ⟨c :: text, rfl, hhere, ?_⟩
          intro before inner hinner hne
          exact absurd (List.append_eq_nil_iff.mp hinner.symm).2 hne
      | none =>
          rw [hhere] at h
          dsimp only at h
          split at h
          · cases h
          obtain ⟨⟨shorter, other⟩, hshorter, hpair⟩ := Option.map_eq_some_iff.mp h
          cases hpair
          obtain ⟨rest, rfl, htail, hshortest⟩ := ih hshorter
          refine ⟨rest, rfl, htail, ?_⟩
          intro before inner hinner hne
          cases before with
          | nil =>
              rw [List.nil_append] at hinner
              rw [← hinner]
              exact hhere
          | cons d before =>
              rw [List.cons_append, List.cons.injEq] at hinner
              exact hshortest before inner hinner.2 hne

theorem splitFile?_append {tail : Tail} (hfeed : '\n' ∉ file) (htail : tail? rest = some tail)
    (hshortest : ∀ before inner, file = before ++ inner → inner ≠ [] → tail? (inner ++ rest) = none) :
    splitFile? (file ++ rest) = some (file, tail) := by
  induction file with
  | nil =>
      cases rest with
      | nil => cases htail
      | cons c rest => rw [List.nil_append, splitFile?, htail]
  | cons c file ih =>
      have hhere : tail? (c :: (file ++ rest)) = none := hshortest [] (c :: file) rfl (by simp)
      obtain ⟨hc, hfile⟩ : c ≠ '\n' ∧ '\n' ∉ file := by simpa [eq_comm] using hfeed
      have hsplit := ih hfile fun before inner hinner => hshortest (c :: before) inner (by rw [hinner]; rfl)
      rw [List.cons_append, splitFile?, hhere, hsplit]
      exact if_neg hc

/-- A tail that begins before a line and a column does not reach into them: it is there whatever stands
behind the colon in place of the line. -/
theorem tail?_ne_none_of_inner {inner line column other : Text} {tail : Tail} (hne : inner ≠ [])
    (hline : IsNumber line) (hcolumn : IsNumber column)
    (h : tail? (inner ++ ':' :: (line ++ ':' :: (column ++ ':' :: rest))) = some tail)
    (hfeed : '\n' ∉ inner ++ ':' :: other) : tail? (inner ++ ':' :: other) ≠ none := by
  obtain ⟨label, message, htext, hfirst, hsecond, hlabel, -⟩ := exists_of_tail? h
  -- It is enough to find the two numbers and the label again.
  suffices hagain : ∃ more, inner ++ ':' :: other =
      ':' :: (tail.line ++ ':' :: (tail.column ++ ':' :: (label ++ ':' :: more))) by
    obtain ⟨more, hmore⟩ := hagain
    have hmessage : '\n' ∉ Text.trimStart more := by
      intro hmem
      rw [hmore] at hfeed
      have htrimmed := (List.dropWhile_suffix (l := more) isBlank).subset hmem
      simp [htrimmed] at hfeed
    rw [hmore, tail?_colon_append hfirst hsecond hlabel hmessage]
    exact Option.some_ne_none _
  -- The colon behind `inner` is none of the first three.
  obtain ⟨rfl, -⟩ | ⟨behind, rfl, hbehind⟩ := Text.cases_of_append_mark List.not_mem_nil htext
  · exact absurd rfl hne
  obtain ⟨-, hline'⟩ | ⟨behindLine, rfl, hbehindLine⟩ :=
    Text.cases_of_append_mark hfirst.colon_notMem hbehind
  · obtain ⟨-, hcolumn'⟩ := Text.append_mark_inj hline.colon_notMem hsecond.colon_notMem hline'
    obtain ⟨rfl, -⟩ := Text.append_mark_inj hcolumn.colon_notMem hlabel.colon_notMem hcolumn'
    exact absurd hcolumn hlabel.not_isNumber
  obtain ⟨-, hline'⟩ | ⟨behindColumn, rfl, hbehindColumn⟩ :=
    Text.cases_of_append_mark hsecond.colon_notMem hbehindLine
  · obtain ⟨rfl, -⟩ := Text.append_mark_inj hline.colon_notMem hlabel.colon_notMem hline'
    exact absurd hline hlabel.not_isNumber
  obtain ⟨rfl, -⟩ | ⟨behindLabel, rfl, -⟩ :=
    Text.cases_of_append_mark hlabel.colon_notMem hbehindColumn
  · exact ⟨other, by simp⟩
  · exact ⟨behindLabel ++ ':' :: other, by simp⟩

/-! ### Printing -/

/-- What is printed behind the file. -/
def printedTail (d : Diagnostic) : Text :=
  ':' :: (Text.ofNat d.line ++ ':' :: (Text.ofNat d.column ++ ':' ::
    (' ' :: d.severity.name ++ ':' :: ' ' :: d.message)))

theorem render_eq (d : Diagnostic) : d.render = d.file ++ d.printedTail := by
  simp [render, printedTail]

theorem tail?_printedTail {d : Diagnostic} (hfeed : '\n' ∉ d.message)
    (hstart : Text.trimStart d.message = d.message) :
    tail? d.printedTail = some ⟨Text.ofNat d.line, Text.ofNat d.column, d.severity, d.message⟩ := by
  have hblank : ∀ c ∈ [' '], isBlank c := List.forall_mem_singleton.mpr rfl
  have hgap : Text.trimStart (' ' :: d.message) = d.message :=
    (Text.trimStart_blank_append hblank d.message).trans hstart
  rw [printedTail, tail?_colon_append (isNumber_ofNat d.line) (isNumber_ofNat d.column)
    (isLabel_name d.severity) (by rwa [hgap]), hgap]

theorem word?_eq_some_iff {digits : Text} {n : Nat} :
    word? digits = some n ↔ Text.digitsValue? digits = some n ∧ n < 0x100000000 := by
  rw [word?]
  cases Text.digitsValue? digits with
  | none => simp
  | some value =>
      rw [Option.bind_eq_bind, Option.bind_some, Option.ite_none_right_eq_some, Option.some.injEq,
        and_comm]
      constructor
      · rintro ⟨rfl, hvalue⟩
        exact ⟨rfl, hvalue⟩
      · rintro ⟨rfl, hvalue⟩
        exact ⟨rfl, hvalue⟩

theorem parseLine?_eq_some_iff {row : Text} {d : Diagnostic} :
    parseLine? row = some d ↔
      ∃ line column, splitFile? row = some (d.file, ⟨line, column, d.severity, d.message⟩) ∧
        word? line = some d.line ∧ word? column = some d.column := by
  rw [parseLine?]
  constructor
  · intro h
    obtain ⟨⟨file, tail⟩, hsplit, h⟩ := Option.bind_eq_some_iff.mp h
    obtain ⟨line, hline, h⟩ := Option.bind_eq_some_iff.mp h
    obtain ⟨column, hcolumn, h⟩ := Option.bind_eq_some_iff.mp h
    cases h
    exact ⟨tail.line, tail.column, hsplit, hline, hcolumn⟩
  · rintro ⟨line, column, hsplit, hline, hcolumn⟩
    simp [hsplit, hline, hcolumn]

/-- A diagnostic is read back if no tail begins inside its file. -/
theorem parseLine?_render {d : Diagnostic} (hline : d.line < 0x100000000)
    (hcolumn : d.column < 0x100000000) (hfile : '\n' ∉ d.file) (hfeed : '\n' ∉ d.message)
    (hstart : Text.trimStart d.message = d.message)
    (hshortest : ∀ before inner, d.file = before ++ inner → inner ≠ [] →
      tail? (inner ++ d.printedTail) = none) :
    parseLine? d.render = some d := by
  rw [render_eq, parseLine?_eq_some_iff]
  refine ⟨_, _, splitFile?_append hfile (tail?_printedTail hfeed hstart) hshortest, ?_, ?_⟩
  · exact word?_eq_some_iff.mpr ⟨Text.digitsValue?_ofNat d.line, hline⟩
  · exact word?_eq_some_iff.mpr ⟨Text.digitsValue?_ofNat d.column, hcolumn⟩

/-- What was read from a row is read again from its printed form, and a diagnostic with a plain file and
message is read from its printed form in the first place. -/
theorem diagnostics_read_back :
    (∀ row d, '\n' ∉ row → parseLine? row = some d → parseLine? d.render = some d) ∧
    ∀ d : Diagnostic, ':' ∉ d.file → '\n' ∉ d.file → '\n' ∉ d.message →
      (∀ c, d.message.head? = some c → ¬isBlank c) →
      d.line < 0x100000000 → d.column < 0x100000000 → parseLine? d.render = some d := by
  constructor
  · intro row d hrow hread
    obtain ⟨line, column, hsplit, hline, hcolumn⟩ := parseLine?_eq_some_iff.mp hread
    obtain ⟨rest, rfl, htail, hshortest⟩ := exists_of_splitFile? hsplit
    obtain ⟨label, message, rfl, -, -, -, hmessage, hfeed⟩ := exists_of_tail? htail
    dsimp only at hmessage hfeed
    apply parseLine?_render (word?_eq_some_iff.mp hline).2 (word?_eq_some_iff.mp hcolumn).2
    · intro hfile
      exact hrow (List.mem_append_left _ hfile)
    · exact hfeed
    · rw [hmessage, Text.trimStart_trimStart]
    · intro before inner hinner hne
      by_contra hearlier
      obtain ⟨tail, hread⟩ := Option.ne_none_iff_exists'.mp hearlier
      -- The same tail would have made the file shorter when the row was read.
      apply tail?_ne_none_of_inner hne (isNumber_ofNat d.line) (isNumber_ofNat d.column) hread
        ?_ (hshortest before inner hinner hne)
      rw [hinner, List.append_assoc] at hrow
      exact fun hmem => hrow (List.mem_append_right before hmem)
  · intro d hcolon hfile hfeed hstart hline hcolumn
    apply parseLine?_render hline hcolumn hfile hfeed (Text.trimStart_eq_self_iff.mpr hstart)
    intro before inner hinner hne
    by_contra htail
    obtain ⟨tail, hread⟩ := Option.ne_none_iff_exists'.mp htail
    -- A tail begins with a colon, and there is none in the file.
    obtain ⟨label, rest, htext, -⟩ := exists_of_tail? hread
    cases inner with
    | nil => exact absurd rfl hne
    | cons c inner =>
        rw [List.cons_append, List.cons.injEq] at htext
        rw [hinner, htext.1] at hcolon
        simp at hcolon

/-- A file with what looks like a place in it. -/
def numberedDiagnostic : Diagnostic :=
  ⟨"a:1:2:x".toList, 7, 5, .error, "b: error: c".toList⟩

theorem diagnostics_read_back_behind_numbers :
    parseLine? "a:1:2:x:007:05:fatal error:  b: error: c".toList = some numberedDiagnostic ∧
    numberedDiagnostic.render = "a:1:2:x:7:5: error: b: error: c".toList ∧
    parseLine? numberedDiagnostic.render = some numberedDiagnostic ∧
    parseLine? (render ⟨"f.c".toList, 0xFFFFFFFF, 0, .note, []⟩) =
      some ⟨"f.c".toList, 0xFFFFFFFF, 0, .note, []⟩ := by
  have hread : parseLine? "a:1:2:x:007:05:fatal error:  b: error: c".toList =
      some numberedDiagnostic := by decide +kernel
  refine ⟨hread, by decide +kernel, ?_, ?_⟩
  · exact diagnostics_read_back.1 _ _ (by decide +kernel) hread
  · apply diagnostics_read_back.2
    · decide
    · decide
    · decide
    · rintro c ⟨⟩
    · decide
    · decide

end Diagnostic

end PlainC
