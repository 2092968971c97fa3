import PlainC.Proofs.Trimming
import PlainC.Proofs.Utf8

/-!
# Sources under any edits

Edits take whatever numbers they are given. Whether columns can be deleted depends on the bytes of the
line alone: both ends have to be inside it and between characters, which is seen from one byte. So after
any number of edits a source is still what its text is read as, with as many lines as at first, and an
edit that is refused has changed nothing.
-/

namespace PlainC

namespace Text

/-! ### Boundaries between characters, in bytes -/

/-- A byte that is not the first one of a character. -/
def IsInner (byte : UInt8) : Prop := 0x80 ≤ byte.toNat ∧ byte.toNat < 0xC0

instance (byte : UInt8) : Decidable (IsInner byte) := inferInstanceAs (Decidable (_ ∧ _))

/-- That bytes can be cut behind the first `n`: they end there, or a character begins. -/
def IsCharBoundary (bytes : Bytes) (n : Nat) : Prop :=
  n = bytes.length ∨ ∃ byte, bytes[n]? = some byte ∧ ¬IsInner byte

instance (bytes : Bytes) (n : Nat) : Decidable (IsCharBoundary bytes n) :=
  decidable_of_iff (n = bytes.length ∨ (bytes[n]?).any fun byte => !decide (IsInner byte)) (by
    rw [IsCharBoundary, Option.any_eq_true]
    simp only [Bool.not_eq_true', decide_eq_false_iff_not])

theorem exists_charBytes_eq_first_cons (c : Char) :
    ∃ first more, charBytes c = first :: more ∧ ¬IsInner first ∧ ∀ byte ∈ more, IsInner byte := by
  have hvalid : c.toNat < 0xD800 ∨ 0xDFFF < c.toNat ∧ c.toNat < 0x110000 := c.valid
  have hinner : ∀ n < 0x40, IsInner (UInt8.ofNat (0x80 + n)) := by
    intro n hn
    rw [IsInner, toNat_ofNat_byte (by omega)]
    omega
  have hfirst : ∀ n, n < 0x80 ∨ 0xC0 ≤ n ∧ n < 0x100 → ¬IsInner (UInt8.ofNat n) := by
    intro n hn
    rw [IsInner, toNat_ofNat_byte (by omega)]
    omega
  rw [charBytes]
  by_cases hone : c.toNat < 0x80
  · simp only [if_pos hone, List.map_cons, List.map_nil]
    exact ⟨_, _, rfl, hfirst _ (by omega), by simp⟩
  by_cases htwo : c.toNat < 0x800
  · simp only [if_neg hone, if_pos htwo, List.map_cons, List.map_nil]
    refine ⟨_, _, rfl, hfirst _ (by omega), ?_⟩
    rw [List.forall_mem_singleton]
    exact hinner _ (by omega)
  by_cases hthree : c.toNat < 0x10000
  · simp only [if_neg hone, if_neg htwo, if_pos hthree, List.map_cons, List.map_nil]
    refine ⟨_, _, rfl, hfirst _ (by omega), ?_⟩
    rw [List.forall_mem_cons, List.forall_mem_singleton]
    exact ⟨hinner _ (by omega), hinner _ (by omega)⟩
  · simp only [if_neg hone, if_neg htwo, if_neg hthree, List.map_cons, List.map_nil]
    refine ⟨_, _, rfl, hfirst _ (by omega), ?_⟩
    rw [List.forall_mem_cons, List.forall_mem_cons, List.forall_mem_singleton]
    exact ⟨hinner _ (by omega), hinner _ (by omega), hinner _ (by omega)⟩

theorem isCharBoundary_zero (text : Text) : IsCharBoundary (toBytes text) 0 := by
  cases text with
  | nil => exact .inl rfl
  | cons c text =>
      obtain ⟨first, more, hbytes, hfirst, -⟩ := exists_charBytes_eq_first_cons c
      refine .inr ⟨first, ?_, hfirst⟩
      rw [toBytes_cons, hbytes]
      rfl

/-- Behind the first character of a text, its boundaries are those of the rest. -/
theorem isCharBoundary_cons {c : Char} {text : Text} {n : Nat} :
    IsCharBoundary (toBytes (c :: text)) n ↔
      n = 0 ∨ c.utf8Size ≤ n ∧ IsCharBoundary (toBytes text) (n - c.utf8Size) := by
  obtain ⟨first, more, hbytes, -, hmore⟩ := exists_charBytes_eq_first_cons c
  have hlength := length_charBytes c
  have hpos := c.utf8Size_pos
  by_cases hzero : n = 0
  · subst hzero
    simp only [true_or, iff_true]
    exact isCharBoundary_zero (c :: text)
  by_cases hlt : n < c.utf8Size
  · -- The byte there belongs to the first character and is not its first one.
    have hget : ∃ byte, (toBytes (c :: text))[n]? = some byte ∧ IsInner byte := by
      obtain ⟨m, rfl⟩ : ∃ m, n = m + 1 := ⟨n - 1, by omega⟩
      rw [hbytes, List.length_cons] at hlength
      have hm : m < more.length := by omega
      refine ⟨more[m], ?_, hmore _ (List.getElem_mem hm)⟩
      rw [toBytes_cons, hbytes, List.cons_append, List.getElem?_cons_succ,
        List.getElem?_append_left hm, List.getElem?_eq_getElem hm]
    obtain ⟨byte, hget, hinner⟩ := hget
    have hbound : n ≠ (toBytes (c :: text)).length := by
      rw [length_toBytes, byteLength_cons]
      omega
    constructor
    · rintro (heq | ⟨byte', hget', hnot⟩)
      · exact absurd heq hbound
      · rw [hget, Option.some.injEq] at hget'
        exact absurd (hget' ▸ hinner) hnot
    · rintro (heq | ⟨hle, -⟩)
      · exact absurd heq hzero
      · omega
  · have hle : c.utf8Size ≤ n := Nat.not_lt.mp hlt
    have hget : (toBytes (c :: text))[n]? = (toBytes text)[n - c.utf8Size]? := by
      rw [toBytes_cons, List.getElem?_append_right (hlength ▸ hle), hlength]
    have hend : n = (toBytes (c :: text)).length ↔ n - c.utf8Size = (toBytes text).length := by
      rw [length_toBytes, length_toBytes, byteLength_cons]
      omega
    simp only [IsCharBoundary, hget, hend, hzero, hle, false_or, true_and]

/-- A text is cut behind `n` bytes exactly if a character ends there. -/
theorem isSome_cut?_iff {n : Nat} {text : Text} :
    (cut? n text).isSome ↔ IsCharBoundary (toBytes text) n := by
  induction text generalizing n with
  | nil =>
      cases n with
      | zero => simp [cut?, IsCharBoundary, toBytes]
      | succ n => simp [cut?, IsCharBoundary, toBytes]
  | cons c text ih =>
      rw [isCharBoundary_cons]
      cases n with
      | zero => simp [cut?]
      | succ n =>
          rw [cut?]
          split <;> rename_i hsize
          · rw [Option.isSome_map, ih]
            simp [hsize]
          · simp [hsize]

theorem isCharBoundary_iff {n : Nat} {text : Text} :
    IsCharBoundary (toBytes text) n ↔ ∃ before after, text = before ++ after ∧ byteLength before = n := by
  rw [← isSome_cut?_iff, Option.isSome_iff_exists]
  constructor
  · rintro ⟨⟨before, after⟩, hcut⟩
    exact ⟨before, after, cut?_eq_some_iff.mp hcut⟩
  · rintro ⟨before, after, hcut⟩
    exact ⟨(before, after), cut?_eq_some_iff.mpr hcut⟩

end Text

namespace Source

/-! ### Deleting columns, in bytes -/

/-- That the bytes of a line have columns which can be deleted. -/
structure HasColumns (bytes : Bytes) (first last : Nat) : Prop where
  positive : 1 ≤ first
  ordered : first - 1 ≤ last
  left : Text.IsCharBoundary bytes (first - 1)
  right : Text.IsCharBoundary bytes last

theorem isSome_withoutColumns?_iff {line : Text} {first last : Nat} :
    (withoutColumns? line first last).isSome ↔ HasColumns (Text.toBytes line) first last := by
  rw [Option.isSome_iff_exists]
  constructor
  · rintro ⟨edited, hedit⟩
    obtain ⟨left, cut, right, rfl, rfl, rfl, -⟩ := withoutColumns?_eq_some_iff.mp hedit
    refine ⟨by omega, by omega, ?_, ?_⟩
    · exact Text.isCharBoundary_iff.mpr ⟨left, cut ++ right, by simp, by omega⟩
    · exact Text.isCharBoundary_iff.mpr ⟨left ++ cut, right, rfl, by simp⟩
  · rintro ⟨hpositive, hordered, hleft, hright⟩
    obtain ⟨left, behind, hline, hstart⟩ := Text.isCharBoundary_iff.mp hleft
    obtain ⟨before, right, hline', hstop⟩ := Text.isCharBoundary_iff.mp hright
    obtain ⟨cut, rfl, -⟩ := Text.exists_append_of_byteLength_le (hline.symm.trans hline') (by omega)
    rw [Text.byteLength_append] at hstop
    exact ⟨left ++ right,
      withoutColumns?_eq_some_iff.mpr ⟨left, cut, right, hline', by omega, hstop.symm, rfl⟩⟩

theorem toBytes_of_withoutColumns? {line edited : Text} {first last : Nat}
    (hedit : withoutColumns? line first last = some edited) :
    Text.toBytes edited = (Text.toBytes line).take (first - 1) ++ (Text.toBytes line).drop last := by
  obtain ⟨left, cut, right, rfl, rfl, rfl, rfl⟩ := withoutColumns?_eq_some_iff.mp hedit
  have htake : (Text.toBytes (left ++ cut ++ right)).take (Text.byteLength left + 1 - 1) =
      Text.toBytes left := by
    rw [List.append_assoc, Text.toBytes_append, Nat.add_sub_cancel, ← Text.length_toBytes,
      List.take_left]
  have hdrop : (Text.toBytes (left ++ cut ++ right)).drop
      (Text.byteLength left + Text.byteLength cut) = Text.toBytes right := by
    rw [Text.toBytes_append, ← Text.byteLength_append, ← Text.length_toBytes, List.drop_left]
  rw [htake, hdrop, Text.toBytes_append]

theorem isSome_deleteColumns?_iff {source : Source} {n first last : Nat} :
    (source.deleteColumns? n first last).isSome ↔
      ∃ line, source.line? n = some line ∧ HasColumns (Text.toBytes line) first last := by
  simp only [deleteColumns?, bind, pure, Option.isSome_bind, Option.any_eq_true, Option.isSome_some,
    ← isSome_withoutColumns?_iff, Option.isSome_iff_exists, and_true]

theorem toBytes_of_deleteColumns? {source edited : Source} {n first last : Nat}
    (hdelete : source.deleteColumns? n first last = some edited) :
    ∃ old new, source.line? n = some old ∧ edited.line? n = some new ∧
      Text.toBytes new = (Text.toBytes old).take (first - 1) ++ (Text.toBytes old).drop last := by
  obtain ⟨above, left, cut, right, below, hlines, rfl, hfirst, hlast, rfl⟩ :=
    deleteColumns?_eq_some_iff.mp hdelete
  refine ⟨left ++ cut ++ right, left ++ right, ?_, line?_place above below _, ?_⟩
  · exact line?_eq_some_iff.mpr ⟨above, below, hlines, rfl⟩
  · exact toBytes_of_withoutColumns?
      (withoutColumns?_eq_some_iff.mpr ⟨left, cut, right, rfl, hfirst, hlast, rfl⟩)

/-! ### Any edits -/

inductive Edit where
  | clearLine (line : Nat)
  | clear (span : Span)
  | deleteColumns (line first last : Nat)
  | deleteToken (span : Span)
  deriving DecidableEq, Repr

namespace Edit

/-- The edited source, or none where the edit is refused. -/
def attempt? (source : Source) : Edit → Option Source
  | clearLine line => some (source.clearLine line)
  | clear span => some (source.clear span)
  | deleteColumns line first last => source.deleteColumns? line first last
  | deleteToken span => source.deleteToken? span

/-- Whether an edit was done, and the source behind it. -/
def apply (source : Source) (edit : Edit) : Bool × Source :=
  ((edit.attempt? source).isSome, (edit.attempt? source).getD source)

def applyAll (source : Source) (edits : List Edit) : Source :=
  edits.foldl (fun source edit => (apply source edit).2) source

/-- The lines that an edit names. -/
def Names : Edit → Nat → Prop
  | clearLine line => (· = line)
  | clear span => span.Covers
  | deleteColumns line _ _ => (· = line)
  | deleteToken span => (· = span.first.line)

theorem apply_of_false {source : Source} {edit : Edit} (hrefused : (apply source edit).1 = false) :
    (apply source edit).2 = source := by
  rw [apply, Option.isSome_eq_false_iff, Option.isNone_iff_eq_none] at hrefused
  rw [apply, hrefused, Option.getD_none]

/-- An edit trims the lines that it names. -/
theorem trims_apply (source : Source) (edit : Edit) :
    Trims edit.Names source (apply source edit).2 := by
  cases edit with
  | clearLine line =>
      apply (trims_clearLines source line line).mono
      intro n hn
      exact Nat.le_antisymm hn.2 hn.1
  | clear span => exact trims_clearLines source span.first.line span.last.line
  | deleteColumns line first last => exact Unfolding.trims_clearColumns source line first last
  | deleteToken span => exact trims_deleteToken? source span

theorem trims_applyAll (source : Source) (edits : List Edit) :
    Trims (fun n => ∃ edit ∈ edits, edit.Names n) source (applyAll source edits) := by
  induction edits generalizing source with
  | nil => exact .refl _ source
  | cons edit edits ih =>
      refine ((trims_apply source edit).mono ?_).trans ((ih _).mono ?_)
      · intro n hn
        exact ⟨edit, List.mem_cons_self, hn⟩
      · rintro n ⟨other, hmem, hn⟩
        exact ⟨other, List.mem_cons_of_mem edit hmem, hn⟩

end Edit

/-- A source whose lines are texts without a line feed, and which its own text is read as. -/
structure IsWhole (source : Source) : Prop where
  feedless : ∀ line ∈ source.lines, '\n' ∉ line
  decodable : ∀ line ∈ source.lines, Text.ofBytes? (Text.toBytes line) = some line
  reread : ofText source.toText = source

theorem isWhole_ofText (text : Text) : (ofText text).IsWhole where
  feedless := fun _ => not_mem_of_mem_lines_ofText
  decodable := fun line _ => Text.ofBytes?_toBytes line
  reread := by rw [toText_ofText]

/-- What an edit may do: nothing if it is refused, and otherwise something on the lines that it names. -/
structure Edit.IsLocal (source : Source) (edit : Edit) : Prop where
  refused : (edit.apply source).1 = false → (edit.apply source).2 = source
  kept : ∀ n, ¬edit.Names n → (edit.apply source).2.line? n = source.line? n

theorem Edit.isLocal (source : Source) (edit : Edit) : edit.IsLocal source where
  refused := apply_of_false
  kept := (trims_apply source edit).kept

/-- After any edits, each with any numbers, a source is whole and has as many lines as at first. An edit
that is refused leaves it as it is, and one that is done changes no line which it does not name. Columns
are deleted exactly if the line has them between two boundaries of characters, and then its bytes are
those that stood before them and those that stood behind. -/
theorem source_stays_whole_under_edits (text : Text) (edits : List Edit) :
    let source := Edit.applyAll (ofText text) edits
    (ofText text).toText = text ∧ source.IsWhole ∧ source.lineCount = (ofText text).lineCount ∧
      (∀ edit : Edit, edit.IsLocal source) ∧
      ∀ n first last, let edited := (Edit.deleteColumns n first last).apply source
        (edited.1 = true ↔
          ∃ line, source.line? n = some line ∧ HasColumns (Text.toBytes line) first last) ∧
        (edited.1 = true → ∃ old new, source.line? n = some old ∧ edited.2.line? n = some new ∧
          Text.toBytes new =
            (Text.toBytes old).take (first - 1) ++ (Text.toBytes old).drop last) := by
  intro source
  have htrims : Trims _ (ofText text) source := Edit.trims_applyAll (ofText text) edits
  obtain ⟨edited, hedited⟩ := htrims.exists_ofText rfl
  refine ⟨toText_ofText text, hedited ▸ isWhole_ofText edited, htrims.length,
    fun edit => edit.isLocal source, fun n first last => ⟨isSome_deleteColumns?_iff, fun hdone => ?_⟩⟩
  obtain ⟨after, hdelete⟩ := Option.isSome_iff_exists.mp hdone
  have hafter : ((Edit.deleteColumns n first last).apply source).2 = after := by
    rw [Edit.apply, hdelete, Option.getD_some]
  rw [hafter]
  exact toBytes_of_deleteColumns? hdelete

-- The first edit would cut a character, and the last one finds no line.
example : Edit.applyAll (ofText "aé b\nstatic\tint".toList)
    [.deleteColumns 1 3 3, .deleteColumns 1 2 3, .deleteToken ⟨⟨2, 1⟩, ⟨2, 6⟩⟩, .clearLine 3] =
      ofText "a b\nint".toList := by
  decide

end Source

end PlainC
