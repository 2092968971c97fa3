import PlainC.Proofs.Edits

/-!
# Pieces that spans address

A place in a source is a line with some bytes to the left. In the text of the source it is as many bytes
from the beginning as the lines above have, with one for each line feed, and those to the left. A span
addresses something exactly if its two ends are such places and stand in order, and what it addresses is
the piece of the text between their offsets.
-/

namespace PlainC

namespace Source

variable {source : Source} {span : Span} {text front piece : Text} {n col : Nat}

/-- That line `n` is there and can be cut behind its first `col` bytes. -/
def HasBoundary (source : Source) (n col : Nat) : Prop :=
  ∃ line, source.line? n = some line ∧ Text.IsCharBoundary (Text.toBytes line) col

/-- That a span addresses something: its lines are there and in order, and it begins and ends between
characters of its lines. -/
structure Addresses (source : Source) (span : Span) : Prop where
  line_positive : 1 ≤ span.first.line
  lines_ordered : span.first.line ≤ span.last.line
  line_le : span.last.line ≤ source.lineCount
  col_positive : 1 ≤ span.first.col
  left : source.HasBoundary span.first.line (span.first.col - 1)
  right : source.HasBoundary span.last.line span.last.col
  cols_ordered : span.first.line = span.last.line → span.first.col - 1 ≤ span.last.col

/-- That a piece of the text begins and ends where a span does. -/
def StandsAt (source : Source) (span : Span) (piece : Text) : Prop :=
  ∃ front rest, source.toText = front ++ piece ++ rest ∧
    Text.byteLength front = source.offset span.first ∧
    Text.byteLength (front ++ piece) = source.offset ⟨span.last.line, span.last.col + 1⟩

/-! ### Places of a source -/

theorem StandsBefore.bounds {position : Position} (h : source.StandsBefore position front) :
    1 ≤ position.line ∧ position.line ≤ source.lineCount ∧ 1 ≤ position.col := by
  obtain ⟨above, left, right, below, hlines, rfl, -⟩ := h
  rw [lineCount, hlines]
  simp

theorem hasBoundary_iff :
    source.HasBoundary n col ↔ ∃ front, source.StandsBefore ⟨n, col + 1⟩ front := by
  constructor
  · rintro ⟨line, hline, hboundary⟩
    obtain ⟨above, below, hlines, rfl⟩ := line?_eq_some_iff.mp hline
    obtain ⟨left, right, rfl, rfl⟩ := Text.isCharBoundary_iff.mp hboundary
    exact ⟨Text.closed above ++ left, above, left, right, below, hlines, rfl, rfl⟩
  · rintro ⟨front, above, left, right, below, hlines, hposition, -⟩
    rw [Position.mk.injEq, Nat.add_right_cancel_iff] at hposition
    exact ⟨left ++ right, line?_eq_some_iff.mpr ⟨above, below, hlines, hposition.1⟩,
      Text.isCharBoundary_iff.mpr ⟨left, right, rfl, hposition.2.symm⟩⟩

/-! ### What a span addresses -/

theorem standsAt_of_extract? (hextract : source.extract? span = some piece) :
    source.StandsAt span piece := by
  obtain ⟨front, hfirst, hlast⟩ := extract?_eq_some_iff.mp hextract
  obtain ⟨rest, hrest⟩ := hlast.prefix_toText
  exact ⟨front, rest, hrest.symm, hfirst.byteLength, hlast.byteLength⟩

/-- Only one piece stands between two offsets. -/
theorem StandsAt.unique {other : Text} (h : source.StandsAt span piece)
    (hother : source.StandsAt span other) : piece = other := by
  obtain ⟨front, rest, htext, hfirst, hlast⟩ := h
  obtain ⟨front', rest', htext', hfirst', hlast'⟩ := hother
  obtain ⟨hends, -⟩ := Text.append_inj_of_byteLength (htext.symm.trans htext')
    (hlast.trans hlast'.symm)
  exact (Text.append_inj_of_byteLength hends (hfirst.trans hfirst'.symm)).2

theorem addresses_of_extract?_ofText (hextract : (ofText text).extract? span = some piece) :
    (ofText text).Addresses span := by
  obtain ⟨front, hfirst, hlast⟩ := extract?_eq_some_iff.mp hextract
  obtain ⟨hline, -, hcol⟩ := hfirst.bounds
  have hordered : span.first.before ⟨span.last.line, span.last.col + 1⟩ := by
    rw [← (standsBefore_ofText_iff.mp hfirst).2, ← (standsBefore_ofText_iff.mp hlast).2,
      Position.after_append]
    exact Position.before_after _ piece
  rw [Position.before_iff] at hordered
  simp only at hordered
  have hleft : (⟨span.first.line, span.first.col - 1 + 1⟩ : Position) = span.first := by
    rw [Nat.sub_add_cancel hcol]
  exact {
    line_positive := hline
    lines_ordered := by omega
    line_le := hlast.bounds.2.1
    col_positive := hcol
    left := hasBoundary_iff.mpr ⟨front, hleft ▸ hfirst⟩
    right := hasBoundary_iff.mpr ⟨front ++ piece, hlast⟩
    cols_ordered := by omega }

theorem exists_extract?_ofText (haddresses : (ofText text).Addresses span) :
    ∃ piece, (ofText text).extract? span = some piece := by
  obtain ⟨front, hfirst⟩ := hasBoundary_iff.mp haddresses.left
  obtain ⟨front', hlast⟩ := hasBoundary_iff.mp haddresses.right
  rw [Nat.sub_add_cancel haddresses.col_positive] at hfirst
  obtain ⟨⟨rest, hrest⟩, hfront⟩ := standsBefore_ofText_iff.mp hfirst
  obtain ⟨⟨rest', hrest'⟩, hfront'⟩ := standsBefore_ofText_iff.mp hlast
  -- The places stand in order, so the text before the first one begins that before the second.
  have hordered : (Position.origin.after front).before (Position.origin.after front') := by
    rw [hfront, hfront', Position.before_iff]
    have hlines := haddresses.lines_ordered
    have hcols := haddresses.cols_ordered
    simp only
    omega
  obtain ⟨piece, rfl, -⟩ := Position.exists_append_of_before (hrest.trans hrest'.symm) hordered
  exact ⟨piece, extract?_eq_some_iff.mpr ⟨front, hfirst, hlast⟩⟩

/-- However a source was edited and whatever numbers a span has: it addresses something exactly if its
lines are there in order and its ends are boundaries of characters in order, and what it addresses is
the piece of the text that begins and ends at the offsets of its ends. -/
theorem addressed_piece_stands_at_offsets (text : Text) (edits : List Edit) (span : Span) :
    let source := Edit.applyAll (ofText text) edits
    ((source.extract? span).isSome ↔ source.Addresses span) ∧
      ∀ piece, source.extract? span = some piece ↔
        source.Addresses span ∧ source.StandsAt span piece := by
  intro source
  have htrims : Trims _ (ofText text) source := Edit.trims_applyAll (ofText text) edits
  obtain ⟨edited, hedited⟩ := htrims.exists_ofText rfl
  have haddresses : ∀ piece, source.extract? span = some piece → source.Addresses span := by
    rw [hedited]
    exact fun piece => addresses_of_extract?_ofText
  have hexists : source.Addresses span → ∃ piece, source.extract? span = some piece := by
    rw [hedited]
    exact exists_extract?_ofText
  refine ⟨?_, fun piece => ⟨fun hextract => ?_, fun ⟨hspan, hpiece⟩ => ?_⟩⟩
  · rw [Option.isSome_iff_exists]
    exact ⟨fun ⟨piece, hextract⟩ => haddresses piece hextract, hexists⟩
  · exact ⟨haddresses piece hextract, standsAt_of_extract? hextract⟩
  · obtain ⟨found, hfound⟩ := hexists hspan
    rw [hfound, (standsAt_of_extract? hfound).unique hpiece]

-- The word and its blank are gone, and the span goes on into the next line.
example :
    let source := Edit.applyAll (ofText "static é();\nint".toList) [.deleteToken ⟨⟨1, 1⟩, ⟨1, 6⟩⟩]
    source.extract? ⟨⟨1, 3⟩, ⟨2, 2⟩⟩ = some "();\nin".toList ∧ source.extract? ⟨⟨1, 2⟩, ⟨2, 2⟩⟩ = none ∧
      source.offset ⟨1, 3⟩ = 2 ∧ source.offset ⟨2, 3⟩ = 8 := by
  decide

end Source

end PlainC
