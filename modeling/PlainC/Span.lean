/-!
# Positions and spans

A position is a line and a byte column, both counted from one. A span is a range of positions with both
ends included: its last position is that of the last byte it covers.
-/

namespace PlainC

structure Position where
  line : Nat
  col : Nat
  deriving DecidableEq, Repr

/-- Reading order: by line, then by column. -/
def Position.before (a b : Position) : Bool :=
  a.line < b.line || (a.line = b.line && a.col ≤ b.col)

structure Span where
  first : Position
  last : Position
  deriving DecidableEq, Repr

namespace Span

def isWithinLine (span : Span) : Bool := span.first.line = span.last.line

/-- Whether `inner` lies entirely within `outer`. -/
def contains (outer inner : Span) : Bool :=
  outer.first.before inner.first && inner.last.before outer.last

end Span

end PlainC
