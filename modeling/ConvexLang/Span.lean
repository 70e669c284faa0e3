/-!
# Spans

A span marks a stretch of a line by the byte offsets of its ends.
-/

namespace ConvexLang

/-- A stretch of a line: the bytes from `first` up to but excluding `past`. -/
structure Span where
  /-- The offset of its first byte. -/
  first : Nat
  /-- The offset just past its last byte. -/
  past : Nat
  deriving DecidableEq, Repr

namespace Span

/-- The number of bytes covered; a reversed span covers none. -/
def size (s : Span) : Nat :=
  s.past - s.first

/-- Whether no byte is covered. -/
def isEmpty (s : Span) : Bool :=
  s.size = 0

/-- The smallest span that covers both. -/
def cover (s t : Span) : Span where
  first := min s.first t.first
  past := max s.past t.past

end Span

end ConvexLang
