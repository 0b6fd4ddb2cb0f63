/-!
# Spans

A span is a half-open stretch of a text, counted in bytes of its UTF-8 form.  Spans that the lexer
and the parser produce run forwards; a span that somebody else supplies (in an edit, say) may run
backwards, so nothing here assumes an order of the two ends.
-/

namespace MethodLift

/-- A stretch of text: the byte offset of its first byte and the offset just after its last one. -/
structure Span where
  start : Nat
  stop : Nat
deriving DecidableEq, Repr, Inhabited

namespace Span

/-- The empty span at an offset. -/
def point (offset : Nat) : Span := ⟨offset, offset⟩

/-- The number of bytes covered; a span that runs backwards covers none. -/
def length (s : Span) : Nat := s.stop - s.start

/-- Whether no byte is covered. -/
def isEmpty (s : Span) : Bool := s.stop ≤ s.start

/-- Whether `inner` lies within `outer`, ends included. -/
def contains (outer inner : Span) : Bool := outer.start ≤ inner.start && inner.stop ≤ outer.stop

/-- Whether the byte at `offset` is covered. -/
def covers (s : Span) (offset : Nat) : Bool := s.start ≤ offset && offset < s.stop

/-- Spans in reading order: by where they start, then by where they stop. -/
def before (a b : Span) : Bool := a.start < b.start || (a.start == b.start && a.stop < b.stop)

/-- Reading order, with equal spans counted as ordered. -/
def notAfter (a b : Span) : Bool := !b.before a

/-- The span moved towards the end of the text. -/
def shift (s : Span) (distance : Nat) : Span := ⟨s.start + distance, s.stop + distance⟩

/-- The span as messages show it: `3..7`. -/
def ends (s : Span) : String := s!"{s.start}..{s.stop}"

end Span

end MethodLift
