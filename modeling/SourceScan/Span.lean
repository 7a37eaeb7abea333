/-!
# Spans

Where a piece of source text stands: a half-open range of bytes, and the line and column of its
first character. Offsets count UTF-8 bytes; lines and columns count from one, and a column counts
characters.

Any two offsets make a span, also with `stop < start`; such a span covers nothing, so its length
is `0` and it contains no offset.
-/

namespace SourceScan

/-- **A stretch of source text.** The bytes `start ≤ o < stop`, with the line and column at
`start`. -/
structure Span where
  start : Nat
  stop : Nat
  line : Nat
  column : Nat
deriving DecidableEq, Inhabited

namespace Span

/-- A place without extent: only the line and the column are known. -/
def point (line column : Nat) : Span := ⟨0, 0, line, column⟩

/-- The span of what has no place in the source. -/
def nowhere : Span := ⟨0, 0, 0, 0⟩

def length (s : Span) : Nat := s.stop - s.start

def isEmpty (s : Span) : Bool := s.start == s.stop

def contains (s : Span) (offset : Nat) : Bool := s.start ≤ offset && offset < s.stop

/-- **Covering two spans.** The smallest range that covers both, at the place of the first. -/
def cover (s t : Span) : Span := ⟨min s.start t.start, max s.stop t.stop, s.line, s.column⟩

/-- A span is written as its line and column. -/
instance : ToString Span := ⟨fun s => s!"{s.line}:{s.column}"⟩

end Span

end SourceScan
