namespace MockDialect.Text

/-- The half-open range `[start, stop)` of byte offsets. -/
@[ext] structure Span where
  start : Nat
  stop : Nat
  deriving DecidableEq

namespace Span

def point (offset : Nat) : Span := ⟨offset, offset⟩

/-- Number of bytes covered; a reversed range covers none. -/
def length (s : Span) : Nat := s.stop - s.start

def isEmpty (s : Span) : Bool := s.length == 0

def contains (s t : Span) : Bool := s.start ≤ t.start && t.stop ≤ s.stop

def isBefore (s t : Span) : Bool :=
  s.start < t.start || (s.start == t.start && s.stop < t.stop)

def render (s : Span) : String := toString s.start ++ ".." ++ toString s.stop

theorem contains_iff {s t : Span} : s.contains t = true ↔ s.start ≤ t.start ∧ t.stop ≤ s.stop := by
  simp [contains]

theorem contains_refl (s : Span) : s.contains s = true := by
  simp [contains]

end Span

end MockDialect.Text
