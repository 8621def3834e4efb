/-!
# Spans

A span is a half-open range of byte offsets in a text. Diagnostics, syntax tree nodes and matched
records all point into their text with one.
-/

namespace TracedGrammar

/-- A half-open range of byte offsets: `start` is the first offset inside, `stop` the first one
after. -/
structure Span where
  start : Nat
  stop : Nat
deriving DecidableEq, Inhabited

namespace Span

/-- The empty span at an offset. -/
def point (offset : Nat) : Span :=
  ⟨offset, offset⟩

/-- The number of bytes covered; a span that ends before it starts covers none. -/
def length (span : Span) : Nat :=
  span.stop - span.start

/-- Whether the span covers no byte. -/
def isEmpty (span : Span) : Bool :=
  span.stop ≤ span.start

/-- The written form, `start..stop`. -/
def display (span : Span) : String :=
  s!"{span.start}..{span.stop}"

theorem isEmpty_iff_length_eq_zero (span : Span) : span.isEmpty ↔ span.length = 0 := by
  simp [isEmpty, length]
  omega

end Span

end TracedGrammar
