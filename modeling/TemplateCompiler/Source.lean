/-!
# Places in a source text

A source unit is a text with a name. A `Position` counts lines and columns from one and characters
from zero; only a line feed ends a line, so a carriage return is a column like any other. A `Span`
is a half-open range of one unit.

Spans come from the scanner in order, but a caller may also hand in positions of its own. The two
ways to build a span from positions that were computed elsewhere, `Span.between` and `Span.upTo`,
therefore refuse an end that lies before the start.
-/

namespace TemplateCompiler

/-! ## Positions -/

structure Position where
  line : Nat
  column : Nat
  offset : Nat
deriving DecidableEq

namespace Position

/-- Where every text begins. -/
def initial : Position := ⟨1, 1, 0⟩

/-- The position behind a character that stands at `p`. -/
def next (p : Position) (c : Char) : Position :=
  if c = '\n' then ⟨p.line + 1, 1, p.offset + 1⟩ else ⟨p.line, p.column + 1, p.offset + 1⟩

/-- The position behind a text that starts at `p`. -/
def advance (p : Position) (text : List Char) : Position :=
  text.foldl next p

def describe (p : Position) : String :=
  s!"Position(line={p.line}, column={p.column}, offset={p.offset})"

end Position

/-! ## Spans -/

/-- The range from `start` up to but not including `stop`. -/
structure Span where
  start : Position
  stop : Position
  unit : String
deriving DecidableEq

/-- The two ends of a range that would end before it starts. -/
structure ReversedSpan where
  start : Position
  stop : Position
deriving DecidableEq

def ReversedSpan.message (r : ReversedSpan) : String :=
  s!"span ends before it starts: {r.start.describe} > {r.stop.describe}"

namespace Span

def between (start stop : Position) (unit : String) : Except ReversedSpan Span :=
  if stop.offset < start.offset then .error ⟨start, stop⟩ else .ok ⟨start, stop, unit⟩

/-- From the start of `s` to the end of `t`, in the unit of `s`. -/
def upTo (s t : Span) : Except ReversedSpan Span :=
  between s.start t.stop s.unit

end Span

/-! ## Things found at a place -/

/-- A fault of some kind and the range of source that it is about. -/
structure Located (π : Type) where
  problem : π
  span : Span
deriving DecidableEq

end TemplateCompiler
