/-!
# Sets of code points

A property of characters, such as "is a letter", is a set of code points, and the sets of the
Unicode standard come in long runs. A set is therefore kept as its run lengths: so many code points
outside, so many inside, so many outside again. Membership walks the runs and subtracts, and stops
in the first run or two for the characters that templates are mostly made of.
-/

namespace TemplateCompiler.Text

/-- A set of code points, as the lengths of its runs in ascending order. The first run lies outside
the set, the second inside, and so on in turn; what follows the last run lies outside. -/
structure CodePoints where
  runs : List Nat

namespace CodePoints

/-- Is the `n`-th code point of the remaining runs inside, when the first of them is or is not? -/
def insideAt : List Nat → Bool → Nat → Bool
  | [], _, _ => false
  | run :: runs, inside, n => if n < run then inside else insideAt runs (!inside) (n - run)

def contains (s : CodePoints) (c : Char) : Bool :=
  insideAt s.runs false c.toNat

end CodePoints

end TemplateCompiler.Text
