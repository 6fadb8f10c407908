/-!
# Splitting at a separator

Paths, addresses and groups of digits are pieces of text between separators.
-/

namespace TemplateCompiler.Text

/-- The pieces of a text between separators, and there is always one. -/
def split (separator : Char) : List Char → List (List Char)
  | [] => [[]]
  | c :: rest =>
    match split separator rest with
    | [] => [[c]]
    | piece :: more => if c = separator then [] :: piece :: more else (c :: piece) :: more

/-- What follows the last separator, or the whole text. -/
def afterLast (separator : Char) (text : List Char) : List Char :=
  (text.reverse.takeWhile (· ≠ separator)).reverse

end TemplateCompiler.Text
