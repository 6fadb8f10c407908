import TemplateCompiler.Text.Properties

/-!
# Blank runs at the ends of a text
-/

namespace TemplateCompiler.Text

/-- The blanks that a text starts with. -/
def leadingBlanks (text : List Char) : List Char :=
  text.takeWhile isBlank

def dropLeadingBlanks (text : List Char) : List Char :=
  text.dropWhile isBlank

/-- The blanks that a text ends with. -/
def trailingBlanks (text : List Char) : List Char :=
  (text.reverse.takeWhile isBlank).reverse

def dropTrailingBlanks (text : List Char) : List Char :=
  (text.reverse.dropWhile isBlank).reverse

end TemplateCompiler.Text
