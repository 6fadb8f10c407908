import TemplateCompiler.Text.Trim

/-!
# Whitespace control

What becomes of the blanks that a literal text has next to a tag. They are kept, removed, or
minimised: a run that holds a line feed becomes one line feed, any other run one space, and where
there was nothing, nothing is added. A tag chooses by a marker on its delimiter, and without one the
template's default holds.
-/

namespace TemplateCompiler

inductive Whitespace where
  | preserve
  | suppress
  | minimize
deriving DecidableEq

namespace Whitespace

/-! ## Names and markers -/

def all : List Whitespace := [.preserve, .suppress, .minimize]

def name : Whitespace → String
  | .preserve => "preserve"
  | .suppress => "suppress"
  | .minimize => "minimize"

def ofName? (name : String) : Option Whitespace :=
  all.find? (·.name = name)

/-- The characters that may stand as a marker inside an opening or closing delimiter. -/
def isMarker (c : Char) : Bool :=
  c = '-' || c = '~' || c = '+'

def ofMarker? (marker : String) : Option Whitespace :=
  if marker = "-" then some .suppress
  else if marker = "~" then some .minimize
  else if marker = "+" then some .preserve
  else none

/-! ## Trimming -/

/-- What takes the place of a run of blanks. -/
def replace (mode : Whitespace) (run : List Char) : List Char :=
  match mode with
  | .preserve => run
  | .suppress => []
  | .minimize => if run.isEmpty then [] else if run.contains '\n' then ['\n'] else [' ']

def trimLeft (mode : Whitespace) (text : List Char) : List Char :=
  mode.replace (Text.leadingBlanks text) ++ Text.dropLeadingBlanks text

def trimRight (mode : Whitespace) (text : List Char) : List Char :=
  Text.dropTrailingBlanks text ++ mode.replace (Text.trailingBlanks text)

end Whitespace

end TemplateCompiler
