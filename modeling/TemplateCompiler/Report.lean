import TemplateCompiler.Diagnostic

/-!
# Reports

A report shows a diagnostic the way compilers do: one line with the severity and the message, then
for every site the location, the source line it starts on and carets under the range.

The line is the one that the scanner counted: lines end at line feeds only, and the carriage returns
that end a quoted line are not shown. A range that goes on to a later line is underlined up to the
end of its first. A site whose text is not at hand is shown by its location alone.
-/

namespace TemplateCompiler.Report

/-! ## Lines -/

/-- The lines of a text, without the line feeds between them. There is always at least one. -/
def lines : List Char → List (List Char)
  | [] => [[]]
  | c :: rest =>
    match lines rest with
    | [] => [[c]]
    | line :: more => if c = '\n' then [] :: line :: more else (c :: line) :: more

/-- A line without the carriage returns at its end. -/
def withoutReturns (line : List Char) : List Char :=
  (line.reverse.dropWhile (· = '\r')).reverse

/-- The line of that number, counted from one, as it is quoted. Beyond the text it is empty. -/
def quotedLine (text : List Char) (number : Nat) : List Char :=
  if number = 0 then [] else withoutReturns ((lines text).getD (number - 1) [])

/-- How many carets underline a range that starts on a line of that length: all of the range if it
ends on the same line, else what is left of the line, and at least one. -/
def underlineLength (span : Span) (lineLength : Nat) : Nat :=
  if span.stop.line = span.start.line then max 1 (span.stop.column - span.start.column)
  else max 1 (lineLength + 1 - span.start.column)

/-! ## Excerpts -/

def spaces (n : Nat) : String :=
  String.ofList (List.replicate n ' ')

def excerpt (span : Span) (text? : Option String) : List String :=
  let number := toString span.start.line
  let gutter := spaces (number.length + 1)
  let location := s!"{gutter}--> {span.unit}:{span.start.line}:{span.start.column}"
  match text? with
  | none => [location]
  | some text =>
    let line := quotedLine text.toList span.start.line
    let carets := String.ofList (List.replicate (underlineLength span line.length) '^')
    [location,
      s!"{gutter}|",
      s!"{number} | {String.ofList line}",
      s!"{gutter}| {spaces (span.start.column - 1)}{carets}"]

/-! ## Whole reports -/

/-- The texts of the source units, by name. -/
abbrev Sources := List (String × String)

def render (sources : Sources) (d : Diagnostic) : String :=
  "\n".intercalate
    (s!"{d.severity.label}: {d.message}" ::
      d.sites.flatMap fun site => excerpt site (sources.lookup site.unit))

/-- Several diagnostics, with an empty line between two. -/
def renderAll (sources : Sources) (ds : List Diagnostic) : String :=
  "\n\n".intercalate (ds.map (render sources))

end TemplateCompiler.Report
