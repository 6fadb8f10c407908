import TemplateCompiler.Compiler.Run
import TemplateCompiler.Uri.Basic

/-!
# Diagnostics in an editor

While a document is edited, its text is compiled in place of the file it will be saved to, and the
diagnostics are published for its address. Each is shown in the document itself, at the first of its
sites that lies there: a problem inside an included template is shown at the include tag that leads
to it. The other sites become related places.

Positions are counted from zero, and the editor knows no units but addresses.
-/

namespace TemplateCompiler.Editor

/-! ## What is published -/

structure Point where
  line : Nat
  character : Nat
deriving DecidableEq

structure Range where
  start : Point
  stop : Point
deriving DecidableEq

/-- A place that has to do with a notice, and what there is to it. -/
structure Related where
  uri : String
  range : Range
  message : String
deriving DecidableEq

/-- A diagnostic as an editor shows it. -/
structure Notice where
  range : Range
  message : String
  severity : Severity
  related : List Related
deriving DecidableEq

/-- All notices for a document. They take the place of those published before. -/
structure Publication where
  uri : String
  notices : List Notice

/-! ## Documents -/

/-- A document that is being edited. -/
structure Document where
  uri : String
  text : String
  /-- Where the document is, if its address says so. -/
  path : Option Path

namespace Document

def ofUri (uri text : String) : Except Uri.AuthorityFault Document := do
  let path ← Uri.documentPath uri
  return { uri, text, path := if path.isEmpty then none else some (.ofString path) }

/-- The name of the document as a unit. -/
def name (d : Document) : String :=
  match d.path with
  | some path => path.toString
  | none => d.uri

/-- The address of a unit. What is no file belongs to the document. -/
def uriOf (d : Document) (fs : FileSystem) (unit : String) : String :=
  if unit = d.name || unit.startsWith "<" then d.uri
  else Uri.ofPath (fs.herePath.join (.ofString unit))

end Document

/-! ## Notices -/

def Point.of (p : Position) : Point :=
  ⟨p.line - 1, p.column - 1⟩

def Range.of (s : Span) : Range :=
  ⟨.of s.start, .of s.stop⟩

/-- The sites with their messages: a diagnostic says at its own place what it is. -/
def labelledSites (d : Diagnostic) : List (Span × String) :=
  (d.span, d.message) :: d.secondary.map (·, "required from here")

/-- The first element for which `p` holds and the others, in order, if there is such an element. -/
def extract? {α : Type} (p : α → Bool) : List α → Option (α × List α)
  | [] => none
  | a :: rest =>
    if p a then some (a, rest)
    else (extract? p rest).map fun (found, others) => (found, a :: others)

/-- The site at which a diagnostic is shown, and the other sites. -/
def anchor (unit : String) (d : Diagnostic) : Span × List (Span × String) :=
  match extract? (·.1.unit = unit) (labelledSites d) with
  | some ((site, _), others) => (site, others)
  | none => (d.span, (labelledSites d).tail)

def notice (doc : Document) (fs : FileSystem) (d : Diagnostic) : Notice :=
  let (site, others) := anchor doc.name d
  { range := .of site
    message := d.message
    severity := d.severity
    related := others.map fun (s, message) => ⟨doc.uriOf fs s.unit, .of s, message⟩ }

/-- A mistake in the configuration has no place in the document and is shown at its start. -/
def configNotice (fault : ConfigFault) : Notice where
  range := ⟨⟨0, 0⟩, ⟨0, 0⟩⟩
  message := fault.message
  severity := .error
  related := []

/-! ## Publishing -/

/-- What to publish for a document. -/
def publication (fs : FileSystem) (doc : Document) : Except CompileFault Publication :=
  let root := (doc.path.map Path.parent).getD (.ofString ".")
  match Config.load fs none root with
  | .error fault =>
    if fault.isMistake then .ok ⟨doc.uri, [configNotice fault]⟩ else .error (.config fault)
  | .ok config =>
    let compiler : Compiler := { config }
    match (compiler.compileSource fs doc.text doc.name none doc.path).run {} with
    | .ok c _ => .ok ⟨doc.uri, c.diagnostics.map (notice doc fs)⟩
    | .error fault _ => .error fault

end TemplateCompiler.Editor
