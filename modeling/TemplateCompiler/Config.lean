import TemplateCompiler.Delimiters
import TemplateCompiler.FileSystem
import TemplateCompiler.Toml.Reader
import TemplateCompiler.Whitespace

/-!
# Configuration

What a compiler is told besides its templates: the directories that includes are looked for in,
named sets of delimiters and which of them is meant when none is named, the default treatment of
whitespace, and which escaper belongs to which file extension. A configuration is read from a TOML
table. Entries of another kind than expected are ignored where they stand alone, and refused where
they stand in a list of delimiter sets or escapers; a single value counts as its text.
-/

namespace TemplateCompiler

/-! ## Problems -/

inductive ConfigFault where
  | unknownWhitespace (value : String)
  | unnamedSyntax
  | repeatedSyntax (name : String)
  /-- A delimiter set with a field that there is not. -/
  | unknownField (name field : String)
  | badDelimiters (fault : Delimiters.Fault)
  | unknownDefault (name : String)
  | unknownSyntax (name : String)
  | unplacedEscaper
  /-- Extensions that are no list, and nothing else that holds several values. -/
  | notIterable (typeName : String)
  | missingFile (path : Path)
  | malformedFile (name : String)
  | unreadableFile (path : Path) (fault : ReadFault)
  | badNumber (fault : NumeralFault)

def ConfigFault.message : ConfigFault → String
  | .unknownWhitespace value => s!"invalid value for `whitespace`: \"{value}\""
  | .unnamedSyntax => "every [[syntax]] entry needs a name"
  | .repeatedSyntax name => s!"syntax \"{name}\" is already defined"
  | .unknownField name field =>
    let problem :=
      if field = "self" then "multiple values for argument" else "an unexpected keyword argument"
    s!"invalid syntax \"{name}\": Syntax.__init__() got {problem} " ++ "'" ++ field ++ "'"
  | .badDelimiters fault => fault.message
  | .unknownDefault name => s!"default syntax \"{name}\" not found"
  | .unknownSyntax name => s!"syntax \"{name}\" not found"
  | .unplacedEscaper => "every [[escaper]] entry needs a path"
  | .notIterable typeName => "'" ++ typeName ++ "' object is not iterable"
  | .missingFile path => s!"`{path.toString}` does not exist"
  | .malformedFile name => s!"invalid TOML in {name}"
  | .unreadableFile path fault => fault.message path
  | .badNumber fault => fault.message

/-- Is this a mistake in the configuration, of which its author is told? The others end the work. -/
def ConfigFault.isMistake : ConfigFault → Bool
  | .notIterable _ | .unreadableFile _ _ | .badNumber _ => false
  | _ => true

/-! ## Configurations -/

/-- File extensions and the escaper for them. -/
structure EscaperRule where
  extensions : List String
  escaper : String

structure Config where
  dirs : List Path
  /-- Delimiter sets by name, in the order in which they were defined. -/
  syntaxes : List (String × Delimiters)
  defaultSyntax : String
  whitespace : Whitespace
  /-- The first rule that holds decides. -/
  escapers : List EscaperRule

namespace Config

def fileName : String := "stencil.toml"

def defaultSyntaxName : String := "default"

def defaultEscapers : List EscaperRule :=
  [⟨["html", "htm", "j2", "jinja", "jinja2", "svg", "xml"], "html"⟩,
    ⟨["md", "none", "txt", "yml", ""], "text"⟩]

/-- The configuration of a place for which nothing is configured but directories. -/
def withDirs (dirs : List Path) : Config where
  dirs := dirs
  syntaxes := [(defaultSyntaxName, .standard)]
  defaultSyntax := defaultSyntaxName
  whitespace := .preserve
  escapers := defaultEscapers

/-- Nothing is configured: includes are looked for in the directory of templates below `root`. -/
def initial (root : Path) : Config :=
  withDirs [root.join (.ofString "templates")]

/-! ## Reading a configuration -/

open Toml (Value)

/-- The text of a value. An integer that is too long has none. -/
def text (v : Value) : Except ConfigFault String :=
  v.display.mapError .badNumber

def setDirs (root : Path) (general : Value) (c : Config) : Except ConfigFault Config :=
  match general.field? "dirs" with
  | some (.array dirs) => do
    return { c with dirs := (← dirs.mapM text).map fun d => root.join (.ofString d) }
  | _ => .ok c

def setDefaultSyntax (general : Value) (c : Config) : Config :=
  match general.field? "default_syntax" with
  | some (.string name) => { c with defaultSyntax := name }
  | _ => c

def setWhitespace (general : Value) (c : Config) : Except ConfigFault Config :=
  match general.field? "whitespace" with
  | some (.string name) =>
    match Whitespace.ofName? name with
    | some mode => .ok { c with whitespace := mode }
    | none => .error (.unknownWhitespace name)
  | _ => .ok c

/-- Sets one delimiter by the name of its field. -/
def setDelimiter? (field value : String) (d : Delimiters) : Option Delimiters :=
  match field with
  | "block_start" => some { d with blockStart := value }
  | "block_end" => some { d with blockEnd := value }
  | "expr_start" => some { d with exprStart := value }
  | "expr_end" => some { d with exprEnd := value }
  | "comment_start" => some { d with commentStart := value }
  | "comment_end" => some { d with commentEnd := value }
  | _ => none

/-- The delimiters that the fields of an entry give. -/
def readDelimiters (name : String) (d : Delimiters) :
    List (String × String) → Except ConfigFault Delimiters
  | [] => .ok d
  | (field, value) :: rest =>
    match setDelimiter? field value d with
    | some d => readDelimiters name d rest
    | none => .error (.unknownField name field)

/-- The fields of an entry that its name leaves, as texts. -/
def delimiterFields (fields : List (String × Value)) :
    Except ConfigFault (List (String × String)) :=
  (fields.filter (·.1 ≠ "name")).mapM fun (field, value) => do return (field, ← text value)

def addSyntax (c : Config) (entry : Value) : Except ConfigFault Config :=
  match entry with
  | .table fields =>
    match fields.lookup "name" with
    | none => .error .unnamedSyntax
    | some value => do
      let name ← text value
      if (c.syntaxes.lookup name).isSome then throw (.repeatedSyntax name)
      let d ← readDelimiters name .standard (← delimiterFields fields)
      match d.check with
      | .error fault => throw (.badDelimiters fault)
      | .ok () => return { c with syntaxes := c.syntaxes ++ [(name, d)] }
  | _ => .error .unnamedSyntax

def addSyntaxes (raw : Value) (c : Config) : Except ConfigFault Config :=
  match raw.field? "syntax" with
  | some (.array entries) => entries.foldlM addSyntax c
  | _ => .ok c

/-- The values that a value holds, as texts: of an array its items, of a table its keys, of a string
its characters. -/
def texts : Value → Except ConfigFault (List String)
  | .array items => items.mapM text
  | .table fields => .ok (fields.map (·.1))
  | .string s => .ok (s.toList.map String.singleton)
  | v => .error (.notIterable v.typeName)

def readEscaper (entry : Value) : Except ConfigFault EscaperRule :=
  match entry with
  | .table fields =>
    match fields.lookup "path" with
    | none => .error .unplacedEscaper
    | some path => do
      let extensions ← texts ((fields.lookup "extensions").getD (.array []))
      return ⟨extensions, ← text path⟩
  | _ => .error .unplacedEscaper

/-- Configured escapers come before the usual ones. -/
def addEscapers (raw : Value) (c : Config) : Except ConfigFault Config :=
  match raw.field? "escaper" with
  | some (.array entries) => do
    return { c with escapers := (← entries.mapM readEscaper) ++ defaultEscapers }
  | _ => .ok c

def checkDefault (c : Config) : Except ConfigFault Unit :=
  if (c.syntaxes.lookup c.defaultSyntax).isSome then .ok ()
  else .error (.unknownDefault c.defaultSyntax)

/-- The configuration that a table describes. Directories in it are seen from `root`. -/
def ofTable (fields : List (String × Value)) (root : Path) : Except ConfigFault Config := do
  let raw := Value.table fields
  let general := (raw.field? "general").getD (.table [])
  let c ← setDirs root general (initial root)
  let c ← setWhitespace general (setDefaultSyntax general c)
  let c ← addSyntaxes raw c
  checkDefault c
  addEscapers raw c

/-! ## Configuration files -/

/-- The file at `path`, or the one of the usual name below `root`. -/
def place (path : Option Path) (root : Path) : Path :=
  path.getD (root.join (.ofString fileName))

/-- The configuration in the bytes of a file. -/
def ofBytes (file : Path) (bytes : List UInt8) : Except ConfigFault Config :=
  match Text.Utf8.decode bytes with
  | .error m => .error (.unreadableFile file (.malformed m))
  | .ok text =>
    match Toml.read text with
    | .error .malformed => .error (.malformedFile file.name)
    | .error (.number fault) => .error (.badNumber fault)
    | .ok fields => ofTable fields file.parent

/-- Reads a configuration file. Only one that is looked for by its usual name may be missing. -/
def load (fs : FileSystem) (path : Option Path) (root : Path) : Except ConfigFault Config := do
  let file := place path root
  if ← (fs.isFile file).mapError (.unreadableFile file) then
    ofBytes file (← (fs.readBytes file).mapError (.unreadableFile file))
  else if path.isSome then throw (.missingFile file)
  else return initial root

/-! ## Using a configuration -/

/-- The delimiters of a name. The default is meant by no name and by an empty one. -/
def delimiters (c : Config) (name : Option String) : Except ConfigFault Delimiters :=
  let name := match name with
    | none | some "" => c.defaultSyntax
    | some name => name
  match c.syntaxes.lookup name with
  | some d => .ok d
  | none => .error (.unknownSyntax name)

/-- The escaper for a unit, by the extension of its name. -/
def escaperFor (c : Config) (unit : String) : String :=
  let extension := (Path.ofString unit).extension
  match c.escapers.find? (·.extensions.contains extension) with
  | some rule => rule.escaper
  | none => "text"

/-- Where the template of a name may be: beside the including file, else in one of the
directories. -/
def candidates (c : Config) (name : String) (includer : Option Path) : List Path :=
  let name := Path.ofString name
  (includer.toList.map fun p => p.parent.join name) ++ c.dirs.map (·.join name)

/-- The first of the places of a template that has a file, unless one before it is no path that a
file can have. -/
def findTemplate (c : Config) (fs : FileSystem) (name : String) (includer : Option Path) :
    Except (Path × ReadFault) (Option Path) :=
  (c.candidates name includer).findM? fun p => (fs.isFile p).mapError (p, ·)

def describeDirs (c : Config) : String :=
  "[" ++ ", ".intercalate (c.dirs.map fun d => "\"" ++ d.toString ++ "\"") ++ "]"

end Config

end TemplateCompiler
