import TemplateCompiler.CommandLine.Arguments
import TemplateCompiler.Compiler.Run
import TemplateCompiler.Program.Outline

/-!
# Command-line runs

A run reads its arguments, sets up a compiler, compiles every template with it and shows what came
of each: its outline if that is asked for, or a report of its problems. The configuration is looked
for beside the first template. Nothing is compiled unless all templates are there.

The exit code is 0 if everything was compiled, 1 if templates have problems, and 2 if the run could
not be carried out.
-/

namespace TemplateCompiler.CommandLine

/-- How a run ends, and the texts it writes on the way. -/
structure Outcome where
  exitCode : Nat
  output : String
  /-- What is told beside the output: faults, reports and, if it is asked for, the log. -/
  messages : String

/-- What ends a run without an outcome. -/
inductive RunFault where
  /-- There are several templates, and the number of them to compile at a time was taken back. -/
  | missingJobCount
  /-- `inParallel` says whether several templates were being compiled. -/
  | compile (inParallel : Bool) (fault : CompileFault)

def RunFault.message : RunFault → String
  | .missingJobCount => "'<=' not supported between instances of 'list' and 'int'"
  | .compile _ fault => fault.message

def helpText : String :=
  "usage: stencil [-h] [-c FILE] [--syntax NAME]
               [--whitespace \x7bpreserve,suppress,minimize\x7d] [-j N] [--dump]
               [-v]
               TEMPLATE [TEMPLATE ...]

Compile templates and report macro binding diagnostics

positional arguments:
  TEMPLATE              Template files to compile

options:
  -h, --help            show this help message and exit
  -c FILE, --config FILE
                        Config file (default: auto-discover stencil.toml)
  --syntax NAME         Delimiter syntax to use (default: from config)
  --whitespace \x7bpreserve,suppress,minimize\x7d
                        Whitespace handling next to tags (default: from
                        config)
  -j N, --jobs N        Compile up to N templates in parallel (default: 1)
  --dump                Print the render program to stdout
  -v, --verbose         Log compiler activity to stderr
"

def unlines (lines : List String) : String :=
  String.join (lines.map (· ++ "\n"))

/-- A run that is given up. -/
def failure (lines : List String) : Outcome :=
  ⟨2, "", unlines lines⟩

namespace Arguments

def paths (a : Arguments) : List Path :=
  a.templates.map .ofString

/-- An empty name is none. -/
def configPath? (a : Arguments) : Option Path :=
  match a.config with
  | none | some "" => none
  | some path => some (.ofString path)

/-- The directory of the first template. -/
def root (a : Arguments) : Path :=
  (a.paths.head?.map Path.parent).getD (.ofString ".")

/-- The compiler that the arguments and the configuration ask for. The delimiters are looked up at
once, so that an unknown name is found before any template is. -/
def compiler (a : Arguments) (fs : FileSystem) : Except ConfigFault Compiler := do
  let config ← Config.load fs a.configPath? a.root
  let _ ← config.delimiters a.syntaxName
  return { config, syntaxName := a.syntaxName, whitespace := a.whitespace }

def inParallel (a : Arguments) : Bool :=
  a.jobs ≠ some 1 && 1 < a.templates.length

/-- Compiles all templates in order with what one of them leaves in memory for the next. Doing them
at the same time changes nothing but the log. -/
def compileAll (a : Arguments) (c : Compiler) (fs : FileSystem) : CompileM (List Compilation) := do
  match a.jobs with
  | some workers =>
    if a.inParallel then Compiler.tell (.starting a.templates.length workers)
  | none => pure ()
  a.paths.mapM (c.compileFile fs)

/-- The lines of the log that are shown. -/
def shownLog (a : Arguments) (events : List Event) : List String :=
  if a.verbose then events.map (·.line) else []

/-- What is told of one result. -/
def resultLines (a : Arguments) (c : Compilation) : List String :=
  match c.program with
  | some _ => a.shownLog [.compiled c.unit.name]
  | none => [c.report]

/-- What one result writes to the output. -/
def resultOutput (a : Arguments) (c : Compilation) : String :=
  match c.program with
  | some program => if a.dump then program.outline else ""
  | none => ""

/-- The outcome of a run with results for all templates. -/
def summary (a : Arguments) (log : List Event) (results : List Compilation) : Outcome :=
  let failed := (results.filter (·.program.isNone)).length
  let total := results.length
  let verdict :=
    if failed = 0 then [] else [s!"error: {failed} of {total} template(s) failed to compile"]
  { exitCode := if failed = 0 then 0 else 1
    output := String.join (results.map a.resultOutput)
    messages := unlines (a.shownLog log ++ results.flatMap a.resultLines ++ verdict) }

/-- The templates that are not there. -/
def missing (a : Arguments) (fs : FileSystem) : Except CompileFault (List Path) :=
  a.paths.filterM fun path => do
    return !(← (fs.isFile path).mapError (.unreadable path))

/-- Compiles all templates, which are there, and shows the results. -/
def compileThere (a : Arguments) (c : Compiler) (fs : FileSystem) : Except RunFault Outcome :=
  if a.inParallel && a.jobs.isNone then .error .missingJobCount
  else
    match (a.compileAll c fs).run {} with
    | .ok results s => .ok (a.summary s.events results)
    | .error (.unreadable path fault) s =>
      .ok (failure (a.shownLog s.events ++ [s!"error: {fault.message path}"]))
    | .error fault _ => .error (.compile a.inParallel fault)

/-- Carries out what the arguments ask for. -/
def run (a : Arguments) (fs : FileSystem) : Except RunFault Outcome :=
  match a.compiler fs with
  | .error fault =>
    if fault.isMistake then .ok (failure [s!"error: {fault.message}"])
    else .error (.compile false (.config fault))
  | .ok c =>
    match a.missing fs with
    | .error fault => .error (.compile false fault)
    | .ok [] => a.compileThere c fs
    | .ok missing =>
      .ok (failure (missing.map fun path => s!"error: template `{path.toString}` does not exist"))

end Arguments

/-- Runs the command with the words of its command line. -/
def run (fs : FileSystem) (words : List String) : Except RunFault Outcome :=
  match Arguments.read words with
  | .error .help => .ok ⟨0, helpText, ""⟩
  | .error (.misuse fault) => .ok (failure [s!"stencil: error: {fault.message}"])
  | .ok a => a.run fs

end TemplateCompiler.CommandLine
