import TemplateCompiler.Compiler.Basic

/-!
# Compiling units and what they include

A unit is parsed; if that leaves no complaints its calls are bound and its includes compiled, and if
there are still no diagnostics it becomes a program. The stack holds the resolved paths of the files
on the way from the first unit to the current one. An include of a file on the stack, or one that
would make the stack too long, is a diagnostic of the including unit. Such a diagnostic depends on
where the compilation started, so a result that it went into is not remembered.
-/

namespace TemplateCompiler

namespace Compiler

/-- A result, and whether it depends on the stack it was reached with. -/
structure Outcome where
  compilation : Compilation
  contextual : Bool

/-! ## Includes -/

/-- What the includes of a unit have come to so far. -/
structure Included where
  programs : Inclusions := []
  diagnostics : List Diagnostic
  sources : Report.Sources
  contextual : Bool := false

def Included.refuse (done : Included) (span : Span) (problem : IncludeProblem) : Included :=
  { done with diagnostics := done.diagnostics ++ [⟨problem.message, span, [], .error⟩] }

/-- The include tags of a template with the paths in them, in source order. -/
def includeTags (t : Template) : List (String × Span) :=
  (Template.walkAll t.body).filterMap fun
    | .inclusion path span => some (path, span)
    | _ => none

def liftConfig {α : Type} : Except ConfigFault α → CompileM α
  | .ok a => pure a
  | .error fault => throw (.config fault)

def liftRead {α : Type} : Except (Path × ReadFault) α → CompileM α
  | .ok a => pure a
  | .error (path, fault) => throw (.unreadable path fault)

/-- The resolved path of a file. -/
def locate (fs : FileSystem) (path : Path) : CompileM Path :=
  liftRead ((fs.locate path).mapError (path, ·))

/-- What `work` gives, or the fault if it ends because a file cannot be read. -/
def readable {α : Type} (work : CompileM α) : CompileM (Except (Path × ReadFault) α) :=
  tryCatch (Except.ok <$> work) fun
    | .unreadable path fault => return .error (path, fault)
    | fault => throw fault

/-- Compiles what one include tag of a unit names. `compile` compiles a file from the stack. -/
def resolveInclude (c : Compiler) (fs : FileSystem) (compile : Path → CompileM Outcome)
    (unit : SourceUnit) (stack : List Path) (done : Included) :
    String × Span → CompileM Included
  | (path, span) => do
    match ← liftRead (c.config.findTemplate fs path unit.path) with
    | none => return done.refuse span (.notFound path c.config.describeDirs)
    | some found =>
      if stack.contains (fs.resolve found) then
        return { done.refuse span (.circular path) with contextual := true }
      else if c.maxIncludeDepth ≤ stack.length then
        return { done.refuse span (.tooDeep c.maxIncludeDepth) with contextual := true }
      else
        tell (.includes unit.name found.toString)
        match ← readable (compile found) with
        | .error (file, fault) =>
          return done.refuse span (.unreadable path (fault.message file))
        | .ok outcome =>
          let dep := outcome.compilation
          let done :=
            { done with
              sources := addSources done.sources dep.sources
              contextual := done.contextual || outcome.contextual }
          match dep.program with
          | some program => return { done with programs := (span, program) :: done.programs }
          | none =>
            let reached := dep.diagnostics.map (·.through span)
            return { done with diagnostics := done.diagnostics ++ reached }

/-! ## Units -/

/-- Compiles a unit whose source has no complaints. -/
def runParsed (c : Compiler) (fs : FileSystem) (compile : List Path → Path → CompileM Outcome)
    (unit : SourceUnit) (stack : List Path) (t : Template) : CompileM Outcome := do
  let (table, shadowings) := t.macroTable
  shadowings.forM fun s => tell (.shadows s)
  let (bindings, problems) := bindAll t table
  let stack := stack ++ unit.path.toList
  let start : Included :=
    { diagnostics := problems.map (·.diagnostic BindProblem.message)
      sources := unit.sources }
  let done ← (includeTags t).foldlM (resolveInclude c fs (compile stack) unit stack) start
  if done.diagnostics.isEmpty then
    let g : Generator :=
      { table, bindings, includes := done.programs, escaper := c.config.escaperFor unit.name }
    match g.program t unit.name with
    | .ok program => return ⟨← finish unit (some program) [] done.sources, done.contextual⟩
    | .error fault => throw (.generation fault)
  else return ⟨← finish unit none done.diagnostics done.sources, done.contextual⟩

/-- Compiles a unit. `compile` compiles a file it includes, from the stack behind it. -/
def run (c : Compiler) (fs : FileSystem) (compile : List Path → Path → CompileM Outcome)
    (unit : SourceUnit) (stack : List Path) : CompileM Outcome := do
  let delimiters ← liftConfig (c.config.delimiters c.syntaxName)
  let setting : Parser.Setting := ⟨unit.name, c.whitespace.getD c.config.whitespace⟩
  match parse setting delimiters unit.text with
  | .error stop => throw (.stopped unit delimiters stop)
  | .ok parsed =>
    if parsed.complaints.isEmpty then runParsed c fs compile unit stack parsed.template
    else
      return ⟨← finish unit none (parsed.diagnostics delimiters) (unit.sources), false⟩

/-- Compiles a unit, unless its compilation is remembered. -/
def compileUnit (c : Compiler) (fs : FileSystem) (compile : List Path → Path → CompileM Outcome)
    (unit : SourceUnit) (key : MemoKey) (stack : List Path) : CompileM Outcome := do
  match ← remembered key with
  | some earlier =>
    tell (.reusing unit.name)
    return ⟨earlier, false⟩
  | none =>
    tell (.compiling unit.name)
    let outcome ← run c fs compile unit stack
    if outcome.contextual then return outcome
    else return ⟨← remember key outcome.compilation, false⟩

/-! ## Files and inline sources -/

/-- Compiles a file from a stack. -/
def compilePath (c : Compiler) (fs : FileSystem) : Nat → List Path → Path → CompileM Outcome
  | 0, _, _ => throw .outOfFuel
  | fuel + 1, stack, path => do
    let resolved ← locate fs path
    match ← remembered (.file resolved) with
    | some earlier =>
      tell (.reusing path.toString)
      return ⟨earlier, false⟩
    | none =>
      match fs.readText path with
      | .error fault => throw (.unreadable path fault)
      | .ok text =>
        let unit : SourceUnit := { name := path.toString, text, path := some resolved }
        compileUnit c fs (compilePath c fs fuel) unit (.file resolved) stack

/-- Enough fuel for any chain of includes: each makes the stack longer, and its length has a
limit. -/
def includeFuel (c : Compiler) : Nat :=
  c.maxIncludeDepth.toNat + 2

/-- Compiles a template file. -/
def compileFile (c : Compiler) (fs : FileSystem) (path : Path) : CompileM Compilation := do
  return (← compilePath c fs c.includeFuel [] path).compilation

/-- Where the includes of a file may lie. -/
def includeCandidates (c : Compiler) (fs : FileSystem) (path : Path) : List Path :=
  match c.config.delimiters c.syntaxName, fs.readText path with
  | .ok delimiters, .ok text =>
    match parse ⟨path.toString, c.config.whitespace⟩ delimiters text with
    | .ok parsed =>
      (includeTags parsed.template).flatMap fun (name, _) =>
        c.config.candidates name (some (fs.resolve path))
    | .error _ => []
  | _, _ => []

/-- Compiles an inline source. Its path, if it has one, is where relative includes are looked for
from; the text is never read from there. -/
def compileSource (c : Compiler) (fs : FileSystem) (text name : String) (origin : Option Span)
    (path : Option Path) : CompileM Compilation := do
  let resolved ← path.mapM (locate fs)
  let unit : SourceUnit := { name, text, path := resolved, origin }
  let key : MemoKey := .inline name text origin resolved
  return (← compileUnit c fs (compilePath c fs c.includeFuel) unit key []).compilation

end Compiler

end TemplateCompiler
