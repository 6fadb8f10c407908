import TemplateCompiler.Config
import TemplateCompiler.Log
import TemplateCompiler.Program.Generate
import TemplateCompiler.Report
import TemplateCompiler.Template.Parser.Statement

/-!
# Compilations

A compiler turns source units into compilations: a program, or diagnostics that say why there is
none. It remembers finished compilations, so that a template that is included from many places is
compiled once, and it tells what it does.
-/

namespace TemplateCompiler

/-- One template source. -/
structure SourceUnit where
  name : String
  text : String
  /-- Where relative includes are looked for: the resolved path of the unit. -/
  path : Option Path := none
  /-- The host declaration that an inline source belongs to. -/
  origin : Option Span := none

/-- The text of the unit under its name. -/
def SourceUnit.sources (unit : SourceUnit) : Report.Sources :=
  [(unit.name, unit.text)]

/-- The result of compiling one unit. -/
structure Compilation where
  /-- How many compilations the compiler had finished before. No two of its compilations have the
  same number. -/
  serial : Nat
  unit : SourceUnit
  program : Option Program
  diagnostics : List Diagnostic
  /-- The texts of all units that diagnostics may point into. -/
  sources : Report.Sources

namespace Compilation

def ok (c : Compilation) : Bool :=
  c.diagnostics.isEmpty

def report (c : Compilation) : String :=
  Report.renderAll c.sources c.diagnostics

end Compilation

/-- Adds source texts, in the place of those of the same name. -/
def addSources (sources : Report.Sources) : Report.Sources → Report.Sources
  | [] => sources
  | (name, text) :: rest =>
    let sources :=
      if (sources.lookup name).isSome then
        sources.map fun entry => if entry.1 = name then (name, text) else entry
      else sources ++ [(name, text)]
    addSources sources rest

/-! ## Problems -/

/-- Why an include tag has no program. -/
inductive IncludeProblem where
  | notFound (path dirs : String)
  | circular (path : String)
  | tooDeep (limit : Int)
  | unreadable (path reason : String)

def IncludeProblem.message : IncludeProblem → String
  | .notFound path dirs => s!"template \"{path}\" not found in directories {dirs}"
  | .circular path => s!"circular include of `{path}`"
  | .tooDeep limit => s!"include depth limit ({limit}) exceeded"
  | .unreadable path reason => s!"unable to read template `{path}`: {reason}"

/-- What ends a compilation without a result. -/
inductive CompileFault where
  | config (fault : ConfigFault)
  | unreadable (path : Path) (fault : ReadFault)
  | stopped (unit : SourceUnit) (delimiters : Delimiters) (stop : Parser.Stop)
  | generation (fault : GenerationFault)
  | outOfFuel

def CompileFault.message : CompileFault → String
  | .config fault => fault.message
  | .unreadable path fault => fault.message path
  | .stopped unit delimiters stop => s!"{unit.name}: {stop.message delimiters}"
  | .generation fault => fault.message
  | .outOfFuel => "out of fuel"

/-! ## Compilers -/

/-- What a compiler is set up with. -/
structure Compiler where
  config : Config
  syntaxName : Option String := none
  /-- The treatment of whitespace, where it is not left to the configuration. -/
  whitespace : Option Whitespace := none
  maxIncludeDepth : Int := 16

namespace Compiler

/-- What identifies a template: the resolved path of a file, or all that is given with an inline
source. -/
inductive MemoKey where
  | file (path : Path)
  | inline (name text : String) (origin : Option Span) (path : Option Path)
deriving DecidableEq

/-- What a compiler has done so far. -/
structure State where
  memo : List (MemoKey × Compilation) := []
  /-- The log, in order. -/
  events : List Event := []
  /-- How many compilations are finished. -/
  finished : Nat := 0

end Compiler

/-- The work of a compiler. What it has finished and told stays, also when it ends in a fault. -/
abbrev CompileM := EStateM CompileFault Compiler.State

namespace Compiler

def tell (e : Event) : CompileM Unit :=
  modify fun s => { s with events := s.events ++ [e] }

/-- The remembered compilation of a template. -/
def remembered (key : MemoKey) : CompileM (Option Compilation) := do
  return (← get).memo.lookup key

/-- Remembers a compilation, unless there already is one of that template, and gives the remembered
one. -/
def remember (key : MemoKey) (c : Compilation) : CompileM Compilation := do
  match ← remembered key with
  | some earlier => return earlier
  | none =>
    modify fun s => { s with memo := s.memo ++ [(key, c)] }
    return c

/-- A finished compilation. Its diagnostics lead back to the origin of the unit, if it has one. -/
def finish (unit : SourceUnit) (program : Option Program) (diagnostics : List Diagnostic)
    (sources : Report.Sources) : CompileM Compilation := do
  let serial := (← get).finished
  modify fun s => { s with finished := s.finished + 1 }
  let diagnostics :=
    match unit.origin with
    | none => diagnostics
    | some site => diagnostics.map (·.through site)
  return { serial, unit, program, diagnostics, sources }

end Compiler

end TemplateCompiler
