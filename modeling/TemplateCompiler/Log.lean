import TemplateCompiler.Macro.Table

/-!
# The activity log

What a compiler tells about its work: which units it compiles or takes from its memory, what they
include, and which macro definitions hide others. Everything is told in order; who listens decides
by level.
-/

namespace TemplateCompiler

inductive Event where
  | compiling (unit : String)
  | reusing (unit : String)
  | includes (unit found : String)
  | shadows (s : Shadowing)
  | compiled (unit : String)
  | starting (templates : Nat) (workers : Nat)

namespace Event

/-- The part of the compiler that tells of the event. -/
def source : Event → String
  | .compiling _ | .reusing _ | .includes _ _ => "stencil.compiler"
  | .shadows _ => "stencil.macros"
  | .compiled _ | .starting _ _ => "stencil.cli"

def level : Event → String
  | .compiled _ => "INFO"
  | _ => "DEBUG"

def message : Event → String
  | .compiling unit => s!"compiling {unit}"
  | .reusing unit => s!"reusing compilation of {unit}"
  | .includes unit found => s!"{unit} includes {found}"
  | .shadows s => s.message
  | .compiled unit => s!"compiled {unit}"
  | .starting templates workers => s!"compiling {templates} templates with {workers} workers"

def line (e : Event) : String :=
  s!"{e.level} {e.source}: {e.message}"

end Event

end TemplateCompiler
