import TemplateCompiler.Template.Walk

/-!
# Macro tables

The macros of one source unit by name. A definition counts wherever it stands, also inside other
blocks, and a later definition of a name takes the place of an earlier one. The table keeps the
order in which the names were first defined.
-/

namespace TemplateCompiler

structure MacroTable where
  /-- One definition per name. -/
  definitions : List MacroDef := []

/-- A definition that took the place of an earlier one. -/
structure Shadowing where
  name : String
  later : Span
  earlier : Span

def Shadowing.message (s : Shadowing) : String :=
  s!"macro {s.name} at {s.later.start.line}:{s.later.start.column} " ++
    s!"shadows the definition at {s.earlier.start.line}:{s.earlier.start.column}"

namespace MacroTable

def lookup? (table : MacroTable) (name : String) : Option MacroDef :=
  table.definitions.find? (·.name = name)

def contains (table : MacroTable) (name : String) : Bool :=
  (table.lookup? name).isSome

def size (table : MacroTable) : Nat :=
  table.definitions.length

/-- Adds a definition, in the place of an earlier one of the same name if there is one. -/
def define (table : MacroTable) (d : MacroDef) : MacroTable where
  definitions :=
    if table.contains d.name then
      table.definitions.map fun earlier => if earlier.name = d.name then d else earlier
    else table.definitions ++ [d]

def shadowing? (table : MacroTable) (d : MacroDef) : Option Shadowing :=
  (table.lookup? d.name).map fun earlier => ⟨d.name, d.nameSpan, earlier.nameSpan⟩

/-- Adds definitions one after the other, and tells which of them shadowed an earlier one. -/
def defineAll (table : MacroTable) : List MacroDef → MacroTable × List Shadowing
  | [] => (table, [])
  | d :: ds =>
    let (result, shadowings) := (table.define d).defineAll ds
    (result, (table.shadowing? d).toList ++ shadowings)

end MacroTable

/-! ## The table of a template -/

def Template.Node.definition? : Template.Node → Option MacroDef
  | .definition d => some d
  | _ => none

/-- Every macro definition of a template, in source order. -/
def Template.definitions (t : Template) : List MacroDef :=
  (Template.walkAll t.body).filterMap (·.definition?)

/-- The macros of a template, and which definitions shadowed others. -/
def Template.macroTable (t : Template) : MacroTable × List Shadowing :=
  MacroTable.defineAll {} t.definitions

/-! ## Call sites -/

namespace Template

/-- A call expression as the call of a macro, if what it calls names one. -/
def Expr.macroCall? (table : MacroTable) : Expr → Option MacroCall
  | .call (.var name _) args named argsSpan span =>
    if table.contains name then some ⟨name, args, named, argsSpan, span⟩ else none
  | _ => none

/-- The macro calls in an expression, at any depth. -/
def Expr.callSites (table : MacroTable) (e : Expr) : List MacroCall :=
  e.walk.filterMap (·.macroCall? table)

/-- The macro calls that a node holds itself: the call of a call block comes before the calls among
its arguments. -/
def Node.callSites (table : MacroTable) : Node → List MacroCall
  | .callBlock call _ _ => call :: call.exprs.flatMap (·.callSites table)
  | n => n.exprs.flatMap (·.callSites table)

end Template

/-- Every macro call of a template. -/
def Template.callSites (t : Template) (table : MacroTable) : List MacroCall :=
  (Template.walkAll t.body).flatMap (·.callSites table)

end TemplateCompiler
