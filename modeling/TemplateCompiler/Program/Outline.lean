import TemplateCompiler.Program.Basic
import TemplateCompiler.Template.Printer

/-!
# Outlines of programs

A program in lines of text: its macros, then its operations. An included program is shown by its
name alone.
-/

namespace TemplateCompiler.Program

/-! ## Expressions -/

/-- An argument under the name of its parameter. A default is marked as one. -/
def printGiven (param value : String) : String :=
  s!"{param}={value}"

def printDefault (param : String) (value : Template.Expr) : String :=
  s!"{param}={value.print} (default)"

mutual

def Expr.print : Expr → String
  | .literal value _ => value.print
  | .var name _ => name
  | .binary op left right _ => op.print left.print right.print
  | .unary op operand _ => op.print operand.print
  | .filter name value args _ => printFilter value.print name (printAll args)
  | .index value position _ => s!"{value.print}[{position.print}]"
  | .attribute value name _ => s!"{value.print}.{name}"
  | .call func args named _ _ =>
    s!"{func.print}({commaSeparated (printAll args ++ printNamed named)})"
  | .invoke bound _ => s!"{bound.definition}({commaSeparated (printBound bound.arguments)})"

def printAll : List Expr → List String
  | [] => []
  | e :: es => e.print :: printAll es

def printNamed : List (NamedArgument Expr) → List String
  | [] => []
  | a :: as => s!"{a.name}={a.value.print}" :: printNamed as

def printBound : List (BoundArgument Expr) → List String
  | [] => []
  | .given p value :: rest => printGiven p.name value.print :: printBound rest
  | .default p value :: rest => printDefault p.name value :: printBound rest

end

def printInvocation (bound : BoundCall Expr) : String :=
  s!"{bound.definition}({commaSeparated (printBound bound.arguments)})"

/-! ## Operations -/

mutual

def Operation.outline (depth : Nat) : Operation → List OutlineLine
  | .literal text _ => [(depth, s!"EmitLiteral({Text.quoted text})")]
  | .emit expr escaper _ => [(depth, s!"EmitExpr[{escaper}] {expr.print}")]
  | .invoke bound none _ => [(depth, s!"InvokeMacro {printInvocation bound}")]
  | .invoke bound (some caller) _ =>
    (depth, s!"InvokeMacro {printInvocation bound}") :: (depth + 1, "Caller") ::
      outlineAll (depth + 2) caller
  | .branch arms _ => (depth, "Branch") :: outlineArms (depth + 1) arms
  | .loop targets iterable body otherwise _ =>
    (depth, s!"Loop {commaSeparated targets} in {iterable.print}") :: outlineAll (depth + 1) body ++
      (if otherwise.isEmpty then []
       else (depth + 1, "Else") :: outlineAll (depth + 2) otherwise)
  | .store name expr _ => [(depth, s!"Store {name} = {expr.print}")]
  | .inclusion path program _ =>
    [(depth, s!"IncludeTemplate {Text.quoted path} -> {program.unit}")]

def outlineAll (depth : Nat) : List Operation → List OutlineLine
  | [] => []
  | op :: ops => op.outline depth ++ outlineAll depth ops

def outlineArms (depth : Nat) : List (Arm Operation) → List OutlineLine
  | [] => []
  | a :: as =>
    (depth, armHeading (a.condition.map Expr.print)) :: outlineAll (depth + 1) a.ops ++
      outlineArms depth as

end

def outlineMacro (m : MacroProgram Operation) : List OutlineLine :=
  (1, s!"Macro {m.name}({commaSeparated (m.params.map (·.print Expr.print))})") ::
    outlineAll 2 m.body

end TemplateCompiler.Program

namespace TemplateCompiler

def ProgramOver.outline (p : Program) : String :=
  renderOutline ((0, s!"RenderProgram {p.unit}") ::
    (p.macros.flatMap Program.outlineMacro ++ Program.outlineAll 1 p.ops))

end TemplateCompiler
