import TemplateCompiler.Number.Shortest
import TemplateCompiler.Template.Basic
import TemplateCompiler.Text.Quoted

/-!
# Printing templates

An expression is printed in template notation, with every infix operator in parentheses, so that
the text needs no knowledge of precedence. A whole template is printed as an outline: one line per
node, indented by depth, with the expressions in it.
-/

namespace TemplateCompiler

def commaSeparated (items : List String) : String :=
  ", ".intercalate items

def Literal.print : Literal → String
  | .string s => Text.quoted s
  | .integer n => toString n
  | .real x => x.toText
  | .boolean b => if b then "true" else "false"
  | .none => "none"

/-- Word operators are set off from their operand. -/
def UnaryOperator.print (op : UnaryOperator) (operand : String) : String :=
  if op = .not then s!"{op.sign} {operand}" else s!"{op.sign}{operand}"

def BinaryOperator.print (op : BinaryOperator) (left right : String) : String :=
  s!"({left} {op.sign} {right})"

def printFilter (value name : String) (args : List String) : String :=
  if args.isEmpty then s!"{value}|{name}" else s!"{value}|{name}({commaSeparated args})"

namespace Template

/-! ## Expressions -/

mutual

def Expr.print : Expr → String
  | .literal value _ => value.print
  | .var name _ => name
  | .binary op left right _ => op.print left.print right.print
  | .unary op operand _ => op.print operand.print
  | .filter name value args _ => printFilter value.print name (printAll args)
  | .index value position _ => s!"{value.print}[{position.print}]"
  | .attribute value name _ => s!"{value.print}.{name}"
  | .call func args named _ _ =>
    s!"{func.print}({commaSeparated (printAll args ++ printNamed named)})"

def printAll : List Expr → List String
  | [] => []
  | e :: es => e.print :: printAll es

def printNamed : List (NamedArgument Expr) → List String
  | [] => []
  | a :: as => s!"{a.name}={a.value.print}" :: printNamed as

end

end Template

def Parameter.print {ε : Type} (print : ε → String) (p : Parameter ε) : String :=
  match p.default with
  | none => p.name
  | some default => s!"{p.name}={print default}"

/-! ## Outlines -/

/-- One line of an outline, with its depth. -/
abbrev OutlineLine := Nat × String

/-- Two spaces per level, and every line ended. -/
def renderOutline (lines : List OutlineLine) : String :=
  String.join (lines.map fun (depth, line) =>
    String.ofList (List.replicate (2 * depth) ' ') ++ line ++ "\n")

/-- The heading of an arm: its condition, as printed, or the word for all other cases. -/
def armHeading (condition : Option String) : String :=
  "Arm " ++ condition.getD "else"

namespace Template

mutual

def Node.outline (depth : Nat) : Node → List OutlineLine
  | .text value _ => [(depth, s!"Text({Text.quoted value})")]
  | .output expr _ => [(depth, s!"Output {expr.print}")]
  | .branch arms _ => (depth, "If") :: outlineArms (depth + 1) arms
  | .loop targets iterable body otherwise _ =>
    (depth, s!"For {commaSeparated targets} in {iterable.print}") :: outlineAll (depth + 1) body ++
      (if otherwise.isEmpty then []
       else (depth + 1, "Else") :: outlineAll (depth + 2) otherwise)
  | .definition d =>
    (depth, s!"Macro {d.name}({commaSeparated (d.params.map (·.print Expr.print))})") ::
      outlineAll (depth + 1) d.body
  | .callBlock call body _ => (depth, s!"CallBlock {call.name}") :: outlineAll (depth + 1) body
  | .inclusion path _ => [(depth, s!"Include {Text.quoted path}")]
  | .assignment name value _ => [(depth, s!"Assign {name} = {value.print}")]

def outlineAll (depth : Nat) : List Node → List OutlineLine
  | [] => []
  | n :: ns => n.outline depth ++ outlineAll depth ns

def outlineArms (depth : Nat) : List (Arm Node) → List OutlineLine
  | [] => []
  | a :: as =>
    (depth, armHeading (a.condition.map Expr.print)) :: outlineAll (depth + 1) a.body ++
      outlineArms depth as

end

end Template

def Template.outline (t : Template) : String :=
  renderOutline ((0, "Template") :: Template.outlineAll 1 t.body)

end TemplateCompiler
