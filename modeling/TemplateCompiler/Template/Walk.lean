import TemplateCompiler.Template.Basic

/-!
# Walking through a template

Every node of a template in source order, a block before what stands in it, and every part of an
expression, a part before its own parts.
-/

namespace TemplateCompiler.Template

/-! ## Nodes -/

mutual

/-- A node and all nodes inside it. -/
def Node.walk : Node → List Node
  | .branch arms s => .branch arms s :: walkArms arms
  | .loop targets iterable body otherwise s =>
    .loop targets iterable body otherwise s :: (walkAll body ++ walkAll otherwise)
  | .definition d => .definition d :: walkAll d.body
  | .callBlock call body s => .callBlock call body s :: walkAll body
  | .text value s => [.text value s]
  | .output e s => [.output e s]
  | .inclusion path s => [.inclusion path s]
  | .assignment name value s => [.assignment name value s]

def walkAll : List Node → List Node
  | [] => []
  | n :: ns => n.walk ++ walkAll ns

def walkArms : List (Arm Node) → List Node
  | [] => []
  | a :: as => walkAll a.body ++ walkArms as

end

/-- The expressions that a node holds itself, apart from those of the nodes inside it and from the
call of a call block. -/
def Node.exprs : Node → List Expr
  | .output e _ => [e]
  | .branch arms _ => arms.filterMap (·.condition)
  | .loop _ iterable _ _ _ => [iterable]
  | .assignment _ value _ => [value]
  | .definition d => d.params.filterMap (·.default)
  | _ => []

/-! ## Expressions -/

mutual

/-- An expression and all expressions inside it. -/
def Expr.walk : Expr → List Expr
  | .literal value s => [.literal value s]
  | .var name s => [.var name s]
  | .binary op left right s => .binary op left right s :: (left.walk ++ right.walk)
  | .unary op operand s => .unary op operand s :: operand.walk
  | .filter name value args s => .filter name value args s :: (value.walk ++ walkExprs args)
  | .index value position s => .index value position s :: (value.walk ++ position.walk)
  | .attribute value name s => .attribute value name s :: value.walk
  | .call func args named argsSpan s =>
    .call func args named argsSpan s :: (func.walk ++ walkExprs args ++ walkNamed named)

def walkExprs : List Expr → List Expr
  | [] => []
  | e :: es => e.walk ++ walkExprs es

def walkNamed : List (NamedArgument Expr) → List Expr
  | [] => []
  | a :: as => a.value.walk ++ walkNamed as

end

end TemplateCompiler.Template

namespace TemplateCompiler

/-- The expressions that a call passes, positional arguments first. -/
def MacroCall.exprs (c : MacroCall) : List Template.Expr :=
  c.args ++ c.named.map (·.value)

end TemplateCompiler
