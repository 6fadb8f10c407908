import TemplateCompiler.Number.Binary64
import TemplateCompiler.Source

/-!
# Templates

The tree of one source unit: a list of nodes, which are literal text, outputs and statements, and
the expressions in them. Every part keeps the range of source it was read from.

A few parts of a node occur on their own as well, in tables and in programs: the arms of a branch, a
macro definition, a call of a macro. They are structures over the type of the nodes in them.
-/

namespace TemplateCompiler

/-! ## Expressions -/

inductive Literal where
  | string (value : String)
  | integer (value : Int)
  | real (value : Binary64)
  | boolean (value : Bool)
  | none
deriving DecidableEq

inductive BinaryOperator where
  | or
  | and
  | eq
  | ne
  | lt
  | le
  | gt
  | ge
  | isIn
  | notIn
  | concat
  | add
  | sub
  | mul
  | div
  | floorDiv
  | mod
deriving DecidableEq

def BinaryOperator.sign : BinaryOperator → String
  | .or => "or"
  | .and => "and"
  | .eq => "=="
  | .ne => "!="
  | .lt => "<"
  | .le => "<="
  | .gt => ">"
  | .ge => ">="
  | .isIn => "in"
  | .notIn => "not in"
  | .concat => "~"
  | .add => "+"
  | .sub => "-"
  | .mul => "*"
  | .div => "/"
  | .floorDiv => "//"
  | .mod => "%"

inductive UnaryOperator where
  | not
  | minus
  | plus
deriving DecidableEq

def UnaryOperator.sign : UnaryOperator → String
  | .not => "not"
  | .minus => "-"
  | .plus => "+"

/-- An argument passed by name. -/
structure NamedArgument (ε : Type) where
  name : String
  value : ε
  nameSpan : Span
  span : Span

namespace Template

inductive Expr where
  | literal (value : Literal) (span : Span)
  | var (name : String) (span : Span)
  | binary (op : BinaryOperator) (left right : Expr) (span : Span)
  | unary (op : UnaryOperator) (operand : Expr) (span : Span)
  | filter (name : String) (value : Expr) (args : List Expr) (span : Span)
  | index (value position : Expr) (span : Span)
  | attribute (value : Expr) (name : String) (span : Span)
  /-- A call: of a macro when `func` names one, else of something that the host provides. -/
  | call (func : Expr) (args : List Expr) (named : List (NamedArgument Expr))
      (argsSpan span : Span)

def Expr.span : Expr → Span
  | .literal _ s | .var _ s | .binary _ _ _ s | .unary _ _ s | .filter _ _ _ s | .index _ _ s
  | .attribute _ _ s | .call _ _ _ _ s => s

end Template

/-! ## Parts of statements -/

/-- A parameter of a macro, whose default is an expression of type `ε`. -/
structure Parameter (ε : Type) where
  name : String
  default : Option ε
  span : Span

/-- One arm of a branch. Only an arm for all other cases has no condition. -/
structure Arm (ν : Type) where
  condition : Option Template.Expr
  body : List ν
  span : Span

structure MacroDefinition (ν : Type) where
  name : String
  params : List (Parameter Template.Expr)
  body : List ν
  nameSpan : Span
  span : Span

/-- A call of a macro by its name. What is wrong with the arguments as a whole is reported at
`argsSpan`, the list with its parentheses. -/
structure MacroCall where
  name : String
  args : List Template.Expr
  named : List (NamedArgument Template.Expr)
  argsSpan : Span
  span : Span

namespace Template

/-! ## Nodes -/

inductive Node where
  /-- Literal text, already trimmed by whitespace control. -/
  | text (value : String) (span : Span)
  | output (expr : Expr) (span : Span)
  | branch (arms : List (Arm Node)) (span : Span)
  | loop (targets : List String) (iterable : Expr) (body otherwise : List Node) (span : Span)
  | definition (d : MacroDefinition Node)
  | callBlock (call : MacroCall) (body : List Node) (span : Span)
  | inclusion (path : String) (span : Span)
  | assignment (name : String) (value : Expr) (span : Span)

def Node.span : Node → Span
  | .text _ s | .output _ s | .branch _ s | .loop _ _ _ _ s | .callBlock _ _ s | .inclusion _ s
  | .assignment _ _ s => s
  | .definition d => d.span

end Template

/-- A whole source unit. -/
structure Template where
  body : List Template.Node
  span : Span

abbrev MacroDef := MacroDefinition Template.Node

end TemplateCompiler
