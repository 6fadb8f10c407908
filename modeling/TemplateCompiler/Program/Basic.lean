import TemplateCompiler.Macro.Binding

/-!
# Render programs

What a template compiles to: operations that emit text, evaluate expressions and invoke macros,
independent of what carries them out. Its expressions are those of templates, except that a call of
a macro has its arguments bound to the macro's parameters.

A program holds the programs of the templates it includes, and its parts are structures over the
type of operations.
-/

namespace TemplateCompiler

namespace Program

inductive Expr where
  | literal (value : Literal) (span : Span)
  | var (name : String) (span : Span)
  | binary (op : BinaryOperator) (left right : Expr) (span : Span)
  | unary (op : UnaryOperator) (operand : Expr) (span : Span)
  | filter (name : String) (value : Expr) (args : List Expr) (span : Span)
  | index (value position : Expr) (span : Span)
  | attribute (value : Expr) (name : String) (span : Span)
  /-- A call of something that the host provides. -/
  | call (func : Expr) (args : List Expr) (named : List (NamedArgument Expr))
      (argsSpan span : Span)
  /-- A call of a macro. -/
  | invoke (bound : BoundCall Expr) (span : Span)

def Expr.span : Expr → Span
  | .literal _ s | .var _ s | .binary _ _ _ s | .unary _ _ s | .filter _ _ _ s | .index _ _ s
  | .attribute _ _ s | .call _ _ _ _ s | .invoke _ s => s

/-- One arm of a branch: the operations to carry out when the condition holds. -/
structure Arm (ω : Type) where
  condition : Option Expr
  ops : List ω

end Program

/-- A macro: its parameters, whose defaults have the calls in them bound, and its operations. -/
structure MacroProgram (ω : Type) where
  name : String
  params : List (Parameter Program.Expr)
  body : List ω

/-- A program over operations of type `ω`. -/
structure ProgramOver (ω : Type) where
  unit : String
  ops : List ω
  /-- The macros, in the order of the unit's macro table. -/
  macros : List (MacroProgram ω)

namespace Program

inductive Operation where
  | literal (text : String) (span : Span)
  /-- Evaluates an expression and writes the result through an escaper. -/
  | emit (expr : Expr) (escaper : String) (span : Span)
  /-- Invokes a macro. Of a call block, the caller is its body. -/
  | invoke (bound : BoundCall Expr) (caller : Option (List Operation)) (span : Span)
  | branch (arms : List (Arm Operation)) (span : Span)
  | loop (targets : List String) (iterable : Expr) (body otherwise : List Operation) (span : Span)
  | store (name : String) (expr : Expr) (span : Span)
  | inclusion (path : String) (program : ProgramOver Operation) (span : Span)

end Program

/-- A render program. -/
abbrev Program := ProgramOver Program.Operation

end TemplateCompiler
