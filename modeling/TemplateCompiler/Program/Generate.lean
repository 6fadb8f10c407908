import TemplateCompiler.Program.Basic
import TemplateCompiler.Text.Quoted

/-!
# Generating programs

A template whose calls are bound becomes a program node by node. Definitions move into the macros of
the program, text that follows text becomes one literal, and every call of a macro, however deep in
an expression, becomes an invocation with the arguments that the bindings hold for its span.

The values of a bound call are the arguments of the call itself, so an invocation takes the
generated form of each argument from the call and only its place among the parameters from the
binding. Defaults of the macro stay as they were declared: their generated form is in the macro.
-/

namespace TemplateCompiler

/-- Why no program can be generated. -/
inductive GenerationFault where
  /-- The bindings hold nothing for a call. -/
  | unbound (name : String)
  /-- No program was given for an include tag. -/
  | unresolved (span : Span)
  | reversed (span : ReversedSpan)

def GenerationFault.message : GenerationFault → String
  | .unbound name => s!"call to macro `{name}` was not bound"
  | .unresolved s =>
    s!"Span(start={s.start.describe}, end={s.stop.describe}, unit={Text.quoted s.unit})"
  | .reversed r => r.message

/-- Programs of included templates by the span of the include tag, latest first. -/
abbrev Inclusions := List (Span × Program)

/-- What generation draws on. -/
structure Generator where
  table : MacroTable
  bindings : Bindings
  includes : Inclusions
  escaper : String

namespace Generator

open Template (Node)

abbrev Outcome (α : Type) := Except GenerationFault α

/-! ## Expressions -/

/-- The outcomes in order, or the first fault. -/
def sequence {α : Type} : List (Outcome α) → Outcome (List α)
  | [] => .ok []
  | x :: xs => do
    let a ← x
    return a :: (← sequence xs)

/-- Puts the generated arguments of a call where the bound ones stand: the positional ones in order,
then the named ones by name. -/
def refill (name : String) : List (BoundArgument Template.Expr) → List (Outcome Program.Expr) →
    List (NamedArgument (Outcome Program.Expr)) → Outcome (List (BoundArgument Program.Expr))
  | [], _, _ => .ok []
  | .default p value :: bound, args, named => do
    return .default p value :: (← refill name bound args named)
  | .given p _ :: bound, arg :: args, named => do
    let value ← arg
    return .given p value :: (← refill name bound args named)
  | .given p _ :: bound, [], named =>
    match named.find? (·.name = p.name) with
    | none => .error (.unbound name)
    | some arg => do
      let value ← arg.value
      return .given p value :: (← refill name bound [] named)

/-- The binding of a call, with the generated form of its arguments. -/
def bound (g : Generator) (name : String) (span : Span) (args : List (Outcome Program.Expr))
    (named : List (NamedArgument (Outcome Program.Expr))) : Outcome (BoundCall Program.Expr) :=
  match g.bindings.lookup span with
  | none => .error (.unbound name)
  | some call => do
    return ⟨call.definition, ← refill name call.arguments args named⟩

def namedArgument (a : NamedArgument (Outcome Program.Expr)) :
    Outcome (NamedArgument Program.Expr) := do
  return ⟨a.name, ← a.value, a.nameSpan, a.span⟩

mutual

def expr (g : Generator) : Template.Expr → Outcome Program.Expr
  | .literal value span => .ok (.literal value span)
  | .var name span => .ok (.var name span)
  | .binary op left right span => do
    let left ← g.expr left
    let right ← g.expr right
    return .binary op left right span
  | .unary op operand span => do
    return .unary op (← g.expr operand) span
  | .filter name value args span => do
    let value ← g.expr value
    return .filter name value (← sequence (g.exprs args)) span
  | .index value position span => do
    let value ← g.expr value
    return .index value (← g.expr position) span
  | .attribute value name span => do
    return .attribute (← g.expr value) name span
  | .call func args named argsSpan span =>
    match (Template.Expr.call func args named argsSpan span).macroCall? g.table with
    | some call => do
      return .invoke (← g.bound call.name span (g.exprs args) (g.named named)) span
    | none => do
      let func ← g.expr func
      let args ← sequence (g.exprs args)
      let named ← sequence ((g.named named).map namedArgument)
      return .call func args named argsSpan span

def exprs (g : Generator) : List Template.Expr → List (Outcome Program.Expr)
  | [] => []
  | e :: es => g.expr e :: g.exprs es

def named (g : Generator) :
    List (NamedArgument Template.Expr) → List (NamedArgument (Outcome Program.Expr))
  | [] => []
  | a :: as => ⟨a.name, g.expr a.value, a.nameSpan, a.span⟩ :: g.named as

end

def expr? (g : Generator) : Option Template.Expr → Outcome (Option Program.Expr)
  | none => .ok none
  | some e => do return some (← g.expr e)

def macroCall (g : Generator) (call : MacroCall) : Outcome (BoundCall Program.Expr) :=
  g.bound call.name call.span (g.exprs call.args) (g.named call.named)

def param (g : Generator) (p : Parameter Template.Expr) : Outcome (Parameter Program.Expr) := do
  return ⟨p.name, ← g.expr? p.default, p.span⟩

/-! ## Operations -/

/-- The literal that is waiting for more text, as an operation. -/
def flush : Option (String × Span) → List Program.Operation
  | none => []
  | some (text, span) => [.literal text span]

/-- Joins literals that follow one another; `pending` is the literal before the operations. -/
def joinLiterals (pending : Option (String × Span)) :
    List Program.Operation → Outcome (List Program.Operation)
  | [] => .ok (flush pending)
  | .literal text span :: rest =>
    match pending with
    | none => joinLiterals (some (text, span)) rest
    | some (before, start) =>
      match start.upTo span with
      | .error r => .error (.reversed r)
      | .ok joined => joinLiterals (some (before ++ text, joined)) rest
  | op :: rest => do
    return flush pending ++ op :: (← joinLiterals none rest)

/-- An output of nothing but a macro call invokes the macro, any other is evaluated. -/
def output (g : Generator) (e : Template.Expr) (span : Span) : Outcome Program.Operation :=
  match e.macroCall? g.table with
  | some call => do return .invoke (← g.macroCall call) none span
  | none => do return .emit (← g.expr e) g.escaper span

mutual

/-- What a node comes to: an operation, or nothing for empty text and for definitions. -/
def operation? (g : Generator) : Node → Outcome (Option Program.Operation)
  | .text value span => .ok (if value.isEmpty then none else some (.literal value span))
  | .output e span => do return some (← g.output e span)
  | .branch arms span => do return some (.branch (← g.arms arms) span)
  | .loop targets iterable body otherwise span => do
    let iterable ← g.expr iterable
    let body ← joinLiterals none (← g.operations body)
    let otherwise ← joinLiterals none (← g.operations otherwise)
    return some (.loop targets iterable body otherwise span)
  | .definition _ => .ok none
  | .callBlock call body span => do
    let bound ← g.macroCall call
    return some (.invoke bound (some (← joinLiterals none (← g.operations body))) span)
  | .inclusion path span =>
    match g.includes.lookup span with
    | none => .error (.unresolved span)
    | some program => .ok (some (.inclusion path program span))
  | .assignment name value span => do return some (.store name (← g.expr value) span)

/-- The operations of nodes one by one, before literals are joined. -/
def operations (g : Generator) : List Node → Outcome (List Program.Operation)
  | [] => .ok []
  | n :: ns => do
    let op ← g.operation? n
    return op.toList ++ (← g.operations ns)

def arms (g : Generator) : List (Arm Node) → Outcome (List (Program.Arm Program.Operation))
  | [] => .ok []
  | a :: as => do
    let condition ← g.expr? a.condition
    let ops ← joinLiterals none (← g.operations a.body)
    return ⟨condition, ops⟩ :: (← g.arms as)

end

/-- The operations of a list of nodes. -/
def block (g : Generator) (nodes : List Node) : Outcome (List Program.Operation) := do
  joinLiterals none (← g.operations nodes)

/-! ## Programs -/

def macroProgram (g : Generator) (d : MacroDef) : Outcome (MacroProgram Program.Operation) := do
  let params ← sequence (d.params.map g.param)
  return ⟨d.name, params, ← g.block d.body⟩

/-- The program of a template whose calls are bound and whose includes are compiled. -/
def program (g : Generator) (t : Template) (unit : String) : Outcome Program := do
  let macros ← sequence (g.table.definitions.map g.macroProgram)
  return ⟨unit, ← g.block t.body, macros⟩

end Generator

end TemplateCompiler
