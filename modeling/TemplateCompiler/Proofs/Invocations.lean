import TemplateCompiler.Macro.Table
import TemplateCompiler.Program.Basic

/-!
# The calls in a program

What stands in a program, at any depth: operations in bodies, arms, callers and macros, and
expressions in operations, in defaults and in the given arguments of invocations. The programs of
included templates stand for themselves, and what a bound argument says of its parameter, or of a
default that is received, is as it was declared; neither is part of the program in this sense.

In a generated program every call of a macro is an invocation. `Expr.Invokes` and
`Operation.Invokes` say so of all of an expression and all of an operation, one rule for each way to
build one.
-/

namespace TemplateCompiler

namespace Program

/-! ## Parts -/

/-- `x` stands in an expression, or is it. -/
inductive Expr.Within (x : Expr) : Expr → Prop
  | self : Within x x
  | left {op l r s} (h : Within x l) : Within x (.binary op l r s)
  | right {op l r s} (h : Within x r) : Within x (.binary op l r s)
  | operand {op e s} (h : Within x e) : Within x (.unary op e s)
  | filtered {name e args s} (h : Within x e) : Within x (.filter name e args s)
  | filterArgument {name e args s a} (ha : a ∈ args) (h : Within x a) :
      Within x (.filter name e args s)
  | indexed {e p s} (h : Within x e) : Within x (.index e p s)
  | position {e p s} (h : Within x p) : Within x (.index e p s)
  | owner {e name s} (h : Within x e) : Within x (.attribute e name s)
  | func {f args named as s} (h : Within x f) : Within x (.call f args named as s)
  | argument {f args named as s a} (ha : a ∈ args) (h : Within x a) :
      Within x (.call f args named as s)
  | named {f args named as s a} (ha : a ∈ named) (h : Within x a.value) :
      Within x (.call f args named as s)
  | given {bound s p v} (hv : .given p v ∈ bound.arguments) (h : Within x v) :
      Within x (.invoke bound s)

/-- `x` stands in an operation, or is it. -/
inductive Operation.Within (x : Operation) : Operation → Prop
  | self : Within x x
  | caller {bound ops op s} (hop : op ∈ ops) (h : Within x op) :
      Within x (.invoke bound (some ops) s)
  | arm {arms arm op s} (ha : arm ∈ arms) (hop : op ∈ arm.ops) (h : Within x op) :
      Within x (.branch arms s)
  | body {targets e body otherwise op s} (hop : op ∈ body) (h : Within x op) :
      Within x (.loop targets e body otherwise s)
  | otherwise {targets e body otherwise op s} (hop : op ∈ otherwise) (h : Within x op) :
      Within x (.loop targets e body otherwise s)

/-- The operation itself uses the expression. -/
inductive Operation.Uses : Operation → Expr → Prop
  | emitted {e escaper s} : Uses (.emit e escaper s) e
  | given {bound caller s p v} (hv : .given p v ∈ bound.arguments) :
      Uses (.invoke bound caller s) v
  | condition {arms arm e s} (ha : arm ∈ arms) (he : arm.condition = some e) :
      Uses (.branch arms s) e
  | iterable {targets e body otherwise s} : Uses (.loop targets e body otherwise s) e
  | stored {name e s} : Uses (.store name e s) e

/-- The operation stands in the program. -/
inductive HasOperation (program : Program) (x : Operation) : Prop
  | main {op} (hop : op ∈ program.ops) (h : x.Within op)
  | defined {m op} (hm : m ∈ program.macros) (hop : op ∈ m.body) (h : x.Within op)

/-- The expression stands in the program. -/
inductive HasExpr (program : Program) (x : Expr) : Prop
  | used {op e} (hop : program.HasOperation op) (he : op.Uses e) (h : x.Within e)
  | default {m p e} (hm : m ∈ program.macros) (hp : p ∈ m.params) (he : p.default = some e)
      (h : x.Within e)

/-- A bound call of the program, as an expression or as an operation. -/
inductive HasInvocation (program : Program) (bound : BoundCall Expr) : Prop
  | expr {s} (h : program.HasExpr (.invoke bound s))
  | operation {caller s} (h : program.HasOperation (.invoke bound caller s))

/-! ## Calls as invocations -/

/-- The call names a macro of the table and passes its parameters, in their order. -/
def Matches (table : MacroTable) (bound : BoundCall Expr) : Prop :=
  ∃ d, table.lookup? bound.definition = some d ∧ bound.arguments.map (·.param) = d.params

/-- No macro is called but by an invocation, at any depth. -/
inductive Expr.Invokes (table : MacroTable) : Expr → Prop
  | literal {value s} : Invokes table (.literal value s)
  | var {name s} : Invokes table (.var name s)
  | binary {op l r s} (hl : Invokes table l) (hr : Invokes table r) :
      Invokes table (.binary op l r s)
  | unary {op e s} (he : Invokes table e) : Invokes table (.unary op e s)
  | filter {name e args s} (he : Invokes table e) (ha : ∀ a ∈ args, Invokes table a) :
      Invokes table (.filter name e args s)
  | index {e p s} (he : Invokes table e) (hp : Invokes table p) : Invokes table (.index e p s)
  | member {e name s} (he : Invokes table e) : Invokes table (.attribute e name s)
  | call {f args named as s} (hname : ∀ name s', f = .var name s' → ¬ table.contains name)
      (hf : Invokes table f) (ha : ∀ a ∈ args, Invokes table a)
      (hn : ∀ a ∈ named, Invokes table a.value) : Invokes table (.call f args named as s)
  | invoke {bound s} (hb : Matches table bound)
      (hv : ∀ p v, .given p v ∈ bound.arguments → Invokes table v) :
      Invokes table (.invoke bound s)

theorem Expr.Invokes.of_within {table : MacroTable} {e x : Expr} (h : e.Invokes table)
    (hx : x.Within e) : x.Invokes table := by
  induction hx with
  | self => exact h
  | left _ ih => cases h with | binary hl _ => exact ih hl
  | right _ ih => cases h with | binary _ hr => exact ih hr
  | operand _ ih => cases h with | unary he => exact ih he
  | filtered _ ih => cases h with | filter he _ => exact ih he
  | filterArgument ha _ ih => cases h with | filter _ has => exact ih (has _ ha)
  | indexed _ ih => cases h with | index he _ => exact ih he
  | position _ ih => cases h with | index _ hp => exact ih hp
  | owner _ ih => cases h with | member he => exact ih he
  | func _ ih => cases h with | call _ hf _ _ => exact ih hf
  | argument ha _ ih => cases h with | call _ _ has _ => exact ih (has _ ha)
  | named ha _ ih => cases h with | call _ _ _ hns => exact ih (hns _ ha)
  | given hv _ ih => cases h with | invoke _ hvs => exact ih (hvs _ _ hv)

inductive Operation.Invokes (table : MacroTable) : Operation → Prop
  | literal {text s} : Invokes table (.literal text s)
  | emit {e escaper s} (he : e.Invokes table) : Invokes table (.emit e escaper s)
  | invoke {bound caller s} (hb : Matches table bound)
      (hv : ∀ p v, .given p v ∈ bound.arguments → v.Invokes table)
      (hc : ∀ ops op, caller = some ops → op ∈ ops → Invokes table op) :
      Invokes table (.invoke bound caller s)
  | branch {arms s} (hc : ∀ arm ∈ arms, ∀ e, arm.condition = some e → e.Invokes table)
      (ho : ∀ arm ∈ arms, ∀ op ∈ arm.ops, Invokes table op) : Invokes table (.branch arms s)
  | loop {targets e body otherwise s} (he : e.Invokes table)
      (hb : ∀ op ∈ body, Invokes table op) (ho : ∀ op ∈ otherwise, Invokes table op) :
      Invokes table (.loop targets e body otherwise s)
  | store {name e s} (he : e.Invokes table) : Invokes table (.store name e s)
  | inclusion {path program s} : Invokes table (.inclusion path program s)

theorem Operation.Invokes.of_within {table : MacroTable} {op x : Operation}
    (h : op.Invokes table) (hx : x.Within op) : x.Invokes table := by
  induction hx with
  | self => exact h
  | caller hop _ ih => cases h with | invoke _ _ hc => exact ih (hc _ _ rfl hop)
  | arm ha hop _ ih => cases h with | branch _ ho => exact ih (ho _ ha _ hop)
  | body hop _ ih => cases h with | loop _ hb _ => exact ih (hb _ hop)
  | otherwise hop _ ih => cases h with | loop _ _ ho => exact ih (ho _ hop)

theorem Operation.Invokes.of_uses {table : MacroTable} {op : Operation} {e : Expr}
    (h : op.Invokes table) (he : op.Uses e) : e.Invokes table := by
  cases he with
  | emitted => cases h with | emit he => exact he
  | given hv => cases h with | invoke _ hvs _ => exact hvs _ _ hv
  | condition ha he => cases h with | branch hc _ => exact hc _ ha _ he
  | iterable => cases h with | loop he _ _ => exact he
  | stored => cases h with | store he => exact he

end Program

end TemplateCompiler
