import TemplateCompiler.Diagnostic
import TemplateCompiler.Macro.Table

/-!
# Binding calls to macros

A call binds when each parameter of the macro receives one value: a positional argument, else the
argument of its name, else its default. Otherwise the call is refused for the first rule it breaks,
in the order of the constructors of `BindProblem`; of the rules for named arguments the first
argument at fault decides.
-/

namespace TemplateCompiler

open Template (Expr)

/-! ## Bound arguments -/

/-- A parameter and what it receives. A default stays as it was declared and is evaluated in the
scope of the macro, so it is always an expression of the template. -/
inductive BoundArgument (ε : Type) where
  | given (param : Parameter Expr) (value : ε)
  | default (param : Parameter Expr) (value : Expr)

def BoundArgument.param {ε : Type} : BoundArgument ε → Parameter Expr
  | .given p _ | .default p _ => p

/-- The arguments of one call, in the order of the macro's parameters. -/
structure BoundCall (ε : Type) where
  definition : String
  arguments : List (BoundArgument ε)

/-! ## Problems -/

/-- The rule that a call breaks. -/
inductive BindProblem where
  | undefined (name : String)
  | tooManyArguments (name : String) (expected found : Nat)
  | unknownArgument (name argument : String)
  | repeatedArgument (name argument : String)
  | missingArguments (name : String) (first : String) (more : List String)
deriving DecidableEq

/-- Names in quotes, with commas between them and a word before the last. -/
def joinNames (first : String) : List String → String
  | [] => s!"`{first}`"
  | more =>
    let quoted := (first :: more).map fun name => s!"`{name}`"
    ", ".intercalate quoted.dropLast ++ " and " ++ quoted.getLastD ""

def BindProblem.message : BindProblem → String
  | .undefined name => s!"undefined macro `{name}`"
  | .tooManyArguments name expected found =>
    s!"macro `{name}` expected {expected} argument, found {found}"
  | .unknownArgument name argument => s!"no argument named `{argument}` in macro `{name}`"
  | .repeatedArgument name argument =>
    s!"argument `{argument}` was passed more than once when calling macro `{name}`"
  | .missingArguments name first [] =>
    s!"missing argument when calling macro `{name}`: {joinNames first []}"
  | .missingArguments name first more =>
    s!"missing arguments when calling macro `{name}`: {joinNames first more}"

/-! ## One call -/

/-- The values that parameters have received, by name. -/
abbrev Assigned := List (String × Expr)

/-- The positional arguments go to the parameters in order. -/
def assignPositional (params : List (Parameter Expr)) (args : List Expr) : Assigned :=
  (params.map (·.name)).zip args

/-- Adds the named arguments in the order of the call. -/
def assignNamed (call : MacroCall) (params : List (Parameter Expr)) (assigned : Assigned) :
    List (NamedArgument Expr) → Except (Located BindProblem) Assigned
  | [] => .ok assigned
  | a :: as =>
    if !params.any (·.name = a.name) then .error ⟨.unknownArgument call.name a.name, a.span⟩
    else if (assigned.lookup a.name).isSome then
      .error ⟨.repeatedArgument call.name a.name, a.span⟩
    else assignNamed call params ((a.name, a.value) :: assigned) as

/-- What a parameter receives, or nothing if there is neither an argument nor a default. -/
def receive? (assigned : Assigned) (p : Parameter Expr) : Option (BoundArgument Expr) :=
  match assigned.lookup p.name with
  | some value => some (.given p value)
  | none => p.default.map (.default p ·)

def missingNames (assigned : Assigned) (params : List (Parameter Expr)) : List String :=
  (params.filter fun p => (receive? assigned p).isNone).map (·.name)

def bind (table : MacroTable) (call : MacroCall) :
    Except (Located BindProblem) (BoundCall Expr) := do
  match table.lookup? call.name with
  | none => .error ⟨.undefined call.name, call.span⟩
  | some d =>
    let expected := d.params.length
    let found := call.args.length
    if expected < found then
      .error ⟨.tooManyArguments call.name expected found, call.argsSpan⟩
    else
      let assigned ←
        assignNamed call d.params (assignPositional d.params call.args) call.named
      match missingNames assigned d.params with
      | first :: more => .error ⟨.missingArguments call.name first more, call.argsSpan⟩
      | [] => .ok ⟨call.name, d.params.filterMap (receive? assigned)⟩

/-! ## All calls of a template -/

/-- Bound calls by the span of the call, in the order in which the spans were first bound. -/
abbrev Bindings := List (Span × BoundCall Expr)

def Bindings.insert (bindings : Bindings) (span : Span) (bound : BoundCall Expr) : Bindings :=
  if (bindings.lookup span).isSome then
    bindings.map fun entry => if entry.1 = span then (span, bound) else entry
  else bindings ++ [(span, bound)]

/-- Binds calls one after the other. A call that is refused leaves a problem and no binding. -/
def bindCalls (table : MacroTable) (bindings : Bindings) :
    List MacroCall → Bindings × List (Located BindProblem)
  | [] => (bindings, [])
  | call :: calls =>
    match bind table call with
    | .ok bound => bindCalls table (bindings.insert call.span bound) calls
    | .error problem =>
      let (bindings, problems) := bindCalls table bindings calls
      (bindings, problem :: problems)

/-- Binds every macro call of a template. -/
def bindAll (t : Template) (table : MacroTable) : Bindings × List (Located BindProblem) :=
  bindCalls table [] (t.callSites table)

end TemplateCompiler
