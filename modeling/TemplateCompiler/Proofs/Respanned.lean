import TemplateCompiler.Compiler.Run
import TemplateCompiler.Proofs.BoundSites

/-!
# Templates with other spans

Only spans tell where a template was read. `respan` puts others in their place, by any function of
spans. What is found in a template then is what was found before, with the other spans: the nodes
and their order, the calls, the macros, and how each call binds or why it does not. So none of this
depends on where anything stands.
-/

namespace TemplateCompiler

open Template (Expr Node walkAll)

theorem NamedArgument.sizeOf_value_lt {ε : Type} [SizeOf ε] {a : NamedArgument ε}
    {as : List (NamedArgument ε)} (h : a ∈ as) : sizeOf a.value < sizeOf as := by
  have hlt := List.sizeOf_lt_of_mem h
  have hvalue : sizeOf a.value < sizeOf a := by
    cases a
    simp +arith
  omega

theorem Arm.sizeOf_body_lt {ν : Type} [SizeOf ν] {a : Arm ν} {as : List (Arm ν)} (h : a ∈ as) :
    sizeOf a.body < sizeOf as := by
  have hlt := List.sizeOf_lt_of_mem h
  have hbody : sizeOf a.body < sizeOf a := by
    cases a
    simp +arith
  omega

/-! ## Other spans -/

def Located.respan {π : Type} (f : Span → Span) (p : Located π) : Located π :=
  ⟨p.problem, f p.span⟩

def Template.Expr.respan (f : Span → Span) : Expr → Expr
  | .literal value s => .literal value (f s)
  | .var name s => .var name (f s)
  | .binary op left right s => .binary op (left.respan f) (right.respan f) (f s)
  | .unary op operand s => .unary op (operand.respan f) (f s)
  | .filter name value args s => .filter name (value.respan f) (args.map (·.respan f)) (f s)
  | .index value position s => .index (value.respan f) (position.respan f) (f s)
  | .attribute value name s => .attribute (value.respan f) name (f s)
  | .call func args named argsSpan s =>
    .call (func.respan f) (args.map (·.respan f))
      (named.map fun a => ⟨a.name, a.value.respan f, f a.nameSpan, f a.span⟩) (f argsSpan) (f s)
decreasing_by
  all_goals try decreasing_tactic
  next h =>
    have hlt := NamedArgument.sizeOf_value_lt h
    simp only [Expr.call.sizeOf_spec]
    omega

def NamedArgument.respan (f : Span → Span) (a : NamedArgument Expr) : NamedArgument Expr :=
  ⟨a.name, a.value.respan f, f a.nameSpan, f a.span⟩

def Parameter.respan (f : Span → Span) (p : Parameter Expr) : Parameter Expr :=
  ⟨p.name, p.default.map (Expr.respan f), f p.span⟩

def MacroCall.respan (f : Span → Span) (c : MacroCall) : MacroCall :=
  ⟨c.name, c.args.map (Expr.respan f), c.named.map (NamedArgument.respan f), f c.argsSpan, f c.span⟩

def Template.Node.respan (f : Span → Span) : Node → Node
  | .text value s => .text value (f s)
  | .output e s => .output (e.respan f) (f s)
  | .branch arms s =>
    .branch (arms.map fun a =>
      ⟨a.condition.map (Expr.respan f), a.body.map (·.respan f), f a.span⟩) (f s)
  | .loop targets iterable body otherwise s =>
    .loop targets (iterable.respan f) (body.map (·.respan f)) (otherwise.map (·.respan f)) (f s)
  | .definition ⟨name, params, body, nameSpan, s⟩ =>
    .definition ⟨name, params.map (Parameter.respan f), body.map (·.respan f), f nameSpan, f s⟩
  | .callBlock call body s => .callBlock (call.respan f) (body.map (·.respan f)) (f s)
  | .inclusion path s => .inclusion path (f s)
  | .assignment name value s => .assignment name (value.respan f) (f s)
decreasing_by
  all_goals try decreasing_tactic
  next ha _ _ =>
    have hlt := Arm.sizeOf_body_lt ha
    omega

def Arm.respan (f : Span → Span) (a : Arm Node) : Arm Node :=
  ⟨a.condition.map (Expr.respan f), a.body.map (Node.respan f), f a.span⟩

def MacroDefinition.respan (f : Span → Span) (d : MacroDef) : MacroDef :=
  ⟨d.name, d.params.map (Parameter.respan f), d.body.map (Node.respan f), f d.nameSpan, f d.span⟩

theorem MacroDefinition.name_respan {f : Span → Span} (d : MacroDef) : (d.respan f).name = d.name :=
  rfl

def Template.respan (f : Span → Span) (t : Template) : Template :=
  ⟨t.body.map (Node.respan f), f t.span⟩

section

variable (f : Span → Span)

theorem Template.Node.respan_branch (arms : List (Arm Node)) (s : Span) :
    (Node.branch arms s).respan f = .branch (arms.map (Arm.respan f)) (f s) := by
  rw [Node.respan]
  rfl

theorem Template.Node.respan_definition (d : MacroDef) :
    (Node.definition d).respan f = .definition (d.respan f) := by
  obtain ⟨name, params, body, nameSpan, s⟩ := d
  rw [Node.respan]
  rfl

end

/-- What is found in things with other spans is what was found before, with other spans. -/
theorem flatMap_map_of_forall {α β γ δ : Type} {f : α → β} {g : γ → δ} {found : α → List γ}
    {found' : β → List δ} {xs : List α} (h : ∀ x ∈ xs, found' (f x) = (found x).map g) :
    (xs.map f).flatMap found' = (xs.flatMap found).map g := by
  induction xs with
  | nil => rfl
  | cons x xs ih =>
      obtain ⟨hx, hxs⟩ := List.forall_mem_cons.mp h
      rw [List.map_cons, List.flatMap_cons, List.flatMap_cons, List.map_append, hx, ih hxs]

theorem filterMap_map_of_forall {α β γ δ : Type} {f : α → β} {g : γ → δ} {find? : α → Option γ}
    {find?' : β → Option δ} (h : ∀ x, find?' (f x) = (find? x).map g) (xs : List α) :
    (xs.map f).filterMap find?' = (xs.filterMap find?).map g := by
  rw [List.filterMap_map, List.map_filterMap]
  exact congrArg (List.filterMap · xs) (funext h)

variable {f : Span → Span}

/-! ## Expressions and nodes -/

namespace Template

theorem Expr.children_respan (e : Expr) :
    (e.respan f).children = e.children.map (Expr.respan f) := by
  cases e <;> simp [respan, children, Function.comp_def]

theorem Expr.walk_respan (e : Expr) : (e.respan f).walk = e.walk.map (Expr.respan f) := by
  rw [walk_eq, walk_eq, List.map_cons, children_respan]
  rw [flatMap_map_of_forall fun x hx => walk_respan x]
termination_by e
decreasing_by
  obtain ⟨step, hpart⟩ := e.children_enumerates.mem_iff.mp hx
  exact hpart.sizeOf_lt

theorem Node.children_respan (n : Node) :
    (n.respan f).children = n.children.map (Node.respan f) := by
  cases n with
  | branch arms s =>
      rw [respan_branch, children, children]
      exact flatMap_map_of_forall fun a _ => rfl
  | definition d => rw [respan_definition]; rfl
  | _ => simp [respan, children]

theorem Node.walk_respan (n : Node) : (n.respan f).walk = n.walk.map (Node.respan f) := by
  rw [walk_eq, walk_eq, List.map_cons, children_respan]
  rw [flatMap_map_of_forall fun m hm => walk_respan m]
termination_by n
decreasing_by
  obtain ⟨step, hpart⟩ := n.children_enumerates.mem_iff.mp hm
  exact hpart.sizeOf_lt

theorem walkAll_respan (ns : List Node) :
    walkAll (ns.map (Node.respan f)) = (walkAll ns).map (Node.respan f) := by
  rw [walkAll_eq_flatMap, walkAll_eq_flatMap]
  exact flatMap_map_of_forall fun n _ => n.walk_respan

theorem Node.exprs_respan (n : Node) : (n.respan f).exprs = n.exprs.map (Expr.respan f) := by
  cases n with
  | branch arms s =>
      rw [respan_branch]
      exact filterMap_map_of_forall (fun a => (rfl : (a.respan f).condition = _)) arms
  | definition d =>
      rw [respan_definition]
      exact filterMap_map_of_forall (fun p => (rfl : (p.respan f).default = _)) d.params
  | _ => simp [respan, exprs]

theorem Node.definition?_respan (n : Node) :
    (n.respan f).definition? = n.definition?.map (MacroDefinition.respan f) := by
  cases n with
  | definition d => rw [respan_definition]; rfl
  | _ => simp [respan, definition?]

end Template

/-! ## Macros -/

namespace MacroTable

/-- The table with something else in the place of each definition. -/
def map (k : MacroDef → MacroDef) (table : MacroTable) : MacroTable :=
  ⟨table.definitions.map k⟩

section

variable {k : MacroDef → MacroDef} (hk : ∀ d, (k d).name = d.name) (table : MacroTable)

include hk

theorem lookup?_map (name : String) : (table.map k).lookup? name = (table.lookup? name).map k := by
  rw [lookup?, map, List.find?_map]
  simp only [Function.comp_def, hk]
  rfl

theorem contains_map (name : String) : (table.map k).contains name = table.contains name := by
  rw [contains, contains, lookup?_map hk, Option.isSome_map]

theorem define_map (d : MacroDef) : (table.map k).define (k d) = (table.define d).map k := by
  rw [define, define, hk, contains_map hk]
  by_cases hcontains : table.contains d.name
  · simp only [map, if_pos hcontains, List.map_map]
    congr 2
    funext earlier
    rw [Function.comp, Function.comp, hk]
    exact (apply_ite k _ _ _).symm
  · simp only [map, if_neg hcontains, List.map_append, List.map_cons, List.map_nil]

theorem defineAll_map (ds : List MacroDef) (table : MacroTable) :
    ((table.map k).defineAll (ds.map k)).1 = (table.defineAll ds).1.map k := by
  induction ds generalizing table with
  | nil => rfl
  | cons d ds ih => rw [List.map_cons, defineAll, defineAll, define_map hk, ih]

end

def respan (f : Span → Span) (table : MacroTable) : MacroTable :=
  table.map (MacroDefinition.respan f)

theorem lookup?_respan (table : MacroTable) (name : String) :
    (table.respan f).lookup? name = (table.lookup? name).map (MacroDefinition.respan f) :=
  table.lookup?_map MacroDefinition.name_respan name

theorem contains_respan (table : MacroTable) (name : String) :
    (table.respan f).contains name = table.contains name :=
  table.contains_map MacroDefinition.name_respan name

end MacroTable

theorem Template.definitions_respan (t : Template) :
    (t.respan f).definitions = t.definitions.map (MacroDefinition.respan f) := by
  rw [definitions, definitions, respan, walkAll_respan]
  exact filterMap_map_of_forall Node.definition?_respan _

theorem Template.macroTable_respan (t : Template) :
    (t.respan f).macroTable.1 = t.macroTable.1.respan f := by
  rw [macroTable, definitions_respan]
  exact MacroTable.defineAll_map MacroDefinition.name_respan t.definitions {}

/-! ## Include tags -/

theorem Compiler.includeTags_respan (t : Template) :
    includeTags (t.respan f) = (includeTags t).map fun tag => (tag.1, f tag.2) := by
  rw [includeTags, includeTags, Template.respan, Template.walkAll_respan]
  refine filterMap_map_of_forall (fun n => ?_) _
  cases n with
  | definition d => rw [Node.respan_definition]; rfl
  | _ => rw [Node.respan]; rfl

/-! ## Calls -/

section

variable (table : MacroTable)

theorem MacroCall.exprs_respan (call : MacroCall) :
    (call.respan f).exprs = call.exprs.map (Expr.respan f) := by
  simp [exprs, respan, NamedArgument.respan, Function.comp_def]

namespace Template

theorem Expr.macroCall?_respan (e : Expr) :
    (e.respan f).macroCall? (table.respan f) = (e.macroCall? table).map (MacroCall.respan f) := by
  cases e with
  | call func args named argsSpan s =>
      cases func with
      | var name s' =>
          simp only [respan, macroCall?, MacroTable.contains_respan]
          split <;> rfl
      | _ => simp [respan, macroCall?]
  | _ => simp [respan, macroCall?]

theorem Expr.callSites_respan (e : Expr) :
    (e.respan f).callSites (table.respan f) = (e.callSites table).map (MacroCall.respan f) := by
  rw [callSites, callSites, walk_respan]
  exact filterMap_map_of_forall (Expr.macroCall?_respan table) _

theorem Node.callSites_respan (n : Node) :
    (n.respan f).callSites (table.respan f) = (n.callSites table).map (MacroCall.respan f) := by
  have hexprs : ∀ es : List Expr, (es.map (Expr.respan f)).flatMap
      (·.callSites (table.respan f)) =
        (es.flatMap (·.callSites table)).map (MacroCall.respan f) :=
    fun es => flatMap_map_of_forall fun e _ => e.callSites_respan table
  have hn := hexprs n.exprs
  rw [← exprs_respan] at hn
  cases n with
  | callBlock call body s =>
      rw [respan, callSites, callSites, List.map_cons, MacroCall.exprs_respan, hexprs]
  | definition d => rwa [respan_definition] at hn ⊢
  | _ => rwa [respan] at hn ⊢

end Template

theorem Template.callSites_respan (t : Template) :
    (t.respan f).callSites (table.respan f) = (t.callSites table).map (MacroCall.respan f) := by
  rw [callSites, callSites, respan, walkAll_respan]
  exact flatMap_map_of_forall fun n _ => n.callSites_respan table

end

/-! ## Bindings -/

def BoundArgument.respan (f : Span → Span) : BoundArgument Expr → BoundArgument Expr
  | .given p value => .given (p.respan f) (value.respan f)
  | .default p value => .default (p.respan f) (value.respan f)

def BoundCall.respan (f : Span → Span) (b : BoundCall Expr) : BoundCall Expr :=
  ⟨b.definition, b.arguments.map (BoundArgument.respan f)⟩

def Assigned.respan (f : Span → Span) (assigned : Assigned) : Assigned :=
  assigned.map fun entry => (entry.1, entry.2.respan f)

section

variable {call : MacroCall} {params : List (Parameter Expr)}

theorem Assigned.lookup_respan (assigned : Assigned) (name : String) :
    List.lookup name (assigned.respan f) = (assigned.lookup name).map (Expr.respan f) := by
  induction assigned with
  | nil => rfl
  | cons entry assigned ih =>
      rw [respan, List.map_cons, List.lookup_cons, List.lookup_cons]
      by_cases h : name == entry.1
      · simp [h]
      · simp only [h]
        exact ih

theorem assignPositional_respan (args : List Expr) :
    assignPositional (params.map (Parameter.respan f)) (args.map (Expr.respan f)) =
      (assignPositional params args).respan f := by
  rw [assignPositional, assignPositional, Assigned.respan, List.map_map, List.zip_map_right]
  rfl

theorem assignNamed_respan (assigned : Assigned) (named : List (NamedArgument Expr)) :
    assignNamed (call.respan f) (params.map (Parameter.respan f)) (assigned.respan f)
        (named.map (NamedArgument.respan f)) =
      ((assignNamed call params assigned named).map (Assigned.respan f)).mapError
        (Located.respan f) := by
  induction named generalizing assigned with
  | nil => rfl
  | cons a named ih =>
      have hany : (params.map (Parameter.respan f)).any (·.name = (a.respan f).name) =
          params.any (·.name = a.name) := List.any_map
      have hlookup : (List.lookup (a.respan f).name (assigned.respan f)).isSome =
          (assigned.lookup a.name).isSome := by
        rw [Assigned.lookup_respan, Option.isSome_map]
        rfl
      rw [List.map_cons, assignNamed, assignNamed, hany, hlookup]
      split
      · rfl
      · split
        · rfl
        · exact ih ((a.name, a.value) :: assigned)

theorem receive?_respan (assigned : Assigned) (p : Parameter Expr) :
    receive? (assigned.respan f) (p.respan f) =
      (receive? assigned p).map (BoundArgument.respan f) := by
  have hname : (p.respan f).name = p.name := rfl
  rw [receive?, receive?, hname, Assigned.lookup_respan]
  cases assigned.lookup p.name with
  | some value => rfl
  | none => cases p with | mk name default s => cases default <;> rfl

theorem missingNames_respan (assigned : Assigned) :
    missingNames (assigned.respan f) (params.map (Parameter.respan f)) =
      missingNames assigned params := by
  rw [missingNames, missingNames, List.filter_map, List.map_map]
  congr 1
  refine List.filter_congr fun p _ => ?_
  rw [Function.comp, receive?_respan, Option.isNone_map]

end

/-- A call binds to the same, or is refused for the same reason. -/
theorem bind_respan (table : MacroTable) (call : MacroCall) :
    bind (table.respan f) (call.respan f) =
      ((bind table call).map (BoundCall.respan f)).mapError (Located.respan f) := by
  have hname : (call.respan f).name = call.name := rfl
  unfold bind
  rw [hname, MacroTable.lookup?_respan]
  cases table.lookup? call.name with
  | none => rfl
  | some d =>
      have hassigned := @assignNamed_respan f call d.params
        (assignPositional d.params call.args) call.named
      rw [← assignPositional_respan] at hassigned
      simp only [Option.map_some, MacroDefinition.respan, MacroCall.respan,
        List.length_map] at hassigned ⊢
      rw [hassigned]
      by_cases harity : d.params.length < call.args.length
      · simp only [if_pos harity]
        rfl
      · simp only [if_neg harity]
        cases assignNamed call d.params (assignPositional d.params call.args) call.named with
        | error problem => rfl
        | ok assigned =>
            simp only [Except.map, Except.mapError, Bind.bind, Except.bind, missingNames_respan]
            cases missingNames assigned d.params with
            | cons first more => rfl
            | nil =>
                show Except.ok (BoundCall.mk _ _) = .ok (BoundCall.mk _ _)
                rw [filterMap_map_of_forall (receive?_respan assigned)]

theorem problem?_respan (table : MacroTable) (call : MacroCall) :
    problem? (table.respan f) (call.respan f) = (problem? table call).map (Located.respan f) := by
  rw [problem?, problem?, bind_respan]
  cases bind table call <;> rfl

theorem bindCalls_problems (table : MacroTable) (bindings : Bindings) (calls : List MacroCall) :
    (bindCalls table bindings calls).2 = calls.filterMap (problem? table) := by
  induction calls generalizing bindings with
  | nil => rfl
  | cons call calls ih =>
      rw [bindCalls]
      cases hbind : bind table call with
      | ok bound => rw [List.filterMap_cons_none (problem?_of_ok hbind)]; exact ih _
      | error problem => rw [List.filterMap_cons_some (problem?_of_error hbind), ← ih bindings]

theorem bindAll_problems_respan (t : Template) :
    (bindAll (t.respan f) (t.respan f).macroTable.1).2 =
      (bindAll t t.macroTable.1).2.map (Located.respan f) := by
  rw [bindAll, bindAll, bindCalls_problems, bindCalls_problems, Template.macroTable_respan,
    Template.callSites_respan]
  exact filterMap_map_of_forall (problem?_respan _) _

end TemplateCompiler
