import TemplateCompiler.Proofs.GenerationTotal
import TemplateCompiler.Proofs.JoinedTemplates

/-!
# Programs without their places

`bare` puts one blank span in place of all spans of a program, those of the programs in it included.

Generation looks up bindings by the span of the call, and otherwise does not look at spans. So two
generators whose tables are the same bare, and which hold for each call what the call binds to, make
the same bare expressions of expressions that are the same bare (`expr_alike`).
-/

namespace TemplateCompiler

open Template (Node walkAll)

namespace Program

/-! ## Expressions -/

mutual

def Expr.bare : Expr → Expr
  | .literal value _ => .literal value .blank
  | .var name _ => .var name .blank
  | .binary op left right _ => .binary op left.bare right.bare .blank
  | .unary op operand _ => .unary op operand.bare .blank
  | .filter name value args _ => .filter name value.bare (bareExprs args) .blank
  | .index value position _ => .index value.bare position.bare .blank
  | .attribute value name _ => .attribute value.bare name .blank
  | .call func args named _ _ => .call func.bare (bareExprs args) (bareNamed named) .blank .blank
  | .invoke bound _ => .invoke ⟨bound.definition, bareArguments bound.arguments⟩ .blank

def bareExprs : List Expr → List Expr
  | [] => []
  | e :: es => e.bare :: bareExprs es

def bareNamed : List (NamedArgument Expr) → List (NamedArgument Expr)
  | [] => []
  | a :: as => ⟨a.name, a.value.bare, .blank, .blank⟩ :: bareNamed as

def bareArguments : List (BoundArgument Expr) → List (BoundArgument Expr)
  | [] => []
  | .given p value :: rest => .given p.bare value.bare :: bareArguments rest
  | .default p value :: rest => .default p.bare value.bare :: bareArguments rest

end

def bareNamedArgument (a : NamedArgument Expr) : NamedArgument Expr :=
  ⟨a.name, a.value.bare, .blank, .blank⟩

def bareInvocation (bound : BoundCall Expr) : BoundCall Expr :=
  ⟨bound.definition, bareArguments bound.arguments⟩

def bareParameter (p : Parameter Expr) : Parameter Expr :=
  ⟨p.name, p.default.map Expr.bare, .blank⟩

/-! ## Operations -/

mutual

def Operation.bare : Operation → Operation
  | .literal text _ => .literal text .blank
  | .emit expr escaper _ => .emit expr.bare escaper .blank
  | .invoke bound none _ => .invoke (bareInvocation bound) none .blank
  | .invoke bound (some caller) _ => .invoke (bareInvocation bound) (some (bareAll caller)) .blank
  | .branch arms _ => .branch (bareArms arms) .blank
  | .loop targets iterable body otherwise _ =>
    .loop targets iterable.bare (bareAll body) (bareAll otherwise) .blank
  | .store name expr _ => .store name expr.bare .blank
  | .inclusion path program _ =>
    .inclusion path ⟨program.unit, bareAll program.ops, bareMacros program.macros⟩ .blank

def bareAll : List Operation → List Operation
  | [] => []
  | op :: ops => op.bare :: bareAll ops

def bareArms : List (Arm Operation) → List (Arm Operation)
  | [] => []
  | a :: as => ⟨a.condition.map Expr.bare, bareAll a.ops⟩ :: bareArms as

def bareMacros : List (MacroProgram Operation) → List (MacroProgram Operation)
  | [] => []
  | m :: ms => ⟨m.name, m.params.map bareParameter, bareAll m.body⟩ :: bareMacros ms

end

end Program

def MacroProgram.bare (m : MacroProgram Program.Operation) : MacroProgram Program.Operation :=
  ⟨m.name, m.params.map Program.bareParameter, Program.bareAll m.body⟩

def ProgramOver.bare (program : Program) : Program :=
  ⟨program.unit, Program.bareAll program.ops, Program.bareMacros program.macros⟩

/-! ## Outcomes that are the same bare -/

/-- A step after outcomes that are the same after `k`. -/
theorem Except.map_bind_congr {ε α β γ δ : Type} {k : α → β} {m : γ → δ} {x x' : Except ε α}
    {f f' : α → Except ε γ} (hx : x'.map k = x.map k)
    (hf : ∀ a a', k a' = k a → (f' a').map m = (f a).map m) :
    (x' >>= f').map m = (x >>= f).map m := by
  cases x with
  | error e =>
      cases x' with
      | error e' => rw [Except.error.inj hx]; rfl
      | ok a' => cases hx
  | ok a =>
      cases x' with
      | error e' => cases hx
      | ok a' => exact hf a a' (Except.ok.inj hx)

/-- Elements that go together have the same of what depends on nothing else. -/
theorem List.map_eq_of_map_eq {α β γ : Type} {k : α → β} {f f' : α → γ} {xs xs' : List α}
    (h : xs'.map k = xs.map k) (hf : ∀ x ∈ xs, ∀ x' ∈ xs', k x' = k x → f' x' = f x) :
    xs'.map f' = xs.map f := by
  induction xs generalizing xs' with
  | nil =>
      obtain rfl := List.map_eq_nil_iff.mp h
      rfl
  | cons x xs ih =>
      cases xs' with
      | nil => cases h
      | cons x' xs' =>
          obtain ⟨hhead, htail⟩ := List.cons.inj h
          rw [List.map_cons, List.map_cons, hf x List.mem_cons_self x' List.mem_cons_self hhead,
            ih htail fun y hy y' hy' =>
              hf y (List.mem_cons_of_mem _ hy) y' (List.mem_cons_of_mem _ hy')]

namespace Program

theorem bareExprs_eq_map (es : List Expr) : bareExprs es = es.map Expr.bare := by
  induction es with
  | nil => rfl
  | cons e es ih => rw [bareExprs, ih, List.map_cons]

theorem bareNamed_eq_map (as : List (NamedArgument Expr)) :
    bareNamed as = as.map bareNamedArgument := by
  induction as with
  | nil => rfl
  | cons a as ih => rw [bareNamed, ih, List.map_cons, bareNamedArgument]

end Program

namespace Generator

variable {g g' : Generator}

theorem sequence_bare {α β : Type} {k : α → β} {xs xs' : List (Outcome α)}
    (h : xs'.map (Except.map k) = xs.map (Except.map k)) :
    (sequence xs').map (List.map k) = (sequence xs).map (List.map k) := by
  induction xs generalizing xs' with
  | nil =>
      obtain rfl := List.map_eq_nil_iff.mp h
      rfl
  | cons x xs ih =>
      cases xs' with
      | nil => cases h
      | cons x' xs' =>
          obtain ⟨hhead, htail⟩ := List.cons.inj h
          refine Except.map_bind_congr hhead fun a a' ha => ?_
          refine Except.map_bind_congr (ih htail) fun as as' has => ?_
          show Except.ok (k a' :: as'.map k) = Except.ok (k a :: as.map k)
          rw [ha, has]

/-- An outcome for a named argument, without places. -/
def bareOutcome (a : NamedArgument (Outcome Program.Expr)) :
    NamedArgument (Outcome Program.Expr) :=
  ⟨a.name, a.value.map Program.Expr.bare, .blank, .blank⟩

/-- Refilling looks at no span. -/
theorem refill_bare (name : String) (bound : List (BoundArgument Template.Expr))
    (args : List (Outcome Program.Expr)) (named : List (NamedArgument (Outcome Program.Expr))) :
    refill name (bound.map (BoundArgument.respan fun _ => .blank))
        (args.map (Except.map Program.Expr.bare)) (named.map bareOutcome) =
      (refill name bound args named).map Program.bareArguments := by
  have hfound : ∀ (p : Parameter Template.Expr) (named : List (NamedArgument _)),
      (named.map bareOutcome).find? (·.name = (p.respan fun _ => .blank).name) =
        (named.find? (·.name = p.name)).map bareOutcome :=
    fun p named => List.find?_map
  have hgiven : ∀ (p : Parameter Template.Expr) (x : Outcome Program.Expr)
      (others : Outcome (List (BoundArgument Program.Expr))),
      (do
        let value ← x.map Program.Expr.bare
        return .given (p.respan fun _ => .blank) value :: (← others.map Program.bareArguments)) =
      (do
        let value ← x
        return .given p value :: (← others) : Outcome _).map Program.bareArguments := by
    intro p x others
    rw [← Parameter.bare_eq_respan]
    cases x <;> cases others <;> rfl
  induction bound, args, named using refill.induct with
  | case1 args named => rfl
  | case2 p value bound args named ih =>
      rw [List.map_cons, BoundArgument.respan, refill, ih, refill, ← Parameter.bare_eq_respan,
        ← Template.Expr.bare_eq_respan]
      cases refill name bound args named <;> rfl
  | case3 p value bound arg args named ih =>
      rw [List.map_cons, List.map_cons, BoundArgument.respan, refill, ih, refill]
      exact hgiven p arg _
  | case4 p value bound named hfind =>
      rw [List.map_cons, List.map_nil, BoundArgument.respan, refill, refill, hfound, hfind]
      rfl
  | case5 p value bound named arg hfind ih =>
      rw [List.map_cons, List.map_nil, BoundArgument.respan, refill, refill, hfound, hfind]
      rw [List.map_nil] at ih
      simp only [Option.map_some, ih]
      exact hgiven p arg.value _

/-! ## Generators that differ in spans -/

/-- The bindings hold for a call what it binds to. -/
def HoldsOwn (g : Generator) (call : MacroCall) : Prop :=
  ∃ bound, g.bindings.lookup call.span = some bound ∧ bind g.table call = .ok bound

/-- The bindings hold what the calls in an expression bind to. -/
def Owns (g : Generator) (e : Template.Expr) : Prop :=
  ∀ c ∈ e.callSites g.table, g.HoldsOwn c

theorem Owns.child {e x : Template.Expr} (h : g.Owns e) (hx : x ∈ e.children) : g.Owns x :=
  Template.Expr.forall_callSites_child h hx

/-- A call of a macro and the calls among its arguments. -/
theorem Owns.call {e : Template.Expr} {c : MacroCall} (h : g.Owns e)
    (hc : e.macroCall? g.table = some c) : g.HoldsOwn c ∧ ∀ x ∈ c.exprs, g.Owns x :=
  Template.Expr.forall_callSites_macroCall? h hc

/-- The two generators have the same macros, but for spans and for how texts are cut. -/
structure Alike (g g' : Generator) : Prop where
  table : g'.table.core = g.table.core
  escaper : g'.escaper = g.escaper

theorem macroCall?_core (table : MacroTable) (e : Template.Expr) :
    e.bare.macroCall? table.core = (e.macroCall? table).map MacroCall.bare := by
  have hjoined : ∀ e : Template.Expr, e.macroCall? table.core =
      e.macroCall? (table.respan fun _ => .blank) := by
    intro e
    cases e with
    | call func args named argsSpan s =>
        cases func <;> simp only [Template.Expr.macroCall?, MacroTable.core,
          MacroTable.contains_joined]
    | _ => rfl
  rw [hjoined, Template.Expr.bare_eq_respan, Template.Expr.macroCall?_respan,
    funext MacroCall.bare_eq_respan]

theorem bind_core (table : MacroTable) (call : MacroCall) :
    bind table.core call.bare =
      ((bind table call).map (BoundCall.respan fun _ => .blank)).mapError
        (Located.respan fun _ => .blank) := by
  rw [MacroTable.core, bind_joined, MacroCall.bare_eq_respan, bind_respan]

namespace Alike

open Template.Expr (children named_mem_children)

theorem macroCall? (h : Alike g g') {e e' : Template.Expr} (he : e'.bare = e.bare) :
    (e'.macroCall? g'.table).map MacroCall.bare = (e.macroCall? g.table).map MacroCall.bare := by
  rw [← macroCall?_core, ← macroCall?_core, h.table, he]

/-- Calls that are the same bare bind to the same. -/
theorem bound (h : Alike g g') {c c' : MacroCall} (hc : c'.bare = c.bare) (hown : g.HoldsOwn c)
    (hown' : g'.HoldsOwn c') {args args' : List (Outcome Program.Expr)}
    {named named' : List (NamedArgument (Outcome Program.Expr))}
    (hargs : args'.map (Except.map Program.Expr.bare) = args.map (Except.map Program.Expr.bare))
    (hnamed : named'.map bareOutcome = named.map bareOutcome) :
    (g'.bound c'.name c'.span args' named').map Program.bareInvocation =
      (g.bound c.name c.span args named).map Program.bareInvocation := by
  obtain ⟨b, hlookup, hbind⟩ := hown
  obtain ⟨b', hlookup', hbind'⟩ := hown'
  have hname : c'.name = c.name := (MacroCall.mk.inj hc).1
  have hbound : b'.respan (fun _ => .blank) = b.respan fun _ => .blank := by
    have hcore := bind_core g'.table c'
    rw [h.table, hc, bind_core, hbind, hbind'] at hcore
    exact (Except.ok.inj hcore).symm
  obtain ⟨hdefinition, harguments⟩ := BoundCall.mk.inj hbound
  have hrefill := refill_bare c'.name b'.arguments args' named'
  rw [hname, harguments, hargs, hnamed, refill_bare] at hrefill
  rw [Generator.bound, Generator.bound, hlookup, hlookup', hname]
  refine Except.map_bind_congr hrefill.symm fun filled filled' hfilled => ?_
  show Except.ok (BoundCall.mk _ _) = Except.ok (BoundCall.mk _ _)
  rw [hdefinition, hfilled]

/-- What a list of expressions comes to, by what each of them comes to. -/
theorem outcomes {es es' : List Template.Expr}
    (hes : Template.bareExprs es' = Template.bareExprs es)
    (h : ∀ e ∈ es, ∀ e' ∈ es', e'.bare = e.bare →
      (g'.expr e').map Program.Expr.bare = (g.expr e).map Program.Expr.bare) :
    (g'.exprs es').map (Except.map Program.Expr.bare) =
      (g.exprs es).map (Except.map Program.Expr.bare) := by
  rw [Template.bareExprs_eq_map, Template.bareExprs_eq_map] at hes
  rw [exprs_eq_map, exprs_eq_map, List.map_map, List.map_map]
  exact List.map_eq_of_map_eq hes h

theorem namedOutcomes {as as' : List (NamedArgument Template.Expr)}
    (has : Template.bareNamed as' = Template.bareNamed as)
    (h : ∀ a ∈ as, ∀ a' ∈ as', a'.value.bare = a.value.bare →
      (g'.expr a'.value).map Program.Expr.bare = (g.expr a.value).map Program.Expr.bare) :
    (g'.named as').map bareOutcome = (g.named as).map bareOutcome := by
  rw [Template.bareNamed_eq_map, Template.bareNamed_eq_map] at has
  rw [named_eq_map, named_eq_map, List.map_map, List.map_map]
  refine List.map_eq_of_map_eq has fun a ha a' ha' heq => ?_
  obtain ⟨hname, hvalue, -⟩ := NamedArgument.mk.inj heq
  rw [← Template.Expr.bare_eq_respan, ← Template.Expr.bare_eq_respan] at hvalue
  show NamedArgument.mk a'.name ((g'.expr a'.value).map _) _ _ = _
  rw [hname, h a ha a' ha' hvalue]
  rfl

theorem namedArguments {as as' : List (NamedArgument (Outcome Program.Expr))}
    (h : as'.map bareOutcome = as.map bareOutcome) :
    (as'.map namedArgument).map (Except.map Program.bareNamedArgument) =
      (as.map namedArgument).map (Except.map Program.bareNamedArgument) := by
  have hbare : ∀ a : NamedArgument (Outcome Program.Expr),
      (namedArgument a).map Program.bareNamedArgument = namedArgument (bareOutcome a) := by
    rintro ⟨name, value, nameSpan, span⟩
    cases value <;> rfl
  rw [List.map_map, List.map_map]
  refine List.map_eq_of_map_eq h fun a _ a' _ heq => ?_
  rw [Function.comp, Function.comp, hbare, hbare, heq]

/-- Calls that are the same bare, of whose parts this is known. -/
theorem call (h : Alike g g') {f f' : Template.Expr} {args args' : List Template.Expr}
    {named named' : List (NamedArgument Template.Expr)} {as as' s s' : Span}
    (he : (Template.Expr.call f' args' named' as' s').bare =
      (Template.Expr.call f args named as s).bare)
    (hown : g.Owns (.call f args named as s)) (hown' : g'.Owns (.call f' args' named' as' s'))
    (hf : (g'.expr f').map Program.Expr.bare = (g.expr f).map Program.Expr.bare)
    (ha : (g'.exprs args').map (Except.map Program.Expr.bare) =
      (g.exprs args).map (Except.map Program.Expr.bare))
    (hn : (g'.named named').map bareOutcome = (g.named named).map bareOutcome) :
    (g'.expr (.call f' args' named' as' s')).map Program.Expr.bare =
      (g.expr (.call f args named as s)).map Program.Expr.bare := by
  have hcall := h.macroCall? he
  rw [Generator.expr, Generator.expr]
  cases hc : (Template.Expr.call f args named as s).macroCall? g.table with
  | some c =>
      rw [hc] at hcall
      obtain ⟨c', hc', hbare⟩ := Option.map_eq_some_iff.mp hcall
      obtain ⟨_, hspan, _⟩ := Template.Expr.macroCall?_eq_some_iff.mp hc
      obtain ⟨_, hspan', _⟩ := Template.Expr.macroCall?_eq_some_iff.mp hc'
      obtain rfl := (Template.Expr.call.inj hspan).2.2.2.2
      obtain rfl := (Template.Expr.call.inj hspan').2.2.2.2
      have hbound := h.bound hbare (hown.call hc).1 (hown'.call hc').1 ha hn
      simp only [hc']
      refine Except.map_bind_congr hbound fun b b' hb => ?_
      show Except.ok (Program.Expr.invoke (Program.bareInvocation b') _) = _
      rw [hb]
      rfl
  | none =>
      rw [hc] at hcall
      have hc' := Option.map_eq_none_iff.mp hcall
      simp only [hc']
      refine Except.map_bind_congr hf fun x x' hx => ?_
      refine Except.map_bind_congr (sequence_bare ha) fun xs xs' hxs => ?_
      refine Except.map_bind_congr (sequence_bare (namedArguments hn)) fun ys ys' hys => ?_
      show Except.ok (Program.Expr.call x'.bare (Program.bareExprs xs')
        (Program.bareNamed ys') _ _) = _
      rw [hx, Program.bareExprs_eq_map, hxs, Program.bareNamed_eq_map, hys,
        ← Program.bareExprs_eq_map, ← Program.bareNamed_eq_map]
      rfl

/-- Expressions that are the same bare come to the same, bare. -/
theorem expr (h : Alike g g') (e : Template.Expr) {e' : Template.Expr} (he : e'.bare = e.bare)
    (hown : g.Owns e) (hown' : g'.Owns e') :
    (g'.expr e').map Program.Expr.bare = (g.expr e).map Program.Expr.bare := by
  induction e using Template.Expr.parts_induction generalizing e' with
  | literal value s =>
      cases e' with
      | literal value' s' =>
          obtain ⟨rfl, -⟩ := Template.Expr.literal.inj he
          rfl
      | _ => cases he
  | var name s =>
      cases e' with
      | var name' s' =>
          obtain ⟨rfl, -⟩ := Template.Expr.var.inj he
          rfl
      | _ => cases he
  | binary op l r s ihl ihr =>
      cases e' with
      | binary op' l' r' s' =>
          obtain ⟨rfl, hl, hr, -⟩ := Template.Expr.binary.inj he
          have hl := ihl hl (hown.child (by simp [children])) (hown'.child (by simp [children]))
          have hr := ihr hr (hown.child (by simp [children])) (hown'.child (by simp [children]))
          rw [Generator.expr, Generator.expr]
          refine Except.map_bind_congr hl fun x x' hx => ?_
          refine Except.map_bind_congr hr fun y y' hy => ?_
          show Except.ok (Program.Expr.binary _ x'.bare y'.bare _) = _
          rw [hx, hy]
          rfl
      | _ => cases he
  | unary op e s ih =>
      cases e' with
      | unary op' e' s' =>
          obtain ⟨rfl, he, -⟩ := Template.Expr.unary.inj he
          have he := ih he (hown.child (by simp [children])) (hown'.child (by simp [children]))
          rw [Generator.expr, Generator.expr]
          refine Except.map_bind_congr he fun x x' hx => ?_
          show Except.ok (Program.Expr.unary _ x'.bare _) = _
          rw [hx]
          rfl
      | _ => cases he
  | filter name e args s ihe iha =>
      cases e' with
      | filter name' e' args' s' =>
          obtain ⟨rfl, he, ha, -⟩ := Template.Expr.filter.inj he
          have he := ihe he (hown.child (by simp [children])) (hown'.child (by simp [children]))
          have ha := outcomes ha fun a ha a' ha' heq => iha a ha heq
            (hown.child (by simp [children, ha])) (hown'.child (by simp [children, ha']))
          rw [Generator.expr, Generator.expr]
          refine Except.map_bind_congr he fun x x' hx => ?_
          refine Except.map_bind_congr (sequence_bare ha) fun xs xs' hxs => ?_
          show Except.ok (Program.Expr.filter _ x'.bare (Program.bareExprs xs') _) = _
          rw [hx, Program.bareExprs_eq_map, hxs, ← Program.bareExprs_eq_map]
          rfl
      | _ => cases he
  | index e p s ihe ihp =>
      cases e' with
      | index e' p' s' =>
          obtain ⟨he, hp, -⟩ := Template.Expr.index.inj he
          have he := ihe he (hown.child (by simp [children])) (hown'.child (by simp [children]))
          have hp := ihp hp (hown.child (by simp [children])) (hown'.child (by simp [children]))
          rw [Generator.expr, Generator.expr]
          refine Except.map_bind_congr he fun x x' hx => ?_
          refine Except.map_bind_congr hp fun y y' hy => ?_
          show Except.ok (Program.Expr.index x'.bare y'.bare _) = _
          rw [hx, hy]
          rfl
      | _ => cases he
  | member e name s ih =>
      cases e' with
      | «attribute» e' name' s' =>
          obtain ⟨hx, rfl, -⟩ := Template.Expr.attribute.inj he
          have he := ih hx (hown.child (by simp [children])) (hown'.child (by simp [children]))
          rw [Generator.expr, Generator.expr]
          refine Except.map_bind_congr he fun x x' hx => ?_
          show Except.ok (Program.Expr.attribute x'.bare _ _) = _
          rw [hx]
          rfl
      | _ => cases he
  | call f args named as s ihf iha ihn =>
      cases e' with
      | call f' args' named' as' s' =>
          obtain ⟨hf, ha, hn, -⟩ := Template.Expr.call.inj he
          have hf := ihf hf (hown.child (by simp [children])) (hown'.child (by simp [children]))
          have ha := outcomes ha fun a ha a' ha' heq => iha a ha heq
            (hown.child (by simp [children, ha])) (hown'.child (by simp [children, ha']))
          have hn := namedOutcomes hn fun a ha a' ha' heq => ihn a ha heq
            (hown.child (named_mem_children ha)) (hown'.child (named_mem_children ha'))
          exact h.call he hown hown' hf ha hn
      | _ => cases he

theorem expr? (h : Alike g g') {o o' : Option Template.Expr}
    (ho : o'.map Template.Expr.bare = o.map Template.Expr.bare) (hown : ∀ e ∈ o, g.Owns e)
    (hown' : ∀ e ∈ o', g'.Owns e) :
    (g'.expr? o').map (Option.map Program.Expr.bare) =
      (g.expr? o).map (Option.map Program.Expr.bare) := by
  cases o with
  | none =>
      cases o' with
      | none => rfl
      | some e' => cases ho
  | some e =>
      cases o' with
      | none => cases ho
      | some e' =>
          have he := h.expr e (Option.some.inj ho) (hown e rfl) (hown' e' rfl)
          refine Except.map_bind_congr he fun x x' hx => ?_
          exact congrArg (fun x => Except.ok (some x)) hx

theorem param (h : Alike g g') {p p' : Parameter Template.Expr} (hp : p'.bare = p.bare)
    (hown : ∀ e ∈ p.default, g.Owns e) (hown' : ∀ e ∈ p'.default, g'.Owns e) :
    (g'.param p').map Program.bareParameter = (g.param p).map Program.bareParameter := by
  obtain ⟨hname, hdefault, -⟩ := Parameter.mk.inj hp
  refine Except.map_bind_congr (h.expr? hdefault hown hown') fun o o' ho => ?_
  show Except.ok (Parameter.mk _ (o'.map Program.Expr.bare) _) = _
  rw [hname, ho]
  rfl

theorem macroCall (h : Alike g g') {c c' : MacroCall} (hc : c'.bare = c.bare)
    (hown : g.HoldsOwn c) (hown' : g'.HoldsOwn c') (hexprs : ∀ e ∈ c.exprs, g.Owns e)
    (hexprs' : ∀ e ∈ c'.exprs, g'.Owns e) :
    (g'.macroCall c').map Program.bareInvocation = (g.macroCall c).map Program.bareInvocation := by
  obtain ⟨-, hargs, hnamed, -⟩ := MacroCall.mk.inj hc
  refine h.bound hc hown hown' (outcomes hargs fun e he e' he' heq => ?_)
    (namedOutcomes hnamed fun a ha a' ha' heq => ?_)
  · exact h.expr e heq (hexprs e (List.mem_append_left _ he))
      (hexprs' e' (List.mem_append_left _ he'))
  · exact h.expr a.value heq
      (hexprs _ (List.mem_append_right _ (List.mem_map.mpr ⟨a, ha, rfl⟩)))
      (hexprs' _ (List.mem_append_right _ (List.mem_map.mpr ⟨a', ha', rfl⟩)))

end Alike

end Generator

end TemplateCompiler
