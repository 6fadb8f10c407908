import TemplateCompiler.Proofs.MirroredPrograms

/-!
# Programs without their bindings

The expressions of a program are those of its template, except that calls of macros have their
arguments bound. Erasing the bindings gives calls back. What a binding does not keep is which
arguments were positional and where each of them stood. So the calls that are given back pass all
arguments by name, in the order of the parameters, and have one span throughout.

`byName` puts the calls in a template into that form, in which they bind as before
(`bind_allNamed`). With it every expression of a program erases to the one of the template that it
was generated from (`expr_erase`), and one in which no macro is called to that very expression.
-/

namespace TemplateCompiler

open Template (Expr Node walkAll)

/-! ## Arguments by name -/

/-- Changes the value that is passed. -/
def NamedArgument.mapValue {α β : Type} (f : α → β) (a : NamedArgument α) : NamedArgument β :=
  ⟨a.name, f a.value, a.nameSpan, a.span⟩

namespace BoundArgument

variable {α β : Type}

/-- Changes the value that is given. A default is not part of the call. -/
def map (f : α → β) : BoundArgument α → BoundArgument β
  | .given p value => .given p (f value)
  | .default p value => .default p value

/-- What a call passes by name for the parameter. -/
def passed? (s : Span) : BoundArgument α → Option (NamedArgument α)
  | .given p value => some ⟨p.name, value, s, s⟩
  | .default _ _ => none

theorem passed?_name {s : Span} {b : BoundArgument α} {a : NamedArgument α}
    (h : b.passed? s = some a) : a.name = b.param.name := by
  cases b with
  | given p value =>
      obtain rfl := Option.some.inj h
      rfl
  | default p value => cases h

end BoundArgument

/-- What is passed by name where the parameter `p` of index `i` receives `f i p`. -/
def passedByName (f : Nat → Parameter Expr → Option (BoundArgument Expr))
    (params : List (Parameter Expr)) (s : Span) : List (NamedArgument Expr) :=
  (params.mapIdx f).filterMap (Option.bind · (·.passed? s))

section

variable {f : Nat → Parameter Expr → Option (BoundArgument Expr)}
  {params : List (Parameter Expr)}

theorem passedByName_cons (p : Parameter Expr) (s : Span) :
    passedByName f (p :: params) s =
      ((f 0 p).bind (·.passed? s)).toList ++ passedByName (fun i => f (i + 1)) params s := by
  unfold passedByName
  rw [List.mapIdx_cons, List.filterMap_cons]
  split
  · next h => rw [h]; rfl
  · next a h => rw [h]; rfl

theorem passedByName_names (h : ∀ i p b, f i p = some b → b.param = p) (s : Span) :
    ((passedByName f params s).map (·.name)).Sublist (params.map (·.name)) := by
  induction params generalizing f with
  | nil => exact .slnil
  | cons p params ih =>
      have hrest := ih fun i => h (i + 1)
      rw [passedByName_cons, List.map_append, List.map_cons]
      cases hp : (f 0 p).bind (·.passed? s) with
      | none => exact hrest.cons p.name
      | some a =>
          obtain ⟨b, hb, ha⟩ := Option.bind_eq_some_iff.mp hp
          have hname : a.name = p.name := by rw [BoundArgument.passed?_name ha, h 0 p b hb]
          rw [← hname]
          exact hrest.cons_cons a.name

/-- Under the name of a parameter stands what that parameter receives. -/
theorem find_passedByName (h : ∀ i p b, f i p = some b → b.param = p)
    (hparams : (params.map (·.name)).Nodup) {i : Nat} {p : Parameter Expr}
    (hp : params[i]? = some p) (s : Span) :
    (passedByName f params s).find? (·.name = p.name) = (f i p).bind (·.passed? s) := by
  induction params generalizing f i with
  | nil => cases hp
  | cons q params ih =>
      obtain ⟨hnew, hnodup⟩ := List.nodup_cons.mp hparams
      have hbehind : ∀ i p b, f (i + 1) p = some b → b.param = p := fun i => h (i + 1)
      have hname : ∀ a, (f 0 q).bind (·.passed? s) = some a → a.name = q.name := by
        intro a ha
        obtain ⟨b, hb, ha⟩ := Option.bind_eq_some_iff.mp ha
        rw [BoundArgument.passed?_name ha, h 0 q b hb]
      rw [passedByName_cons, List.find?_append]
      cases i with
      | zero =>
          obtain rfl := Option.some.inj hp
          cases hq : (f 0 q).bind (·.passed? s) with
          | some a => simp [hname a hq]
          | none =>
              rw [Option.toList_none, List.find?_nil, Option.none_or, List.find?_eq_none]
              intro a ha heq
              have hmem := (passedByName_names hbehind s).subset (List.mem_map_of_mem ha)
              rw [of_decide_eq_true heq] at hmem
              exact hnew hmem
      | succ i =>
          have hne : q.name ≠ p.name := by
            intro heq
            exact hnew (List.mem_map.mpr ⟨p, List.mem_of_getElem? hp, heq.symm⟩)
          have hskip : ((f 0 q).bind (·.passed? s)).toList.find? (·.name = p.name) = none := by
            refine List.find?_eq_none.mpr fun a ha => ?_
            rw [hname a (Option.mem_toList.mp ha)]
            simpa using hne
          rw [hskip, Option.none_or]
          exact ih hbehind hnodup hp

end

namespace MacroCall

/-- The call that passes by name, in the order of the parameters, what this one passes. -/
def allNamed (call : MacroCall) (params : List (Parameter Expr)) (s : Span) : MacroCall where
  name := call.name
  args := []
  named := passedByName call.receive? params s
  argsSpan := s
  span := s

variable {call : MacroCall} {params : List (Parameter Expr)}

theorem receive?_param {i : Nat} {p : Parameter Expr} {b : BoundArgument Expr}
    (h : call.receive? i p = some b) : b.param = p := by
  unfold receive? at h
  split at h
  · obtain rfl := Option.some.inj h
    rfl
  · split at h
    · obtain rfl := Option.some.inj h
      rfl
    · obtain ⟨value, -, rfl⟩ := Option.map_eq_some_iff.mp h
      rfl

/-- Each parameter receives what it did. -/
theorem receive?_allNamed (hparams : (params.map (·.name)).Nodup) {i : Nat} {p : Parameter Expr}
    (hp : params[i]? = some p) (s : Span) :
    (call.allNamed params s).receive? i p = call.receive? i p := by
  have hfind := find_passedByName (f := call.receive?) (fun _ _ _ => receive?_param) hparams hp s
  unfold receive? allNamed
  rw [List.getElem?_nil]
  simp only [hfind]
  unfold receive?
  cases call.args[i]? with
  | some value => rfl
  | none =>
      cases call.named.find? (·.name = p.name) with
      | some a => rfl
      | none => cases p.default <;> rfl

theorem receivers_allNamed (hparams : (params.map (·.name)).Nodup) (s : Span) :
    params.mapIdx (call.allNamed params s).receive? = params.mapIdx call.receive? := by
  refine List.ext_getElem? fun i => ?_
  rw [List.getElem?_mapIdx, List.getElem?_mapIdx]
  cases hp : params[i]? with
  | none => rfl
  | some p => exact congrArg some (receive?_allNamed hparams hp s)

theorem exists_given {i : Nat} {p : Parameter Expr}
    (h : i < call.args.length ∨ p.name ∈ call.named.map (·.name)) :
    ∃ value, call.receive? i p = some (.given p value) := by
  unfold receive?
  cases hi : call.args[i]? with
  | some value => exact ⟨value, rfl⟩
  | none =>
      have hname := h.resolve_left (Nat.not_lt.mpr (List.getElem?_eq_none_iff.mp hi))
      obtain ⟨a, ha, heq⟩ := List.mem_map.mp hname
      have hsome : (call.named.find? (·.name = p.name)).isSome :=
        List.find?_isSome.mpr ⟨a, ha, by simpa using heq⟩
      obtain ⟨found, hfound⟩ := Option.isSome_iff_exists.mp hsome
      exact ⟨found.value, by rw [hfound]⟩

theorem fits_allNamed (hparams : (params.map (·.name)).Nodup) (h : Fits params call) (s : Span) :
    Fits params (call.allNamed params s) := by
  have hnames : ((call.allNamed params s).named.map (·.name)).Sublist (params.map (·.name)) :=
    passedByName_names (fun _ _ _ => receive?_param) s
  refine ⟨Nat.zero_le _, ⟨fun a ha => ?_, fun a ha => List.not_mem_nil, hnames.nodup hparams⟩, ?_⟩
  · exact hnames.subset (List.mem_map_of_mem ha)
  · intro i p hp hdefault
    obtain ⟨value, hvalue⟩ := exists_given (h.filled i p hp hdefault)
    have hfind := find_passedByName (f := call.receive?) (fun _ _ _ => receive?_param)
      hparams hp s
    rw [hvalue] at hfind
    exact .inr (List.mem_map.mpr ⟨_, List.mem_of_find?_eq_some hfind, rfl⟩)

/-- The call by name binds to what the call binds to. -/
theorem bind_allNamed {table : MacroTable} {d : MacroDef}
    (hd : table.lookup? call.name = some d) (hparams : (d.params.map (·.name)).Nodup)
    {b : BoundCall Expr} (h : bind table call = .ok b) (s : Span) :
    bind table (call.allNamed d.params s) = .ok b := by
  have hunique : ∀ d', table.lookup? call.name = some d' → d' = d :=
    fun d' hd' => Option.some.inj (hd'.symm.trans hd)
  have hrules : BindsByRules table call :=
    bindsByRules_of_nodup fun d' hd' => hunique d' hd' ▸ hparams
  obtain ⟨d', hd', hfits⟩ := hrules.succeeds.mp ⟨b, h⟩
  obtain rfl := hunique d' hd'
  obtain ⟨d'', hd'', hname, hreceived, -⟩ := hrules.receives b h
  obtain rfl := hunique d'' hd''
  obtain ⟨b', hb', hname', hreceived'⟩ :=
    bind_of_fits hparams (show table.lookup? (call.allNamed d''.params s).name = some d'' from hd)
      (fits_allNamed hparams hfits s)
  rw [receivers_allNamed hparams] at hreceived'
  obtain ⟨definition, arguments⟩ := b
  obtain ⟨definition', arguments'⟩ := b'
  obtain rfl : definition' = definition := hname'.trans hname.symm
  obtain rfl : arguments' = arguments :=
    List.map_injective_iff.mpr (Option.some_injective _) (hreceived'.trans hreceived.symm)
  exact hb'

/-- Changes the arguments of a call. -/
def mapValues (f : Expr → Expr) (call : MacroCall) : MacroCall where
  name := call.name
  args := call.args.map f
  named := call.named.map (·.mapValue f)
  argsSpan := call.argsSpan
  span := call.span

theorem receive?_mapValues (f : Expr → Expr) (i : Nat) (p : Parameter Expr) :
    (call.mapValues f).receive? i p = (call.receive? i p).map (·.map f) := by
  unfold receive? mapValues
  rw [List.getElem?_map]
  cases call.args[i]? with
  | some value => rfl
  | none =>
      have hfind : (call.named.map (·.mapValue f)).find? (·.name = p.name) =
          (call.named.find? (·.name = p.name)).map (·.mapValue f) := List.find?_map
      rw [Option.map_none]
      simp only [hfind]
      cases call.named.find? (·.name = p.name) with
      | some a => rfl
      | none => cases p.default <;> rfl

theorem receivers_mapValues (f : Expr → Expr) :
    params.mapIdx (call.mapValues f).receive? =
      (params.mapIdx call.receive?).map (Option.map (·.map f)) := by
  refine List.ext_getElem? fun i => ?_
  rw [List.getElem?_mapIdx, List.getElem?_map, List.getElem?_mapIdx, Option.map_map]
  exact congrArg (Option.map · params[i]?) (funext fun p => receive?_mapValues f i p)

/-- The call as an expression. -/
def expr (call : MacroCall) : Expr :=
  .call (.var call.name call.span) call.args call.named call.argsSpan call.span

end MacroCall

/-! ## Calls by name in a template -/

/-- The parameters of a macro of the table. -/
def MacroTable.params (table : MacroTable) (name : String) : List (Parameter Expr) :=
  match table.lookup? name with
  | some d => d.params
  | none => []

namespace Template

variable (table : MacroTable)

mutual

/-- The expression with every call of a macro as a call by name. -/
def Expr.byName : Expr → Expr
  | .literal value s => .literal value s
  | .var name s => .var name s
  | .binary op left right s => .binary op left.byName right.byName s
  | .unary op operand s => .unary op operand.byName s
  | .filter name value args s => .filter name value.byName (exprsByName args) s
  | .index value position s => .index value.byName position.byName s
  | .attribute value name s => .attribute value.byName name s
  | .call func args named argsSpan s =>
    match (Expr.call func args named argsSpan s).macroCall? table with
    | some call =>
      (MacroCall.allNamed ⟨call.name, exprsByName args, namedByName named, argsSpan, s⟩
        (table.params call.name) s).expr
    | none => .call func.byName (exprsByName args) (namedByName named) argsSpan s

def exprsByName : List Expr → List Expr
  | [] => []
  | e :: es => e.byName :: exprsByName es

def namedByName : List (NamedArgument Expr) → List (NamedArgument Expr)
  | [] => []
  | a :: as => ⟨a.name, a.value.byName, a.nameSpan, a.span⟩ :: namedByName as

end

theorem exprsByName_eq_map (es : List Expr) : exprsByName table es = es.map (·.byName table) := by
  induction es with
  | nil => rfl
  | cons e es ih => rw [exprsByName, ih, List.map_cons]

theorem namedByName_eq_map (as : List (NamedArgument Expr)) :
    namedByName table as = as.map (·.mapValue (·.byName table)) := by
  induction as with
  | nil => rfl
  | cons a as ih => rw [namedByName, ih, List.map_cons, NamedArgument.mapValue]

end Template

/-- The call by name, with the calls among its arguments by name as well. -/
def MacroCall.byName (table : MacroTable) (call : MacroCall) (s : Span) : MacroCall :=
  (call.mapValues (·.byName table)).allNamed (table.params call.name) s

namespace Template

variable {table : MacroTable}

theorem Expr.byName_of_macroCall? {e : Expr} {call : MacroCall}
    (h : e.macroCall? table = some call) : e.byName table = (call.byName table call.span).expr := by
  obtain ⟨nameSpan, rfl, -⟩ := macroCall?_eq_some_iff.mp h
  rw [byName]
  simp only [h, exprsByName_eq_map, namedByName_eq_map]
  rfl

theorem Expr.byName_of_not_macroCall? {f : Expr} {args : List Expr}
    {named : List (NamedArgument Expr)} {argsSpan s : Span}
    (h : (Expr.call f args named argsSpan s).macroCall? table = none) :
    (Expr.call f args named argsSpan s).byName table =
      .call (f.byName table) (args.map (·.byName table))
        (named.map (·.mapValue (·.byName table))) argsSpan s := by
  rw [byName]
  simp only [h, exprsByName_eq_map, namedByName_eq_map]

theorem map_eq_self {α : Type} {f : α → α} {xs : List α} (h : ∀ x ∈ xs, f x = x) : xs.map f = xs :=
  (List.map_congr_left h).trans (List.map_id' xs)

/-- Nothing changes where no macro is called. -/
theorem Expr.byName_eq_self (e : Expr) (h : e.callSites table = []) : e.byName table = e := by
  have hchild : ∀ {e x : Expr}, e.callSites table = [] → x ∈ e.children →
      x.callSites table = [] :=
    fun h hx => List.eq_nil_iff_forall_not_mem.mpr fun c hc =>
      List.not_mem_nil (h ▸ mem_callSites_of_child hx hc)
  induction e using parts_induction with
  | literal | var => rfl
  | binary op l r s ihl ihr =>
      rw [byName, ihl (hchild h (by simp [children])), ihr (hchild h (by simp [children]))]
  | unary op e s ih | member e name s ih => rw [byName, ih (hchild h (by simp [children]))]
  | filter name e args s ihe iha =>
      have hargs : args.map (·.byName table) = args :=
        map_eq_self fun a ha => iha a ha (hchild h (by simp [children, ha]))
      rw [byName, ihe (hchild h (by simp [children])), exprsByName_eq_map, hargs]
  | index e p s ihe ihp =>
      rw [byName, ihe (hchild h (by simp [children])), ihp (hchild h (by simp [children]))]
  | call f args named as s ihf iha ihn =>
      have hmacro : (Expr.call f args named as s).macroCall? table = none := by
        rw [callSites_eq] at h
        exact Option.toList_eq_nil_iff.mp (List.append_eq_nil_iff.mp h).1
      have hargs : args.map (·.byName table) = args :=
        map_eq_self fun a ha => iha a ha (hchild h (by simp [children, ha]))
      have hnamed : named.map (·.mapValue (·.byName table)) = named := by
        refine map_eq_self fun a ha => ?_
        rw [NamedArgument.mapValue, ihn a ha (hchild h (named_mem_children ha))]
      rw [byName_of_not_macroCall? hmacro, ihf (hchild h (by simp [children])), hargs, hnamed]

end Template

/-! ## Erasing -/

namespace Program

mutual

/-- The expression with a call by name in place of each bound one. -/
def Expr.erase : Expr → Template.Expr
  | .literal value s => .literal value s
  | .var name s => .var name s
  | .binary op left right s => .binary op left.erase right.erase s
  | .unary op operand s => .unary op operand.erase s
  | .filter name value args s => .filter name value.erase (eraseAll args) s
  | .index value position s => .index value.erase position.erase s
  | .attribute value name s => .attribute value.erase name s
  | .call func args named argsSpan s =>
    .call func.erase (eraseAll args) (eraseNamed named) argsSpan s
  | .invoke bound s =>
    .call (.var bound.definition s) [] (eraseBound s bound.arguments) s s

def eraseAll : List Expr → List Template.Expr
  | [] => []
  | e :: es => e.erase :: eraseAll es

def eraseNamed : List (NamedArgument Expr) → List (NamedArgument Template.Expr)
  | [] => []
  | a :: as => ⟨a.name, a.value.erase, a.nameSpan, a.span⟩ :: eraseNamed as

def eraseBound (s : Span) : List (BoundArgument Expr) → List (NamedArgument Template.Expr)
  | [] => []
  | .given p value :: rest => ⟨p.name, value.erase, s, s⟩ :: eraseBound s rest
  | .default _ _ :: rest => eraseBound s rest

end

theorem eraseAll_eq_map (es : List Expr) : eraseAll es = es.map Expr.erase := by
  induction es with
  | nil => rfl
  | cons e es ih => rw [eraseAll, ih, List.map_cons]

theorem eraseNamed_eq_map (as : List (NamedArgument Expr)) :
    eraseNamed as = as.map (·.mapValue Expr.erase) := by
  induction as with
  | nil => rfl
  | cons a as ih => rw [eraseNamed, ih, List.map_cons, NamedArgument.mapValue]

theorem eraseBound_eq (s : Span) (bound : List (BoundArgument Expr)) :
    eraseBound s bound = (bound.map (·.map Expr.erase)).filterMap (·.passed? s) := by
  induction bound with
  | nil => rfl
  | cons b bound ih =>
      cases b with
      | given p value => rw [eraseBound, ih]; rfl
      | default p value => rw [eraseBound, ih]; rfl

/-- The call that a bound one comes from, by name. -/
def eraseCall (bound : BoundCall Expr) (s : Span) : MacroCall :=
  ⟨bound.definition, [], eraseBound s bound.arguments, s, s⟩

end Program

namespace Generator

open Template.Expr (children forall_callSites_child)

variable {g : Generator}

theorem boundCall_erase {call : MacroCall} (hcall : g.BindsOwn call)
    (hvalues : ∀ e ∈ call.exprs, ∀ e', g.expr e = .ok e' → e'.erase = e.byName g.table)
    {bound : BoundCall Program.Expr}
    (h : g.bound call.name call.span (g.exprs call.args) (g.named call.named) = .ok bound)
    (s : Span) : Program.eraseCall bound s = call.byName g.table s := by
  obtain ⟨b, d, hlookup, hd, hname, hreceived⟩ := hcall
  rw [bound_eq hlookup hreceived] at h
  obtain ⟨arguments, harguments, heq⟩ := Except.bind_eq_ok_iff.mp h
  obtain rfl := Except.ok.inj heq
  have hparams : g.table.params call.name = d.params := by rw [MacroTable.params, hd]
  have hgiven : arguments.map (·.map Program.Expr.erase) =
      b.arguments.map (·.map (·.byName g.table)) := by
    refine map_eq_of_sequence (sequence_eq_ok_iff.mp harguments) fun a ha a' ha' => ?_
    cases a with
    | default p value =>
        obtain rfl := Except.ok.inj ha'
        rfl
    | given p value =>
        obtain ⟨e', he', heq⟩ := Except.bind_eq_ok_iff.mp ha'
        obtain rfl := Except.ok.inj heq
        have hvalue := hvalues value (MacroCall.mem_exprs_of_given hreceived ha) e' he'
        exact congrArg (BoundArgument.given p) hvalue
  have hreceives : d.params.mapIdx (call.mapValues (·.byName g.table)).receive? =
      (b.arguments.map (·.map (·.byName g.table))).map some := by
    rw [MacroCall.receivers_mapValues, ← hreceived, List.map_map, List.map_map]
    rfl
  have hnamed : Program.eraseBound s arguments =
      passedByName (call.mapValues (·.byName g.table)).receive? d.params s := by
    rw [Program.eraseBound_eq, hgiven, passedByName, hreceives, List.filterMap_map (f := some)]
    rfl
  unfold Program.eraseCall MacroCall.byName MacroCall.allNamed
  rw [hname, hnamed, hparams]
  rfl

/-- Erasing the bindings gives the expression back, with calls by name. -/
theorem expr_erase {e : Expr} (h : ∀ c ∈ e.callSites g.table, g.BindsOwn c) {e' : Program.Expr}
    (he : g.expr e = .ok e') : e'.erase = e.byName g.table := by
  induction e using Expr.parts_induction generalizing e' with
  | literal | var =>
      cases g.expr_eq_ok_iff.mp he
      rfl
  | binary op l r s ihl ihr =>
      cases g.expr_eq_ok_iff.mp he with
      | binary hl hr =>
          have hl := ihl (forall_callSites_child h (by simp [children])) hl
          have hr := ihr (forall_callSites_child h (by simp [children])) hr
          rw [Program.Expr.erase, Expr.byName, hl, hr]
  | unary op e s ih =>
      cases g.expr_eq_ok_iff.mp he with
      | unary hx =>
          have hx := ih (forall_callSites_child h (by simp [children])) hx
          rw [Program.Expr.erase, Expr.byName, hx]
  | filter name e args s ihe iha =>
      cases g.expr_eq_ok_iff.mp he with
      | filter hx ha =>
          have hx := ihe (forall_callSites_child h (by simp [children])) hx
          have hargs := map_eq_of_sequence (p := (·.byName g.table)) (q := Program.Expr.erase) ha
            fun a ha a' => iha a ha (forall_callSites_child h (by simp [children, ha]))
          rw [Program.Expr.erase, Expr.byName, hx, Program.eraseAll_eq_map,
            Template.exprsByName_eq_map, hargs]
  | index e p s ihe ihp =>
      cases g.expr_eq_ok_iff.mp he with
      | index hx hp =>
          have hx := ihe (forall_callSites_child h (by simp [children])) hx
          have hp := ihp (forall_callSites_child h (by simp [children])) hp
          rw [Program.Expr.erase, Expr.byName, hx, hp]
  | member e name s ih =>
      cases g.expr_eq_ok_iff.mp he with
      | member hx =>
          have hx := ih (forall_callSites_child h (by simp [children])) hx
          rw [Program.Expr.erase, Expr.byName, hx]
  | call f args named as s ihf iha ihn =>
      have hargs : ∀ a ∈ args, ∀ a', g.expr a = .ok a' → a'.erase = a.byName g.table :=
        fun a ha a' => iha a ha (forall_callSites_child h (by simp [children, ha]))
      have hnamed : ∀ a ∈ named, ∀ a', g.expr a.value = .ok a' →
          a'.erase = a.value.byName g.table :=
        fun a ha a' => ihn a ha (forall_callSites_child h (Expr.named_mem_children ha))
      cases g.expr_eq_ok_iff.mp he with
      | @invoke _ _ _ _ _ call bound hc hb =>
          rw [Expr.byName_of_macroCall? hc]
          have hown := h call (Expr.mem_callSites_of_macroCall? hc)
          obtain ⟨nameSpan, heq, -⟩ := Expr.macroCall?_eq_some_iff.mp hc
          obtain ⟨-, rfl, rfl, -, rfl⟩ := Expr.call.inj heq
          have hcall := boundCall_erase hown (List.forall_mem_append.mpr
            ⟨hargs, List.forall_mem_map.mpr hnamed⟩) hb call.span
          rw [← hcall]
          rfl
      | call hc hf ha hn =>
          have hf := ihf (forall_callSites_child h (by simp [children])) hf
          have hnames := map_eq_of_sequence (p := (·.mapValue (·.byName g.table)))
            (q := (·.mapValue Program.Expr.erase)) hn fun a ha a' ha' => by
              obtain ⟨e', he', heq⟩ := Except.bind_eq_ok_iff.mp ha'
              obtain rfl := Except.ok.inj heq
              rw [NamedArgument.mapValue, NamedArgument.mapValue, hnamed a ha e' he']
              rfl
          rw [Program.Expr.erase, Expr.byName_of_not_macroCall? hc, Program.eraseAll_eq_map,
            Program.eraseNamed_eq_map, hf, map_eq_of_sequence ha hargs, hnames]

/-- Where no macro is called, that is the expression itself. -/
theorem expr_erase_eq {e : Expr} (h : e.callSites g.table = []) {e' : Program.Expr}
    (he : g.expr e = .ok e') : e'.erase = e := by
  rw [expr_erase (fun c hc => absurd (h ▸ hc) List.not_mem_nil) he, e.byName_eq_self h]

theorem expr?_erase {o : Option Expr}
    (h : ∀ e, o = some e → ∀ c ∈ e.callSites g.table, g.BindsOwn c) {o' : Option Program.Expr}
    (ho : g.expr? o = .ok o') : o'.map Program.Expr.erase = o.map (·.byName g.table) := by
  cases o with
  | none =>
      obtain rfl := Except.ok.inj ho
      rfl
  | some e =>
      obtain ⟨e', he, heq⟩ := Except.bind_eq_ok_iff.mp ho
      obtain rfl := Except.ok.inj heq
      exact congrArg some (expr_erase (h e rfl) he)

theorem macroCall_erase {call : MacroCall} (hcall : g.BindsOwn call)
    (hexprs : ∀ e ∈ call.exprs, ∀ c ∈ e.callSites g.table, g.BindsOwn c)
    {bound : BoundCall Program.Expr} (h : g.macroCall call = .ok bound) (s : Span) :
    Program.eraseCall bound s = call.byName g.table s :=
  boundCall_erase hcall (fun e he _ => expr_erase (hexprs e he)) h s

end Generator

/-! ## Operations -/

/-- The expressions that an operation holds itself without their bindings. An invocation holds the
call that it carries out. -/
def Program.Operation.erased : Program.Operation → List Template.Expr
  | .emit e _ _ => [e.erase]
  | .invoke bound _ s => [(Program.eraseCall bound s).expr]
  | .branch arms _ => arms.filterMap fun arm => arm.condition.map Program.Expr.erase
  | .loop _ iterable _ _ _ => [iterable.erase]
  | .store _ e _ => [e.erase]
  | .literal _ _ | .inclusion _ _ _ => []

/-- The expressions that a node holds itself, with calls by name. A call that becomes an invocation
has the span of the node. -/
def Template.Node.byName (table : MacroTable) : Node → List Expr
  | .output e s =>
    match e.macroCall? table with
    | some call => [(call.byName table s).expr]
    | none => [e.byName table]
  | .callBlock call _ s => [(call.byName table s).expr]
  | n => n.exprs.map (·.byName table)

namespace Generator

variable {g : Generator}

theorem Mirrors.conditions_erased {arms : List (Arm Node)}
    {images : List (Program.Arm Program.Operation)} (h : g.Mirrors (.arms arms images))
    (hcalls : ∀ a ∈ arms, ∀ e, a.condition = some e → ∀ c ∈ e.callSites g.table, g.BindsOwn c) :
    images.filterMap (fun image => image.condition.map Program.Expr.erase) =
      (arms.filterMap (·.condition)).map (·.byName g.table) := by
  induction arms generalizing images with
  | nil =>
      cases h
      rfl
  | cons a arms ih =>
      obtain ⟨ha, harms⟩ := List.forall_mem_cons.mp hcalls
      cases h with
      | arm hc hb h =>
          have hcondition := expr?_erase ha hc
          have hrest := ih h harms
          simp only [List.filterMap_cons, hcondition, hrest]
          cases a.condition <;> rfl

/-- An image holds the expressions of its node. -/
theorem Mirrors.erased {n : Node} {op : Program.Operation} (h : g.Mirrors (.node n op))
    (hcalls : ∀ c ∈ n.callSites g.table, g.BindsOwn c) : op.erased = n.byName g.table := by
  have hheld : ∀ e ∈ n.held, ∀ c ∈ e.callSites g.table, g.BindsOwn c :=
    fun e he c hc => hcalls c (Node.mem_callSites_of_held he hc)
  cases h with
  | @invoke e s call bound hc hb =>
      obtain ⟨hown, hexprs⟩ := Expr.forall_callSites_macroCall? (hheld e List.mem_cons_self) hc
      have hcall := macroCall_erase hown hexprs hb s
      unfold Program.Operation.erased Node.byName
      simp only [hc, hcall]
  | emit hc he =>
      unfold Program.Operation.erased Node.byName
      simp only [hc, expr_erase (hheld _ List.mem_cons_self) he]
  | branch ha =>
      exact ha.conditions_erased fun a harm e he =>
        hheld e (List.mem_filterMap.mpr ⟨a, harm, he⟩)
  | loop he _ _ | store he =>
      exact congrArg (fun x => [x]) (expr_erase (hheld _ List.mem_cons_self) he)
  | callBlock hc _ =>
      exact congrArg (fun call : MacroCall => [call.expr])
        (macroCall_erase (hcalls _ List.mem_cons_self) hheld hc _)
  | inclusion _ => rfl

end Generator

/-! ## Programs of templates -/

open Generator

/-- Without bindings, the operations hold the expressions of their nodes, and the macros have the
defaults of their definitions. -/
structure Program.Erases (program : Program) (g : Generator) (t : Template) : Prop where
  operations : ∀ n ∈ walkAll t.body, ∀ op, g.Mirrors (.node n op) → op.erased = n.byName g.table
  defaults : program.macros.map (fun m => m.params.map fun p => p.default.map Program.Expr.erase) =
    g.table.definitions.map fun d => d.params.map fun p => p.default.map (·.byName g.table)

theorem parse_program_erases {setting : Parser.Setting} {delimiters : Delimiters}
    {source : String} {parsed : Parsed} (h : parse setting delimiters source = .ok parsed)
    (hproblems : (bindAll parsed.template parsed.template.macroTable.1).2 = [])
    {includes : Inclusions} {escaper unit : String} {program : Program}
    (hprogram : (ofTemplate parsed.template includes escaper).program parsed.template unit =
      .ok program) :
    program.Erases (ofTemplate parsed.template includes escaper) parsed.template := by
  have hcalls : ∀ n ∈ walkAll parsed.template.body,
      ∀ c ∈ n.callSites parsed.template.macroTable.1,
        (ofTemplate parsed.template includes escaper).BindsOwn c :=
    fun n hn c hc => bindsOwn_of_parse h hproblems includes escaper
      (List.mem_flatMap.mpr ⟨n, hn, hc⟩)
  refine ⟨fun n hn op hop => hop.erased (hcalls n hn), ?_⟩
  refine map_eq_of_sequence (program_spec hprogram).1 fun d hd m hm => ?_
  refine map_eq_of_sequence (macroProgram_spec hm).2.1 fun p hp p' hp' => ?_
  refine expr?_erase (fun e he c hc => ?_) (param_name hp').2
  have hheld : e ∈ (Node.definition d).held := List.mem_filterMap.mpr ⟨p, hp, he⟩
  exact hcalls _ (parsed.template.mem_macroTable hd) c (Node.mem_callSites_of_held hheld hc)

end TemplateCompiler
