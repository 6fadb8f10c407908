import TemplateCompiler.Proofs.Binding
import TemplateCompiler.Proofs.Generation
import TemplateCompiler.Proofs.Invocations

/-!
# Generated programs invoke their macros

Generation goes through expressions and nodes, and puts an invocation where a macro is called. What
the invocation passes comes from the bindings, and a binding is made for the definition that the
table holds under the name, which is also the one that the macro of the program is generated from.
-/

namespace TemplateCompiler

/-! ## Generated expressions -/

open Program (Matches)
open Template (Node)

namespace Generator

variable {g : Generator}

/-- Refilling keeps the parameters, and the values it gives are generated arguments of the call. -/
theorem refill_spec {name : String} {bound : List (BoundArgument Template.Expr)}
    {args : List (Outcome Program.Expr)} {named : List (NamedArgument (Outcome Program.Expr))}
    {filled : List (BoundArgument Program.Expr)} (h : refill name bound args named = .ok filled) :
    filled.map (·.param) = bound.map (·.param) ∧
      ∀ p v, .given p v ∈ filled → .ok v ∈ args ∨ ∃ a ∈ named, a.value = .ok v := by
  induction bound, args, named using refill.induct generalizing filled with
  | case1 args named =>
      obtain rfl := Except.ok.inj h
      exact ⟨rfl, nofun⟩
  | case2 p value bound args named ih =>
      rw [refill, Except.bind_eq_ok_iff] at h
      obtain ⟨rest, hrest, heq⟩ := h
      obtain rfl := Except.ok.inj heq
      obtain ⟨hparams, hvalues⟩ := ih hrest
      refine ⟨by rw [List.map_cons, List.map_cons, hparams]; rfl, fun q v hv => ?_⟩
      exact hvalues q v ((List.mem_cons.mp hv).resolve_left nofun)
  | case3 p value bound arg args named ih =>
      rw [refill] at h
      simp only [Except.bind_eq_ok_iff] at h
      obtain ⟨v, rfl, rest, hrest, heq⟩ := h
      obtain rfl := Except.ok.inj heq
      obtain ⟨hparams, hvalues⟩ := ih hrest
      refine ⟨by rw [List.map_cons, List.map_cons, hparams]; rfl, fun q w hw => ?_⟩
      rcases List.mem_cons.mp hw with heq | hw
      · obtain ⟨-, rfl⟩ := BoundArgument.given.inj heq
        exact .inl List.mem_cons_self
      · exact (hvalues q w hw).imp_left (List.mem_cons_of_mem _)
  | case4 p value bound named hfind =>
      rw [refill] at h
      simp only [hfind] at h
      cases h
  | case5 p value bound named arg hfind ih =>
      rw [refill] at h
      simp only [hfind, Except.bind_eq_ok_iff] at h
      obtain ⟨v, hv, rest, hrest, heq⟩ := h
      obtain rfl := Except.ok.inj heq
      obtain ⟨hparams, hvalues⟩ := ih hrest
      refine ⟨by rw [List.map_cons, List.map_cons, hparams]; rfl, fun q w hw => ?_⟩
      rcases List.mem_cons.mp hw with heq | hw
      · obtain ⟨-, rfl⟩ := BoundArgument.given.inj heq
        exact .inr ⟨arg, List.mem_of_find?_eq_some hfind, hv⟩
      · exact hvalues q w hw

/-- Everything that the bindings hold matches a macro. -/
def BindingsMatch (g : Generator) : Prop :=
  ∀ span call, g.bindings.lookup span = some call → ∃ d, g.table.lookup? call.definition = some d ∧
    call.arguments.map (·.param) = d.params

theorem bound_invokes (hg : g.BindingsMatch) {name : String} {span : Span}
    {args : List Template.Expr} {named : List (NamedArgument Template.Expr)}
    {bound : BoundCall Program.Expr}
    (h : g.bound name span (args.map g.expr) (named.map g.namedOutcome) = .ok bound)
    (ha : ∀ a ∈ args, ∀ e, g.expr a = .ok e → e.Invokes g.table)
    (hn : ∀ a ∈ named, ∀ e, g.expr a.value = .ok e → e.Invokes g.table) :
    Matches g.table bound ∧ ∀ p v, .given p v ∈ bound.arguments → v.Invokes g.table := by
  unfold Generator.bound at h
  split at h
  · cases h
  · next call hcall =>
      rw [Except.bind_eq_ok_iff] at h
      obtain ⟨filled, hfilled, heq⟩ := h
      obtain rfl := Except.ok.inj heq
      obtain ⟨hparams, hvalues⟩ := refill_spec hfilled
      obtain ⟨d, hd, hcallparams⟩ := hg span call hcall
      refine ⟨⟨d, hd, hparams.trans hcallparams⟩, fun p v hv => ?_⟩
      rcases hvalues p v hv with hmem | ⟨a, hmem, hvalue⟩
      · obtain ⟨a, ha', heq⟩ := List.mem_map.mp hmem
        exact ha a ha' v heq
      · obtain ⟨b, hb, rfl⟩ := List.mem_map.mp hmem
        exact hn b hb v hvalue

theorem expr_invokes (hg : g.BindingsMatch) (e : Template.Expr) {e' : Program.Expr}
    (h : g.expr e = .ok e') : e'.Invokes g.table := by
  induction e using Template.Expr.parts_induction generalizing e' with
  | literal value s => cases g.expr_eq_ok_iff.mp h with | literal => exact .literal
  | var name s => cases g.expr_eq_ok_iff.mp h with | var => exact .var
  | binary op l r s ihl ihr =>
      cases g.expr_eq_ok_iff.mp h with
      | binary hl hr => exact .binary (ihl hl) (ihr hr)
  | unary op e s ih => cases g.expr_eq_ok_iff.mp h with | unary he => exact .unary (ih he)
  | filter name e args s ihe iha =>
      cases g.expr_eq_ok_iff.mp h with
      | filter he hargs =>
          refine .filter (ihe he) fun a' ha' => ?_
          obtain ⟨a, ha, ha'⟩ := exists_of_mem_sequence hargs ha'
          exact iha a ha ha'
  | index e p s ihe ihp =>
      cases g.expr_eq_ok_iff.mp h with | index he hp => exact .index (ihe he) (ihp hp)
  | member e name s ih => cases g.expr_eq_ok_iff.mp h with | member he => exact .member (ih he)
  | call f args named as s ihf iha ihn =>
      cases g.expr_eq_ok_iff.mp h with
      | invoke hc hbound =>
          rw [exprs_eq_map, named_eq_map] at hbound
          obtain ⟨hmatches, hvalues⟩ := bound_invokes hg hbound
            (fun a ha e' he => iha a ha he) (fun a ha e' he => ihn a ha he)
          exact .invoke hmatches hvalues
      | call hc hf hargs hnamed =>
          refine .call ?_ (ihf hf) (fun a' ha' => ?_) fun a' ha' => ?_
          · rintro name s' rfl hname
            -- Only a name becomes a name, so the callee named a macro before.
            cases g.expr_eq_ok_iff.mp hf with
            | var => simp [Template.Expr.macroCall?, hname] at hc
          · obtain ⟨a, ha, ha'⟩ := exists_of_mem_sequence hargs ha'
            exact iha a ha ha'
          · obtain ⟨a, ha, ha'⟩ := exists_of_mem_sequence hnamed ha'
            obtain ⟨v, hv, heq⟩ := Except.bind_eq_ok_iff.mp ha'
            obtain rfl := Except.ok.inj heq
            exact ihn a ha hv

/-! ## Generated operations -/

theorem macroCall_invokes (hg : g.BindingsMatch) {call : MacroCall}
    {bound : BoundCall Program.Expr} (h : g.macroCall call = .ok bound) :
    Matches g.table bound ∧ ∀ p v, .given p v ∈ bound.arguments → v.Invokes g.table := by
  rw [macroCall, exprs_eq_map, named_eq_map] at h
  exact bound_invokes hg h (fun a _ _ he => expr_invokes hg a he)
    fun a _ _ he => expr_invokes hg a.value he

/-- What the nodes come to holds no call of a macro. -/
def OperationsInvoke (g : Generator) (ns : List Node) : Prop :=
  ∀ n ∈ ns, ∀ op, g.operation? n = .ok (some op) → op.Invokes g.table

theorem block_invokes {ns : List Node} (hns : g.OperationsInvoke ns)
    {ops : List Program.Operation} (h : g.block ns = .ok ops) : ∀ op ∈ ops, op.Invokes g.table := by
  intro op hop
  obtain ⟨os, hos, hjoin⟩ := g.block_eq_ok_iff.mp h
  rcases mem_of_joinLiterals hjoin hop with ⟨text, s, rfl⟩ | hmem
  · exact .literal
  · obtain ⟨o, ho, rfl⟩ := List.mem_filterMap.mp hmem
    obtain ⟨n, hn, hop⟩ := exists_of_mem_sequence hos ho
    exact hns n hn op hop

theorem condition_invokes (hg : g.BindingsMatch) {o : Option Template.Expr}
    {o' : Option Program.Expr} (h : g.expr? o = .ok o') : ∀ e, o' = some e → e.Invokes g.table := by
  rintro e rfl
  cases o with
  | none => cases h
  | some e' =>
      obtain ⟨e, he, heq⟩ := Except.bind_eq_ok_iff.mp h
      obtain rfl := Option.some.inj (Except.ok.inj heq)
      exact expr_invokes hg e' he

theorem operation?_invokes (hg : g.BindingsMatch) (n : Node) {op : Program.Operation}
    (h : g.operation? n = .ok (some op)) : op.Invokes g.table := by
  induction n using Node.parts_induction generalizing op with
  | text value s => cases g.operation?_eq_some_iff.mp h with | literal => exact .literal
  | output e s =>
      cases g.operation?_eq_some_iff.mp h with
      | invoke hc hbound =>
          obtain ⟨hmatches, hvalues⟩ := macroCall_invokes hg hbound
          exact .invoke hmatches hvalues nofun
      | emit hc he => exact .emit (expr_invokes hg e he)
  | branch arms s ih =>
      cases g.operation?_eq_some_iff.mp h with
      | @branch _ arms' _ harms =>
          have harm : ∀ arm' ∈ arms', (∀ e, arm'.condition = some e → e.Invokes g.table) ∧
              ∀ op ∈ arm'.ops, op.Invokes g.table := by
            intro arm' harm'
            obtain ⟨a, ha, harm'⟩ := exists_of_mem_sequence harms harm'
            simp only [arm, Except.bind_eq_ok_iff] at harm'
            obtain ⟨condition, hcondition, ops, hops, heq⟩ := harm'
            obtain rfl := Except.ok.inj heq
            exact ⟨condition_invokes hg hcondition, block_invokes (fun n hn _ => ih a ha n hn) hops⟩
          exact .branch (fun a ha => (harm a ha).1) fun a ha => (harm a ha).2
  | loop targets e body otherwise s ihb iho =>
      cases g.operation?_eq_some_iff.mp h with
      | loop he hbody hother =>
          exact .loop (expr_invokes hg e he) (block_invokes (fun n hn _ => ihb n hn) hbody)
            (block_invokes (fun n hn _ => iho n hn) hother)
  | definition d ih => cases g.operation?_eq_some_iff.mp h
  | callBlock call body s ih =>
      cases g.operation?_eq_some_iff.mp h with
      | callBlock hbound hops =>
          obtain ⟨hmatches, hvalues⟩ := macroCall_invokes hg hbound
          refine .invoke hmatches hvalues ?_
          rintro _ op ⟨⟩ hop
          exact block_invokes (fun n hn _ => ih n hn) hops op hop
  | inclusion path s => cases g.operation?_eq_some_iff.mp h with | inclusion => exact .inclusion
  | assignment name e s =>
      cases g.operation?_eq_some_iff.mp h with | store he => exact .store (expr_invokes hg e he)

/-! ## Generated programs -/

theorem macroProgram_spec {d : MacroDef} {m : MacroProgram Program.Operation}
    (h : g.macroProgram d = .ok m) :
    m.name = d.name ∧ d.params.map g.param = m.params.map .ok ∧ g.block d.body = .ok m.body := by
  simp only [macroProgram, Except.bind_eq_ok_iff, sequence_eq_ok_iff] at h
  obtain ⟨params, hparams, body, hbody, heq⟩ := h
  obtain rfl := Except.ok.inj heq
  exact ⟨rfl, hparams, hbody⟩

theorem param_name {p : Parameter Template.Expr} {p' : Parameter Program.Expr}
    (h : g.param p = .ok p') : p'.name = p.name ∧ g.expr? p.default = .ok p'.default := by
  obtain ⟨default, hdefault, heq⟩ := Except.bind_eq_ok_iff.mp h
  obtain rfl := Except.ok.inj heq
  exact ⟨rfl, hdefault⟩

theorem program_spec {t : Template} {unit : String} {program : Program}
    (h : g.program t unit = .ok program) :
    g.table.definitions.map g.macroProgram = program.macros.map .ok ∧
      g.block t.body = .ok program.ops := by
  simp only [Generator.program, Except.bind_eq_ok_iff, sequence_eq_ok_iff] at h
  obtain ⟨macros, hmacros, ops, hops, heq⟩ := h
  obtain rfl := Except.ok.inj heq
  exact ⟨hmacros, hops⟩

/-- A field that every outcome keeps is the same of the list of results. -/
theorem map_eq_of_sequence {α β γ : Type} {f : α → Outcome β} {xs : List α} {ys : List β}
    {p : α → γ} {q : β → γ} (h : xs.map f = ys.map .ok)
    (hf : ∀ x ∈ xs, ∀ y, f x = .ok y → q y = p x) : ys.map q = xs.map p := by
  induction xs generalizing ys with
  | nil =>
      obtain rfl := List.map_eq_nil_iff.mp h.symm
      rfl
  | cons x xs ih =>
      cases ys with
      | nil => cases h
      | cons y ys =>
          obtain ⟨hhead, htail⟩ := List.cons.inj h
          obtain ⟨hx, hxs⟩ := List.forall_mem_cons.mp hf
          rw [List.map_cons, List.map_cons, hx y hhead, ih htail hxs]

/-- The macro of a name in a program comes from the definition of that name. -/
theorem find_macro {t : Template} {unit : String} {program : Program}
    (h : g.program t unit = .ok program) {name : String} {d : MacroDef}
    (hd : g.table.lookup? name = some d) :
    ∃ m, program.macros.find? (·.name = name) = some m ∧
      m.params.map (·.name) = d.params.map (·.name) := by
  obtain ⟨hmacros, -⟩ := program_spec h
  unfold MacroTable.lookup? at hd
  generalize g.table.definitions = ds, program.macros = ms at hmacros hd
  induction ds generalizing ms with
  | nil => cases hd
  | cons e ds ih =>
      cases ms with
      | nil => cases hmacros
      | cons m ms =>
          obtain ⟨hm, hms⟩ := List.cons.inj hmacros
          obtain ⟨hname, hparams, -⟩ := macroProgram_spec hm
          by_cases he : e.name = name
          · rw [List.find?_cons_of_pos (by simpa using he)] at hd
            obtain rfl := Option.some.inj hd
            refine ⟨m, List.find?_cons_of_pos (by simpa [hname] using he), ?_⟩
            exact map_eq_of_sequence hparams fun p _ p' hp => (param_name hp).1
          · rw [List.find?_cons_of_neg (by simpa using he)] at hd
            obtain ⟨m', hm', hnames⟩ := ih ms hms hd
            refine ⟨m', ?_, hnames⟩
            rwa [List.find?_cons_of_neg (by simpa [hname] using he)]

/-- Every parameter in turn, if none receives nothing. -/
theorem params_of_receive? {assigned : Assigned} {params : List (Parameter Template.Expr)}
    (h : missingNames assigned params = []) :
    (params.filterMap (receive? assigned)).map (·.param) = params := by
  have hparam : ∀ {p b}, receive? assigned p = some b → b.param = p := by
    intro p b hb
    unfold receive? at hb
    split at hb
    · obtain rfl := Option.some.inj hb
      rfl
    · obtain ⟨value, -, rfl⟩ := Option.map_eq_some_iff.mp hb
      rfl
  rw [missingNames, List.map_eq_nil_iff, List.filter_eq_nil_iff] at h
  induction params with
  | nil => rfl
  | cons p params ih =>
      obtain ⟨hp, hparams⟩ := List.forall_mem_cons.mp h
      obtain ⟨b, hb⟩ : ∃ b, receive? assigned p = some b := by
        simpa [Option.ne_none_iff_exists'] using hp
      rw [List.filterMap_cons_some hb, List.map_cons, hparam hb, ih hparams]

/-- A call binds to the parameters of the definition that the table holds under its name. -/
theorem bind_matches {table : MacroTable} {call : MacroCall} {bound : BoundCall Template.Expr}
    (h : bind table call = .ok bound) :
    bound.definition = call.name ∧
      ∃ d, table.lookup? call.name = some d ∧ bound.arguments.map (·.param) = d.params := by
  cases hd : table.lookup? call.name with
  | none =>
      rw [bind, hd] at h
      cases h
  | some d =>
      by_cases harity : call.args.length ≤ d.params.length
      · rw [bind_eq hd harity] at h
        obtain ⟨assigned, -, h⟩ := Except.bind_eq_ok_iff.mp h
        split at h
        · cases h
        · next hmissing =>
            obtain rfl := Except.ok.inj h
            exact ⟨rfl, d, rfl, params_of_receive? hmissing⟩
      · rw [bind, hd] at h
        simp only [if_pos (Nat.lt_of_not_le harity)] at h
        cases h

/-- Bindings come from calls that bind. -/
theorem bind_of_mem_bindCalls {table : MacroTable} {calls : List MacroCall} {bindings : Bindings}
    {entry : Span × BoundCall Template.Expr} (h : entry ∈ (bindCalls table bindings calls).1) :
    entry ∈ bindings ∨ ∃ call, bind table call = .ok entry.2 := by
  induction calls generalizing bindings with
  | nil => exact .inl h
  | cons call calls ih =>
      rw [bindCalls] at h
      cases hbind : bind table call with
      | ok bound =>
          rw [hbind] at h
          rcases ih h with hmem | hcall
          · unfold Bindings.insert at hmem
            split at hmem
            · obtain ⟨earlier, hearlier, rfl⟩ := List.mem_map.mp hmem
              split
              · exact .inr ⟨call, hbind⟩
              · exact .inl hearlier
            · rcases List.mem_append.mp hmem with hmem | hmem
              · exact .inl hmem
              · obtain rfl := List.mem_singleton.mp hmem
                exact .inr ⟨call, hbind⟩
          · exact .inr hcall
      | error problem =>
          rw [hbind] at h
          exact ih h

/-- What a template is generated with once its calls are bound. -/
def ofTemplate (t : Template) (includes : Inclusions) (escaper : String) : Generator where
  table := t.macroTable.1
  bindings := (bindAll t t.macroTable.1).1
  includes := includes
  escaper := escaper

theorem ofTemplate_bindingsMatch (t : Template) (includes : Inclusions) (escaper : String) :
    (ofTemplate t includes escaper).BindingsMatch := by
  intro span call hcall
  rcases bind_of_mem_bindCalls (mem_of_lookup hcall) with hmem | ⟨site, hsite⟩
  · cases hmem
  · obtain ⟨hname, hmatches⟩ := bind_matches hsite
    rwa [← hname] at hmatches

end Generator

/-! ## Programs of templates -/

/-- In the program no macro of the table is called as if the host provided it, and every invocation
names a macro of the program and passes its parameters, in their order. -/
structure Program.CallsBound (table : MacroTable) (program : Program) : Prop where
  macros : program.macros.map (·.name) = table.definitions.map (·.name)
  distinct : (program.macros.map (·.name)).Nodup
  uncalled : ∀ name s args named argsSpan span,
    program.HasExpr (.call (.var name s) args named argsSpan span) → ¬ table.contains name
  invoked : ∀ bound, program.HasInvocation bound →
    ∃ m, program.macros.find? (·.name = bound.definition) = some m ∧
      bound.arguments.map (·.param.name) = m.params.map (·.name)

open Generator

section

variable {t : Template} {includes : Inclusions} {escaper unit : String} {program : Program}

theorem program_invokes (h : (ofTemplate t includes escaper).program t unit = .ok program) :
    (∀ op, program.HasOperation op → op.Invokes t.macroTable.1) ∧
      ∀ e, program.HasExpr e → e.Invokes t.macroTable.1 := by
  have hg := ofTemplate_bindingsMatch t includes escaper
  have hblock : ∀ {ns ops}, (ofTemplate t includes escaper).block ns = .ok ops →
      ∀ op ∈ ops, op.Invokes t.macroTable.1 :=
    fun hops => block_invokes (fun n _ _ hn => operation?_invokes hg n hn) hops
  obtain ⟨hmacros, hops⟩ := program_spec h
  have hoperation : ∀ op, program.HasOperation op → op.Invokes t.macroTable.1 := by
    rintro op (⟨hop, hin⟩ | ⟨hm, hop, hin⟩)
    · exact (hblock hops _ hop).of_within hin
    · obtain ⟨d, -, hd⟩ := exists_of_mem_sequence hmacros hm
      exact (hblock (macroProgram_spec hd).2.2 _ hop).of_within hin
  refine ⟨hoperation, ?_⟩
  rintro x (⟨hop, he, hin⟩ | ⟨hm, hp, he, hin⟩)
  · exact ((hoperation _ hop).of_uses he).of_within hin
  · obtain ⟨d, -, hd⟩ := exists_of_mem_sequence hmacros hm
    obtain ⟨p, -, hp⟩ := exists_of_mem_sequence (macroProgram_spec hd).2.1 hp
    exact (condition_invokes hg (param_name hp).2 _ he).of_within hin

theorem matches_of_hasInvocation
    (h : (ofTemplate t includes escaper).program t unit = .ok program)
    {bound : BoundCall Program.Expr} (hbound : program.HasInvocation bound) :
    Matches t.macroTable.1 bound := by
  obtain ⟨hoperation, hexpr⟩ := program_invokes h
  rcases hbound with hin | hin
  · cases hexpr _ hin with | invoke hb _ => exact hb
  · cases hoperation _ hin with | invoke hb _ _ => exact hb

theorem macro_names (h : (ofTemplate t includes escaper).program t unit = .ok program) :
    program.macros.map (·.name) = t.macroTable.1.definitions.map (·.name) :=
  map_eq_of_sequence (program_spec h).1 fun _ _ _ hm => (macroProgram_spec hm).1

end

/-- The calls in a generated program are bound, whatever was included and whatever the source. -/
theorem program_callsBound {t : Template} {includes : Inclusions} {escaper unit : String}
    {program : Program} (h : (ofTemplate t includes escaper).program t unit = .ok program) :
    program.CallsBound t.macroTable.1 := by
  have hnames := macro_names h
  refine ⟨hnames, hnames ▸ t.macroTable_nodup, ?_, ?_⟩
  · intro name s args named argsSpan span hcall
    cases (program_invokes h).2 _ hcall with
    | call hname _ _ _ => exact hname name s rfl
  · intro bound hbound
    obtain ⟨d, hd, hparams⟩ := matches_of_hasInvocation h hbound
    obtain ⟨m, hm, hmparams⟩ := find_macro h hd
    have hpassed := congrArg (List.map Parameter.name) hparams
    rw [List.map_map] at hpassed
    exact ⟨m, hm, hpassed.trans hmparams.symm⟩

/-- A default that calls its own macro, and calls in an operand, an argument and a call block. -/
theorem callsBound_of_recursive_default :
    let source := "\x7b% macro m(a, b=m(1)) %\x7d\x7b\x7b a + m(2) \x7d\x7d\x7b% endmacro %\x7d" ++
      "\x7b\x7b m(m(3), b=4) \x7d\x7d\x7b% call m(5) %\x7dx\x7b% endcall %\x7d"
    ∃ parsed program, parse ⟨"page", .preserve⟩ .standard source = .ok parsed ∧
      (ofTemplate parsed.template [] "text").program parsed.template "page" = .ok program ∧
      program.CallsBound parsed.template.macroTable.1 := by
  intro source
  obtain ⟨parsed, hparsed, hgenerated⟩ := Except.exists_of_toOption_map
    (x := parse ⟨"page", .preserve⟩ .standard source) (b := true)
    (f := fun parsed =>
      ((ofTemplate parsed.template [] "text").program parsed.template "page").toOption.isSome)
    (by decide +kernel)
  obtain ⟨program, hprogram⟩ : ∃ program,
      (ofTemplate parsed.template [] "text").program parsed.template "page" = .ok program := by
    cases h : (ofTemplate parsed.template [] "text").program parsed.template "page" with
    | ok program => exact ⟨program, rfl⟩
    | error fault => simp [h, Except.toOption] at hgenerated
  exact ⟨parsed, program, hparsed, hprogram, program_callsBound hprogram⟩

end TemplateCompiler
