import TemplateCompiler.Proofs.BoundSites
import TemplateCompiler.Proofs.GeneratedCalls

/-!
# Generation does not fail

A parsed template whose calls all bind, and all of whose includes have programs, becomes a program.
Generation could fail in three ways. A call could have no binding, or that of another call; but
every call finds its own. An include could have no program. And two literals could be joined in the
wrong order; but the text of a block stands in the order of its tokens.
-/

namespace TemplateCompiler

open Template (Expr Node walkAll)

/-! ## Text in order -/

def Template.Node.textSpan? : Node → Option Span
  | .text _ s => some s
  | _ => none

theorem Template.Node.eq_text_of_textSpan? {n : Node} {s : Span} (h : n.textSpan? = some s) :
    ∃ value, n = .text value s := by
  cases n <;> cases h
  exact ⟨_, rfl⟩

def Program.Operation.literalSpan? : Program.Operation → Option Span
  | .literal _ s => some s
  | _ => none

/-- A span can be drawn from the first to the second. -/
def Span.Reaches (s t : Span) : Prop :=
  s.start.offset ≤ t.stop.offset

theorem Span.Reaches.upTo {s t : Span} (h : s.Reaches t) :
    s.upTo t = .ok ⟨s.start, t.stop, s.unit⟩ := by
  rw [Span.upTo, between, if_neg (Nat.not_lt.mpr h)]

theorem Token.InOrder.reaches {ts : List Token} (h : Token.InOrder ts) :
    (ts.map (·.span)).Pairwise Span.Reaches := by
  refine List.pairwise_map.mpr (h.apart.imp_of_mem fun {t u} ht hu hle => ?_)
  have hforward := h.forward t ht
  have hforward' := h.forward u hu
  unfold Span.Reaches
  omega

/-- The text of a block, but not that of the blocks inside it. -/
theorem Composes.texts_sublist {ts : List Token} {ns : List Node} (h : Composes ts (.nodes ns)) :
    (ns.filterMap (·.textSpan?)).Sublist (ts.map (·.span)) := by
  generalize hx : Piece.nodes ns = x at h
  induction h generalizing ns with
  | empty =>
      obtain rfl := Piece.nodes.inj hx
      exact List.nil_sublist _
  | @text ts ws ns t value hns _ hs ih =>
      obtain rfl := Piece.nodes.inj hx
      have htexts := (ih rfl).append (List.Sublist.refl [t.span])
      rw [List.filterMap_append]
      exact htexts.trans (by simpa using hs.map Token.span)
  | @append ts us ws ns n hns hn hs ih =>
      obtain rfl := Piece.nodes.inj hx
      have hnone : n.textSpan? = none := by cases hn <;> rfl
      rw [List.filterMap_append, List.filterMap_cons_none hnone, List.filterMap_nil,
        List.append_nil]
      exact (ih rfl).trans ((sublist_of_left hs).map _)
  | _ => cases hx

namespace Generator

variable {g : Generator}

/-- Literals that stand in order are joined. -/
theorem exists_joinLiterals (pending : Option (String × Span)) (ops : List Program.Operation)
    (h : (pending.toList.map Prod.snd ++ ops.filterMap (·.literalSpan?)).Pairwise Span.Reaches) :
    ∃ joined, joinLiterals pending ops = .ok joined := by
  induction pending, ops using joinLiterals.induct with
  | case1 pending => exact ⟨_, rfl⟩
  | case2 text span rest ih =>
      rw [joinLiterals]
      exact ih h
  | case3 text span rest before start r hr =>
      have hreach : start.Reaches span := List.rel_of_pairwise_cons h List.mem_cons_self
      rw [hreach.upTo] at hr
      cases hr
  | case4 text span rest before start joined hjoined ih =>
      rw [joinLiterals]
      simp only [hjoined]
      obtain ⟨hstart, hrest⟩ := List.pairwise_cons.mp h
      have hreach : start.Reaches span := hstart span List.mem_cons_self
      obtain rfl := Except.ok.inj (hreach.upTo.symm.trans hjoined)
      refine ih (List.pairwise_cons.mpr ⟨fun s hs => ?_, (List.pairwise_cons.mp hrest).2⟩)
      exact hstart s (List.mem_cons_of_mem _ hs)
  | case5 pending op rest hop ih =>
      have hnone : op.literalSpan? = none := by
        cases op with
        | literal text s => exact (hop text s rfl).elim
        | _ => rfl
      rw [List.filterMap_cons_none hnone] at h
      obtain ⟨joined, hjoined⟩ := ih (List.pairwise_append.mp h).2.1
      rw [joinLiterals, hjoined]
      · exact ⟨_, rfl⟩
      · exact hop

/-- Only text becomes a literal, and it keeps its span. -/
theorem NodeStep.literalSpan? {n : Node} {op : Program.Operation} (h : g.NodeStep n op) :
    op.literalSpan? = n.textSpan? := by
  cases h <;> rfl

/-- What becomes of the text in a block. -/
theorem literals_sublist {ns : List Node} {os : List (Option Program.Operation)}
    (h : ns.map g.operation? = os.map .ok) :
    ((os.filterMap id).filterMap (·.literalSpan?)).Sublist (ns.filterMap (·.textSpan?)) := by
  induction ns generalizing os with
  | nil =>
      obtain rfl := List.map_eq_nil_iff.mp h.symm
      exact .slnil
  | cons n ns ih =>
      cases os with
      | nil => cases h
      | cons o os =>
          obtain ⟨hn, hns⟩ := List.cons.inj h
          have hrest := ih hns
          cases htext : n.textSpan? with
          | none =>
              rw [List.filterMap_cons_none htext]
              cases o with
              | none => exact hrest
              | some op =>
                  have hspan := (g.operation?_eq_some_iff.mp hn).literalSpan?.trans htext
                  rw [List.filterMap_cons_some (show id (some op) = some op from rfl),
                    List.filterMap_cons_none hspan]
                  exact hrest
          | some s =>
              rw [List.filterMap_cons_some htext]
              cases o with
              | none => exact hrest.cons s
              | some op =>
                  have hspan := (g.operation?_eq_some_iff.mp hn).literalSpan?.trans htext
                  rw [List.filterMap_cons_some (show id (some op) = some op from rfl),
                    List.filterMap_cons_some hspan]
                  exact hrest.cons_cons s

/-- A block whose nodes are generated and whose text stands in order. -/
theorem exists_block {ns : List Node} (h : ∀ n ∈ ns, ∃ o, g.operation? n = .ok o)
    (htexts : (ns.filterMap (·.textSpan?)).Pairwise Span.Reaches) :
    ∃ ops, g.block ns = .ok ops := by
  obtain ⟨os, hos⟩ := exists_sequence h
  obtain ⟨ops, hops⟩ := exists_joinLiterals none _ (htexts.sublist (literals_sublist hos))
  exact ⟨ops, g.block_eq_ok_iff.mpr ⟨os, hos, hops⟩⟩

/-! ## Expressions -/

/-- What becomes of a bound argument: a given value is generated, a default stays as declared. -/
def boundArgument (g : Generator) : BoundArgument Expr → Outcome (BoundArgument Program.Expr)
  | .given p value => do return .given p (← g.expr value)
  | .default p value => .ok (.default p value)

/-- What becomes of a bound call. -/
def boundCall (g : Generator) (b : BoundCall Expr) : Outcome (BoundCall Program.Expr) := do
  return ⟨b.definition, ← sequence (b.arguments.map g.boundArgument)⟩

/-- Refilling takes the generated values from the call. Where the parameters received what is bound
from that call, they are what becomes of the values in the binding. -/
theorem refill_eq {name : String} {args : List Expr} {named : List (NamedArgument Expr)}
    {argsSpan span : Span} {bound : List (BoundArgument Expr)} {params : List (Parameter Expr)}
    (hbound : bound.map some =
      params.mapIdx (MacroCall.receive? ⟨name, args, named, argsSpan, span⟩)) :
    refill name bound (args.map g.expr) (named.map g.namedOutcome) =
      sequence (bound.map g.boundArgument) := by
  induction bound generalizing params args with
  | nil => rfl
  | cons b bound ih =>
      cases params with
      | nil => cases hbound
      | cons p params =>
          rw [List.mapIdx_cons] at hbound
          obtain ⟨hhead, htail⟩ := List.cons.inj hbound
          rw [List.map_cons, sequence]
          cases args with
          | nil =>
              have hrest := @ih [] params htail
              rw [List.map_nil] at hrest ⊢
              simp only [MacroCall.receive?, List.getElem?_nil] at hhead
              split at hhead
              · next a hfind =>
                  obtain rfl := Option.some.inj hhead
                  have hfound : (named.map g.namedOutcome).find? (·.name = p.name) =
                      some (g.namedOutcome a) := by
                    rw [List.find?_map]
                    exact congrArg (Option.map g.namedOutcome) hfind
                  rw [refill]
                  simp only [hfound, hrest, namedOutcome, boundArgument, bind_assoc, pure_bind]
              · obtain ⟨value, -, rfl⟩ := Option.map_eq_some_iff.mp hhead.symm
                rw [refill, hrest, boundArgument]
                rfl
          | cons e args =>
              obtain rfl : b = .given p e := Option.some.inj hhead
              rw [List.map_cons, refill, @ih args params htail, boundArgument]
              simp only [bind_assoc, pure_bind]

/-- A binding that binding the call itself makes. -/
theorem refill_of_bind {table : MacroTable} {call : MacroCall} {b : BoundCall Expr}
    (hparams : ∀ d, table.lookup? call.name = some d → (d.params.map (·.name)).Nodup)
    (h : bind table call = .ok b) :
    refill call.name b.arguments (g.exprs call.args) (g.named call.named) =
      sequence (b.arguments.map g.boundArgument) := by
  obtain ⟨d, -, -, hreceived, -⟩ := (bindsByRules_of_nodup hparams).receives b h
  rw [exprs_eq_map, named_eq_map]
  exact refill_eq hreceived

/-- The bindings hold, under the span of the call, what the call gives to the parameters of its
macro. -/
def BindsOwn (g : Generator) (call : MacroCall) : Prop :=
  ∃ (bound : BoundCall Expr) (d : MacroDef),
    g.bindings.lookup call.span = some bound ∧ g.table.lookup? call.name = some d ∧
      bound.definition = call.name ∧ bound.arguments.map some = d.params.mapIdx call.receive?

theorem bound_eq {call : MacroCall} {b : BoundCall Expr} {params : List (Parameter Expr)}
    (hlookup : g.bindings.lookup call.span = some b)
    (hreceived : b.arguments.map some = params.mapIdx call.receive?) :
    g.bound call.name call.span (g.exprs call.args) (g.named call.named) = g.boundCall b := by
  unfold Generator.bound
  rw [exprs_eq_map, named_eq_map, hlookup]
  simp only [refill_eq hreceived]
  rfl

theorem exists_bound {call : MacroCall} (hcall : g.BindsOwn call)
    (h : ∀ e ∈ call.exprs, ∃ e', g.expr e = .ok e') :
    ∃ bound, g.bound call.name call.span (g.exprs call.args) (g.named call.named) = .ok bound := by
  obtain ⟨b, d, hlookup, -, -, hreceived⟩ := hcall
  have hargument : ∀ a ∈ b.arguments, ∃ a', g.boundArgument a = .ok a' := by
    intro a ha
    cases a with
    | default p value => exact ⟨_, rfl⟩
    | given p value =>
        obtain ⟨e, he⟩ := h value (MacroCall.mem_exprs_of_given hreceived ha)
        exact ⟨_, Except.bind_eq_ok_iff.mpr ⟨e, he, rfl⟩⟩
  obtain ⟨filled, hfilled⟩ := exists_sequence hargument
  rw [bound_eq hlookup hreceived]
  exact ⟨_, Except.bind_eq_ok_iff.mpr ⟨filled, sequence_eq_ok_iff.mpr hfilled, rfl⟩⟩

/-- An expression is generated if every call in it has its own binding. -/
theorem exists_expr (e : Expr) (h : ∀ c ∈ e.callSites g.table, g.BindsOwn c) :
    ∃ e', g.expr e = .ok e' := by
  induction e using Expr.parts_induction with
  | literal value s => exact ⟨_, rfl⟩
  | var name s => exact ⟨_, rfl⟩
  | binary op l r s ihl ihr =>
      obtain ⟨l', hl⟩ := ihl (Expr.forall_callSites_child h (by simp [Expr.children]))
      obtain ⟨r', hr⟩ := ihr (Expr.forall_callSites_child h (by simp [Expr.children]))
      exact ⟨_, g.expr_eq_ok_iff.mpr (.binary hl hr)⟩
  | unary op e s ih =>
      obtain ⟨e', he⟩ := ih (Expr.forall_callSites_child h (by simp [Expr.children]))
      exact ⟨_, g.expr_eq_ok_iff.mpr (.unary he)⟩
  | filter name e args s ihe iha =>
      obtain ⟨e', he⟩ := ihe (Expr.forall_callSites_child h (by simp [Expr.children]))
      obtain ⟨args', hargs⟩ := exists_sequence fun a ha =>
        iha a ha (Expr.forall_callSites_child h (by simp [Expr.children, ha]))
      exact ⟨_, g.expr_eq_ok_iff.mpr (.filter he hargs)⟩
  | index e p s ihe ihp =>
      obtain ⟨e', he⟩ := ihe (Expr.forall_callSites_child h (by simp [Expr.children]))
      obtain ⟨p', hp⟩ := ihp (Expr.forall_callSites_child h (by simp [Expr.children]))
      exact ⟨_, g.expr_eq_ok_iff.mpr (.index he hp)⟩
  | member e name s ih =>
      obtain ⟨e', he⟩ := ih (Expr.forall_callSites_child h (by simp [Expr.children]))
      exact ⟨_, g.expr_eq_ok_iff.mpr (.member he)⟩
  | call f args named as s ihf iha ihn =>
      have hargs : ∀ a ∈ args, ∃ e', g.expr a = .ok e' :=
        fun a ha => iha a ha (Expr.forall_callSites_child h (by simp [Expr.children, ha]))
      have hnamed : ∀ a ∈ named, ∃ e', g.expr a.value = .ok e' :=
        fun a ha => ihn a ha (Expr.forall_callSites_child h (Expr.named_mem_children ha))
      cases hc : (Expr.call f args named as s).macroCall? g.table with
      | some c =>
          obtain ⟨nameSpan, heq, -⟩ := Expr.macroCall?_eq_some_iff.mp hc
          obtain ⟨-, rfl, rfl, -, rfl⟩ := Expr.call.inj heq
          obtain ⟨bound, hbound⟩ := exists_bound (h _ (Expr.mem_callSites_of_macroCall? hc))
            (List.forall_mem_append.mpr ⟨hargs, List.forall_mem_map.mpr hnamed⟩)
          exact ⟨_, g.expr_eq_ok_iff.mpr (.invoke hc hbound)⟩
      | none =>
          obtain ⟨f', hf⟩ := ihf (Expr.forall_callSites_child h (by simp [Expr.children]))
          obtain ⟨args', hargs'⟩ := exists_sequence hargs
          obtain ⟨named', hnamed'⟩ :=
            exists_sequence (f := namedArgument ∘ g.namedOutcome) fun a ha => by
              obtain ⟨e', he⟩ := hnamed a ha
              exact ⟨_, Except.bind_eq_ok_iff.mpr ⟨e', he, rfl⟩⟩
          exact ⟨_, g.expr_eq_ok_iff.mpr (.call hc hf hargs' hnamed')⟩

theorem exists_expr? {o : Option Expr}
    (h : ∀ e, o = some e → ∀ c ∈ e.callSites g.table, g.BindsOwn c) : ∃ o', g.expr? o = .ok o' := by
  cases o with
  | none => exact ⟨_, rfl⟩
  | some e =>
      obtain ⟨e', he⟩ := exists_expr e (h e rfl)
      exact ⟨_, Except.bind_eq_ok_iff.mpr ⟨e', he, rfl⟩⟩

/-! ## Nodes -/

end Generator

/-- The lists of nodes that stand in a node directly. -/
def Template.Node.blocks : Node → List (List Node)
  | .branch arms _ => arms.map (·.body)
  | .loop _ _ body otherwise _ => [body, otherwise]
  | .definition d => [d.body]
  | .callBlock _ body _ => [body]
  | _ => []

/-- Literals that the text of a block becomes can be joined. -/
def TextsReach (ns : List Node) : Prop :=
  (ns.filterMap (·.textSpan?)).Pairwise Span.Reaches

namespace Generator

variable {g : Generator}

/-- Nothing that a node holds itself keeps it from being generated. -/
structure Ready (g : Generator) (n : Node) : Prop where
  calls : ∀ c ∈ n.callSites g.table, g.BindsOwn c
  included : ∀ path s, n = .inclusion path s → ∃ program, g.includes.lookup s = some program
  texts : ∀ ns ∈ n.blocks, TextsReach ns

theorem Ready.held {n : Node} (h : g.Ready n) {e : Expr} (he : e ∈ n.held) :
    ∀ c ∈ e.callSites g.table, g.BindsOwn c :=
  fun c hc => h.calls c (Node.mem_callSites_of_held he hc)

theorem exists_macroCall {call : MacroCall} (hcall : g.BindsOwn call)
    (hexprs : ∀ e ∈ call.exprs, ∀ c ∈ e.callSites g.table, g.BindsOwn c) :
    ∃ bound, g.macroCall call = .ok bound :=
  exists_bound hcall fun e he => exists_expr e (hexprs e he)

theorem exists_output {e : Expr} {s : Span} (h : ∀ c ∈ e.callSites g.table, g.BindsOwn c) :
    ∃ o, g.operation? (.output e s) = .ok o := by
  cases hc : e.macroCall? g.table with
  | some call =>
      obtain ⟨hcall, hexprs⟩ := Expr.forall_callSites_macroCall? h hc
      obtain ⟨bound, hbound⟩ := exists_macroCall hcall hexprs
      exact ⟨_, g.operation?_eq_some_iff.mpr (.invoke hc hbound)⟩
  | none =>
      obtain ⟨e', he⟩ := exists_expr e h
      exact ⟨_, g.operation?_eq_some_iff.mpr (.emit hc he)⟩

/-- A node is generated if it is ready and all nodes inside it are. -/
theorem exists_operation? (n : Node) (h : ∀ m ∈ n.walk, g.Ready m) :
    ∃ o, g.operation? n = .ok o := by
  have hself : ∀ {n : Node}, (∀ m ∈ n.walk, g.Ready m) → g.Ready n := by
    intro n h
    rw [Node.walk_eq] at h
    exact h n List.mem_cons_self
  have hchild : ∀ {n m : Node}, (∀ x ∈ n.walk, g.Ready x) → m ∈ n.children →
      ∀ x ∈ m.walk, g.Ready x :=
    fun h hm x hx => h x (Node.mem_walk_of_child hm hx)
  induction n using Node.parts_induction with
  | text value s => exact ⟨_, rfl⟩
  | output e s => exact exists_output ((hself h).held List.mem_cons_self)
  | branch arms s ih =>
      have harm : ∀ a ∈ arms, ∃ a', g.arm a = .ok a' := by
        intro a ha
        obtain ⟨condition, hcondition⟩ := exists_expr? (o := a.condition) fun e he =>
          (hself h).held (List.mem_filterMap.mpr ⟨a, ha, he⟩)
        obtain ⟨ops, hops⟩ := exists_block
          (fun n hn => ih a ha n hn (hchild h (List.mem_flatMap.mpr ⟨a, ha, hn⟩)))
          ((hself h).texts a.body (List.mem_map.mpr ⟨a, ha, rfl⟩))
        exact ⟨⟨condition, ops⟩, by simp only [arm, hcondition, hops]; rfl⟩
      obtain ⟨arms', harms⟩ := exists_sequence harm
      exact ⟨_, g.operation?_eq_some_iff.mpr (.branch harms)⟩
  | loop targets e body otherwise s ihb iho =>
      obtain ⟨e', he⟩ := exists_expr e ((hself h).held List.mem_cons_self)
      obtain ⟨body', hbody⟩ := exists_block
        (fun n hn => ihb n hn (hchild h (List.mem_append_left _ hn)))
        ((hself h).texts body (by simp [Node.blocks]))
      obtain ⟨otherwise', hother⟩ := exists_block
        (fun n hn => iho n hn (hchild h (List.mem_append_right _ hn)))
        ((hself h).texts otherwise (by simp [Node.blocks]))
      exact ⟨_, g.operation?_eq_some_iff.mpr (.loop he hbody hother)⟩
  | definition d ih => exact ⟨_, rfl⟩
  | callBlock call body s ih =>
      have hcall : g.BindsOwn call := (hself h).calls call List.mem_cons_self
      obtain ⟨bound, hbound⟩ := exists_macroCall hcall fun e he => (hself h).held he
      obtain ⟨ops, hops⟩ := exists_block (fun n hn => ih n hn (hchild h hn))
        ((hself h).texts body (by simp [Node.blocks]))
      exact ⟨_, g.operation?_eq_some_iff.mpr (.callBlock hbound hops)⟩
  | inclusion path s =>
      obtain ⟨program, hprogram⟩ := (hself h).included path s rfl
      exact ⟨_, g.operation?_eq_some_iff.mpr (.inclusion hprogram)⟩
  | assignment name e s =>
      obtain ⟨e', he⟩ := exists_expr e ((hself h).held List.mem_cons_self)
      exact ⟨_, g.operation?_eq_some_iff.mpr (.store he)⟩

/-! ## Programs -/

/-- A macro is generated with the node that defines it. -/
theorem exists_macroProgram {d : MacroDef} (h : ∀ m ∈ (Node.definition d).walk, g.Ready m) :
    ∃ m, g.macroProgram d = .ok m := by
  have hself : g.Ready (.definition d) := h _ List.mem_cons_self
  have hparam : ∀ p ∈ d.params, ∃ p', g.param p = .ok p' := by
    intro p hp
    obtain ⟨default, hdefault⟩ := exists_expr? (o := p.default) fun e he =>
      hself.held (List.mem_filterMap.mpr ⟨p, hp, he⟩)
    exact ⟨_, Except.bind_eq_ok_iff.mpr ⟨default, hdefault, rfl⟩⟩
  obtain ⟨params, hparams⟩ := exists_sequence hparam
  obtain ⟨ops, hops⟩ := exists_block
    (fun n hn => exists_operation? n fun m hm => h m (Node.mem_walk_of_child hn hm))
    (hself.texts d.body List.mem_cons_self)
  have hparams' : sequence (d.params.map g.param) = .ok params := sequence_eq_ok_iff.mpr hparams
  refine ⟨⟨d.name, params, ops⟩, ?_⟩
  unfold macroProgram
  exact Except.bind_eq_ok_iff.mpr ⟨params, hparams', Except.bind_eq_ok_iff.mpr ⟨ops, hops, rfl⟩⟩

theorem exists_program {t : Template} {includes : Inclusions} {escaper : String}
    (h : ∀ n ∈ walkAll t.body, (ofTemplate t includes escaper).Ready n) (htexts : TextsReach t.body)
    (unit : String) : ∃ program, (ofTemplate t includes escaper).program t unit = .ok program := by
  have hmacro : ∀ d ∈ t.macroTable.1.definitions,
      ∃ m, (ofTemplate t includes escaper).macroProgram d = .ok m :=
    fun d hd => exists_macroProgram fun m hm =>
      h m (Template.mem_walkAll_trans (t.mem_macroTable hd) hm)
  obtain ⟨macros, hmacros⟩ := exists_sequence hmacro
  obtain ⟨ops, hops⟩ := exists_block
    (fun n hn => exists_operation? n fun m hm => h m (by
      rw [Template.walkAll_eq_flatMap]
      exact List.mem_flatMap.mpr ⟨n, hn, hm⟩)) htexts
  refine ⟨⟨unit, ops, macros⟩, ?_⟩
  unfold Generator.program
  exact Except.bind_eq_ok_iff.mpr
    ⟨macros, sequence_eq_ok_iff.mpr hmacros, Except.bind_eq_ok_iff.mpr ⟨ops, hops, rfl⟩⟩

/-! ## Parsed templates -/

end Generator

theorem Composes.arm_body {ts : List Token} {arms : List (Arm Node)}
    (h : Composes ts (.arms arms)) {a : Arm Node} (ha : a ∈ arms) :
    Composes ts (.nodes a.body) := by
  generalize hx : Piece.arms arms = x at h
  induction h generalizing arms with
  | noArms =>
      obtain rfl := Piece.arms.inj hx
      cases ha
  | arm _ _ hb hs iha _ =>
      obtain rfl := Piece.arms.inj hx
      rcases List.mem_append.mp ha with ha | ha
      · exact (iha ha rfl).mono (sublist_of_left (sublist_of_left hs))
      · obtain rfl := List.mem_singleton.mp ha
        exact hb.mono (sublist_of_right hs)
  | _ => cases hx

theorem Composes.block {ts : List Token} {n : Node} (h : Composes ts (.node n)) {ns : List Node}
    (hns : ns ∈ n.blocks) : Composes ts (.nodes ns) := by
  cases h with
  | branch ha =>
      obtain ⟨a, hmem, rfl⟩ := List.mem_map.mp hns
      exact ha.arm_body hmem
  | loop _ hb ho hs =>
      rcases List.mem_cons.mp hns with rfl | hns
      · exact hb.mono (sublist_of_middle hs)
      · obtain rfl := List.mem_singleton.mp hns
        exact ho.mono (sublist_of_right hs)
  | definition _ hb hs | callBlock _ hb hs =>
      obtain rfl := List.mem_singleton.mp hns
      exact hb.mono (sublist_of_right hs)
  | _ => cases hns

theorem Composes.textsReach {ts : List Token} {ns : List Node} (h : Composes ts (.nodes ns))
    (hts : Token.InOrder ts) : TextsReach ns :=
  hts.reaches.sublist h.texts_sublist

namespace Generator

section

variable {setting : Parser.Setting} {delimiters : Delimiters} {source : String} {parsed : Parsed}

/-- A call that binds has its own binding, and becomes what becomes of that. -/
theorem bindsOwn_of_bind (h : parse setting delimiters source = .ok parsed)
    (includes : Inclusions) (escaper : String) {call : MacroCall}
    (hcall : call ∈ parsed.template.callSites parsed.template.macroTable.1) {b : BoundCall Expr}
    (hb : bind parsed.template.macroTable.1 call = .ok b) :
    (ofTemplate parsed.template includes escaper).BindsOwn call ∧
      (ofTemplate parsed.template includes escaper).macroCall call =
        (ofTemplate parsed.template includes escaper).boundCall b := by
  have hrules : BindsByRules parsed.template.macroTable.1 call :=
    bindsByRules_of_nodup fun d hd =>
      (parse_composes h).params_nodup (MacroTable.lookup?_some hd).1
  obtain ⟨d, hd, hname, hreceived, -⟩ := hrules.receives b hb
  have hlookup := bindAll_lookup (parse_spans_nodup h parsed.template.macroTable.1) hcall hb
  exact ⟨⟨b, d, hlookup, hd, hname, hreceived⟩, bound_eq hlookup hreceived⟩

/-- If no call has a problem, every call has its own binding. -/
theorem bindsOwn_of_parse (h : parse setting delimiters source = .ok parsed)
    (hproblems : (bindAll parsed.template parsed.template.macroTable.1).2 = [])
    (includes : Inclusions) (escaper : String) {call : MacroCall}
    (hcall : call ∈ parsed.template.callSites parsed.template.macroTable.1) :
    (ofTemplate parsed.template includes escaper).BindsOwn call := by
  have hspans := parse_spans_nodup h parsed.template.macroTable.1
  obtain ⟨b, hb⟩ := bind_ok_of_bindAll hspans hproblems hcall
  exact (bindsOwn_of_bind h includes escaper hcall hb).1

/-- A parsed template is generated once its calls bind and its includes have programs. -/
theorem exists_program_of_parse (h : parse setting delimiters source = .ok parsed)
    (hproblems : (bindAll parsed.template parsed.template.macroTable.1).2 = [])
    {includes : Inclusions}
    (hincluded : ∀ path s, .inclusion path s ∈ walkAll parsed.template.body →
      ∃ program, includes.lookup s = some program) (escaper unit : String) :
    ∃ program,
      (ofTemplate parsed.template includes escaper).program parsed.template unit = .ok program := by
  have hcomposes := parse_composes h
  have horder := tokenize_inOrder source setting.unit delimiters
  refine exists_program (fun n hn => ⟨fun c hc => ?_, ?_, fun ns hns => ?_⟩)
    (hcomposes.textsReach horder) unit
  · exact bindsOwn_of_parse h hproblems includes escaper (List.mem_flatMap.mpr ⟨n, hn, hc⟩)
  · rintro path s rfl
    exact hincluded path s hn
  · rcases hcomposes.of_mem_walk hn with ⟨value, s, rfl⟩ | hnode
    · cases hns
    · exact (hnode.block hns).textsReach horder

end

end Generator

end TemplateCompiler
