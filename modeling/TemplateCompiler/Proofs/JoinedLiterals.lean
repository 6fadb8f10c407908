import TemplateCompiler.Proofs.GenerationTotal

/-!
# Literals are joined in order

Generation can fail for a call that is not bound or an include that has no program, but whatever
calls and includes it is given, the spans of the literals that it joins stand in the order of the
source. Only the text of one block is joined, so it is enough that the texts of each block stand in
order (`TextsReach`), and in a parsed template they do.
-/

namespace TemplateCompiler

open Template (Expr Node walkAll)

namespace Generator

variable {α β : Type} {g : Generator}

/-- Whatever makes an outcome fail, it is not a span that would end before its start. -/
def Outcome.KeepsOrder (x : Outcome α) : Prop :=
  ∀ r, x ≠ .error (.reversed r)

namespace Outcome.KeepsOrder

theorem ok (a : α) : KeepsOrder (.ok a) := nofun

theorem bind {x : Outcome α} {f : α → Outcome β} (hx : x.KeepsOrder)
    (hf : ∀ a, x = .ok a → (f a).KeepsOrder) : (x >>= f).KeepsOrder := by
  cases x with
  | ok a => exact hf a rfl
  | error e =>
      rintro r ⟨⟩
      exact hx r rfl

theorem sequence {xs : List (Outcome α)} (h : ∀ x ∈ xs, x.KeepsOrder) :
    (sequence xs).KeepsOrder := by
  induction xs with
  | nil => exact .ok []
  | cons x xs ih =>
      obtain ⟨hx, hxs⟩ := List.forall_mem_cons.mp h
      exact hx.bind fun a _ => (ih hxs).bind fun as _ => .ok (a :: as)

end Outcome.KeepsOrder

/-! ## Expressions -/

theorem refill_keepsOrder (name : String) (bound : List (BoundArgument Expr))
    (args : List (Outcome Program.Expr)) (named : List (NamedArgument (Outcome Program.Expr)))
    (hargs : ∀ a ∈ args, a.KeepsOrder) (hnamed : ∀ a ∈ named, a.value.KeepsOrder) :
    (refill name bound args named).KeepsOrder := by
  induction bound generalizing args with
  | nil => exact .ok []
  | cons b bound ih =>
      cases b with
      | default p value => exact (ih args hargs).bind fun rest _ => .ok _
      | given p value =>
          cases args with
          | cons arg args =>
              obtain ⟨harg, hargs⟩ := List.forall_mem_cons.mp hargs
              exact harg.bind fun value _ => (ih args hargs).bind fun rest _ => .ok _
          | nil =>
              rw [refill]
              split
              · rintro _ ⟨⟩
              · next arg hfind =>
                  refine (hnamed arg (List.mem_of_find?_eq_some hfind)).bind fun value _ => ?_
                  exact (ih [] hargs).bind fun rest _ => .ok _

theorem bound_keepsOrder (name : String) (span : Span) {args : List Expr}
    {named : List (NamedArgument Expr)} (hargs : ∀ a ∈ args, (g.expr a).KeepsOrder)
    (hnamed : ∀ a ∈ named, (g.expr a.value).KeepsOrder) :
    (g.bound name span (g.exprs args) (g.named named)).KeepsOrder := by
  unfold bound
  rw [exprs_eq_map, named_eq_map]
  split
  · nofun
  · refine (refill_keepsOrder name _ _ _ ?_ ?_).bind fun filled _ => .ok _
    · exact List.forall_mem_map.mpr hargs
    · exact List.forall_mem_map.mpr hnamed

theorem expr_keepsOrder (g : Generator) (e : Expr) : (g.expr e).KeepsOrder := by
  induction e using Expr.parts_induction with
  | literal value s => exact .ok _
  | var name s => exact .ok _
  | binary op l r s ihl ihr => exact ihl.bind fun _ _ => ihr.bind fun _ _ => .ok _
  | unary op e s ih => exact ih.bind fun _ _ => .ok _
  | filter name e args s ihe iha =>
      rw [expr, exprs_eq_map]
      refine ihe.bind fun _ _ => (Outcome.KeepsOrder.sequence ?_).bind fun _ _ => .ok _
      exact List.forall_mem_map.mpr iha
  | index e p s ihe ihp => exact ihe.bind fun _ _ => ihp.bind fun _ _ => .ok _
  | member e name s ih => exact ih.bind fun _ _ => .ok _
  | call f args named as s ihf iha ihn =>
      rw [expr]
      split
      · exact (bound_keepsOrder _ _ iha ihn).bind fun _ _ => .ok _
      · rw [exprs_eq_map, named_eq_map]
        refine ihf.bind fun _ _ => (Outcome.KeepsOrder.sequence ?_).bind fun _ _ => ?_
        · exact List.forall_mem_map.mpr iha
        · refine (Outcome.KeepsOrder.sequence ?_).bind fun _ _ => .ok _
          rw [List.map_map]
          exact List.forall_mem_map.mpr fun a ha => (ihn a ha).bind fun _ _ => .ok _

theorem expr?_keepsOrder (g : Generator) (o : Option Expr) : (g.expr? o).KeepsOrder := by
  cases o with
  | none => exact .ok _
  | some e => exact (g.expr_keepsOrder e).bind fun _ _ => .ok _

theorem macroCall_keepsOrder (g : Generator) (call : MacroCall) : (g.macroCall call).KeepsOrder :=
  bound_keepsOrder _ _ (fun a _ => g.expr_keepsOrder a) fun a _ => g.expr_keepsOrder a.value

theorem output_keepsOrder (g : Generator) (e : Expr) (span : Span) :
    (g.output e span).KeepsOrder := by
  unfold output
  split
  · exact (g.macroCall_keepsOrder _).bind fun _ _ => .ok _
  · exact (g.expr_keepsOrder e).bind fun _ _ => .ok _

/-! ## Nodes -/

/-- A block whose text stands in order is joined in order. -/
theorem block_keepsOrder {ns : List Node} (h : ∀ n ∈ ns, (g.operation? n).KeepsOrder)
    (htexts : TextsReach ns) : (g.block ns).KeepsOrder := by
  have hoperations : (g.operations ns).KeepsOrder := by
    clear htexts
    induction ns with
    | nil => exact .ok []
    | cons n ns ih =>
        obtain ⟨hn, hns⟩ := List.forall_mem_cons.mp h
        exact hn.bind fun _ _ => (ih hns).bind fun _ _ => .ok _
  refine hoperations.bind fun ops hops => ?_
  obtain ⟨os, hos, rfl⟩ := g.operations_eq_ok_iff.mp hops
  obtain ⟨joined, hjoined⟩ := exists_joinLiterals none _ (htexts.sublist (literals_sublist hos))
  rw [hjoined]
  exact .ok joined

/-- A step that goes on with a block whose parts are taken apart. -/
theorem Outcome.KeepsOrder.bind_block {ns : List Node} {f : List Program.Operation → Outcome β}
    (hblock : (g.block ns).KeepsOrder) (hf : ∀ ops, (f ops).KeepsOrder) :
    Outcome.KeepsOrder (do f (← joinLiterals none (← g.operations ns))) := by
  have hboth := hblock.bind fun ops _ => hf ops
  rwa [block, bind_assoc] at hboth

theorem operation?_keepsOrder (n : Node) (h : ∀ m ∈ n.walk, ∀ ns ∈ m.blocks, TextsReach ns) :
    (g.operation? n).KeepsOrder := by
  have hself : ∀ {n : Node}, (∀ m ∈ n.walk, ∀ ns ∈ m.blocks, TextsReach ns) →
      ∀ ns ∈ n.blocks, TextsReach ns := by
    intro n h
    rw [Node.walk_eq] at h
    exact h n List.mem_cons_self
  have hchild : ∀ {n m : Node}, (∀ x ∈ n.walk, ∀ ns ∈ x.blocks, TextsReach ns) → m ∈ n.children →
      ∀ x ∈ m.walk, ∀ ns ∈ x.blocks, TextsReach ns :=
    fun h hm x hx => h x (Node.mem_walk_of_child hm hx)
  induction n using Node.parts_induction with
  | text value s => exact .ok _
  | output e s => exact (g.output_keepsOrder e s).bind fun _ _ => .ok _
  | branch arms s ih =>
      rw [operation?, arms_eq_sequence]
      refine (Outcome.KeepsOrder.sequence ?_).bind fun _ _ => .ok _
      refine List.forall_mem_map.mpr fun a ha => ?_
      have hbody : (g.block a.body).KeepsOrder := block_keepsOrder
        (fun n hn => ih a ha n hn (hchild h (List.mem_flatMap.mpr ⟨a, ha, hn⟩)))
        (hself h a.body (List.mem_map.mpr ⟨a, ha, rfl⟩))
      exact (g.expr?_keepsOrder a.condition).bind fun _ _ => hbody.bind fun _ _ => .ok _
  | loop targets e body otherwise s ihb iho =>
      have hbody : (g.block body).KeepsOrder := block_keepsOrder
        (fun n hn => ihb n hn (hchild h (List.mem_append_left _ hn)))
        (hself h body (by simp [Node.blocks]))
      have hotherwise : (g.block otherwise).KeepsOrder := block_keepsOrder
        (fun n hn => iho n hn (hchild h (List.mem_append_right _ hn)))
        (hself h otherwise (by simp [Node.blocks]))
      rw [operation?]
      exact (g.expr_keepsOrder e).bind fun _ _ => hbody.bind_block fun _ =>
        hotherwise.bind_block fun _ => .ok _
  | definition d ih => exact .ok _
  | callBlock call body s ih =>
      have hbody : (g.block body).KeepsOrder := block_keepsOrder
        (fun n hn => ih n hn (hchild h hn)) (hself h body (by simp [Node.blocks]))
      rw [operation?]
      exact (g.macroCall_keepsOrder call).bind fun _ _ => hbody.bind_block fun _ => .ok _
  | inclusion path s =>
      rw [operation?]
      split
      · rintro _ ⟨⟩
      · exact .ok _
  | assignment name e s => exact (g.expr_keepsOrder e).bind fun _ _ => .ok _

/-! ## Programs -/

theorem macroProgram_keepsOrder {d : MacroDef}
    (h : ∀ m ∈ (Node.definition d).walk, ∀ ns ∈ m.blocks, TextsReach ns) :
    (g.macroProgram d).KeepsOrder := by
  refine (Outcome.KeepsOrder.sequence ?_).bind fun _ _ => ?_
  · exact List.forall_mem_map.mpr fun p _ => (g.expr?_keepsOrder p.default).bind fun _ _ => .ok _
  · refine (block_keepsOrder (fun n hn => operation?_keepsOrder n fun m hm => ?_) ?_).bind
      fun _ _ => .ok _
    · exact h m (Node.mem_walk_of_child hn hm)
    · exact h _ List.mem_cons_self d.body List.mem_cons_self

/-- Of a parsed template and its macros, whatever the calls are bound to and the includes lead
to. -/
theorem program_keepsOrder {setting : Parser.Setting} {delimiters : Delimiters} {source : String}
    {parsed : Parsed} (hparse : parse setting delimiters source = .ok parsed) {g : Generator}
    (htable : g.table = parsed.template.macroTable.1) (unit : String) :
    (g.program parsed.template unit).KeepsOrder := by
  have hcomposes := parse_composes hparse
  have horder := tokenize_inOrder source setting.unit delimiters
  have htexts : ∀ n ∈ walkAll parsed.template.body, ∀ ns ∈ n.blocks, TextsReach ns := by
    intro n hn ns hns
    rcases hcomposes.of_mem_walk hn with ⟨value, s, rfl⟩ | hnode
    · cases hns
    · exact (hnode.block hns).textsReach horder
  refine (Outcome.KeepsOrder.sequence ?_).bind fun _ _ =>
    (block_keepsOrder ?_ (hcomposes.textsReach horder)).bind fun _ _ => .ok _
  · rw [htable]
    refine List.forall_mem_map.mpr fun d hd => macroProgram_keepsOrder fun m hm => ?_
    exact htexts m (Template.mem_walkAll_trans (parsed.template.mem_macroTable hd) hm)
  · refine fun n hn => operation?_keepsOrder n fun m hm => htexts m ?_
    rw [Template.walkAll_eq_flatMap]
    exact List.mem_flatMap.mpr ⟨n, hn, hm⟩

end Generator

end TemplateCompiler
