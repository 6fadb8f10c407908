import TemplateCompiler.Proofs.GeneratedIncludes
import TemplateCompiler.Proofs.JoinedTexts
import TemplateCompiler.Proofs.Respanned

/-!
# What is found in a joined template

How the texts of a template are cut is of no matter to its macros, to its calls and to its include
tags, and their spans are of none either. So templates that are the same, joined and bare, have the
same of each, up to spans: calls that bind to the same and problems about the same.
-/

namespace TemplateCompiler

open Template (Expr Node walkAll)

namespace Template

/-! ## Bare trees have other spans -/

theorem bareExprs_eq_map (es : List Expr) : bareExprs es = es.map Expr.bare := by
  induction es with
  | nil => rfl
  | cons e es ih => rw [bareExprs, ih, List.map_cons]

theorem bareNodes_eq_map (ns : List Node) : bareNodes ns = ns.map Node.bare := by
  induction ns with
  | nil => rfl
  | cons n ns ih => rw [bareNodes, ih, List.map_cons]

theorem Expr.bare_eq_respan (e : Expr) : e.bare = e.respan fun _ => .blank := by
  have hlist : ∀ {es : List Expr}, (∀ e ∈ es, e.bare = e.respan fun _ => .blank) →
      bareExprs es = es.map (Expr.respan fun _ => .blank) := by
    intro es h
    rw [bareExprs_eq_map, List.map_congr_left h]
  induction e using Expr.parts_induction with
  | literal value s => rw [bare, respan]
  | var name s => rw [bare, respan]
  | binary op l r s ihl ihr => rw [bare, respan, ihl, ihr]
  | unary op e s ih => rw [bare, respan, ih]
  | filter name e args s ihe iha => rw [bare, respan, ihe, hlist iha]
  | index e p s ihe ihp => rw [bare, respan, ihe, ihp]
  | member e name s ih => rw [bare, respan, ih]
  | call f args named as s ihf iha ihn =>
      have hnamed : bareNamed named =
          named.map fun a => ⟨a.name, a.value.respan fun _ => .blank, .blank, .blank⟩ := by
        clear iha
        induction named with
        | nil => rfl
        | cons a named ih =>
            obtain ⟨ha, hnamed⟩ := List.forall_mem_cons.mp ihn
            rw [bareNamed, ih hnamed, ha, List.map_cons]
      rw [bare, respan, ihf, hlist iha, hnamed]

theorem bareNamed_eq_map (as : List (NamedArgument Expr)) :
    bareNamed as = as.map (NamedArgument.respan fun _ => .blank) := by
  induction as with
  | nil => rfl
  | cons a as ih => rw [bareNamed, ih, List.map_cons, Expr.bare_eq_respan]; rfl

end Template

theorem Parameter.bare_eq_respan (p : Parameter Expr) : p.bare = p.respan fun _ => .blank := by
  rw [bare, funext Expr.bare_eq_respan]
  rfl

theorem MacroCall.bare_eq_respan (c : MacroCall) : c.bare = c.respan fun _ => .blank := by
  rw [bare, Template.bareExprs_eq_map, Template.bareNamed_eq_map, funext Expr.bare_eq_respan]
  rfl

namespace Template

theorem Node.bare_eq_respan (n : Node) : n.bare = n.respan fun _ => .blank := by
  have hlist : ∀ {ns : List Node}, (∀ n ∈ ns, n.bare = n.respan fun _ => .blank) →
      bareNodes ns = ns.map (Node.respan fun _ => .blank) := by
    intro ns h
    rw [bareNodes_eq_map, List.map_congr_left h]
  induction n using Node.parts_induction with
  | text value s => rw [bare, respan]
  | output e s => rw [bare, respan, Expr.bare_eq_respan]
  | branch arms s ih =>
      have harms : bareArms arms = arms.map (Arm.respan fun _ => .blank) := by
        induction arms with
        | nil => rfl
        | cons a arms iha =>
            obtain ⟨ha, harms⟩ := List.forall_mem_cons.mp ih
            rw [bareArms, iha harms, hlist ha, funext Expr.bare_eq_respan]
            rfl
      rw [bare, respan_branch, harms]
  | loop targets e body otherwise s ihb iho =>
      rw [bare, respan, Expr.bare_eq_respan, hlist ihb, hlist iho]
  | definition d ih =>
      rw [bare, respan_definition, hlist ih, funext Parameter.bare_eq_respan]
      rfl
  | callBlock call body s ih => rw [bare, respan, MacroCall.bare_eq_respan, hlist ih]
  | inclusion path s => rw [bare, respan]
  | assignment name e s => rw [bare, respan, Expr.bare_eq_respan]

theorem bare_eq_respan (t : Template) : t.bare = t.respan fun _ => .blank := by
  rw [bare, bareNodes_eq_map, funext Node.bare_eq_respan]
  rfl

/-! ## Walking through joined nodes -/

theorem joinedArms_eq_map (as : List (Arm Node)) :
    joinedArms as = as.map fun a => { a with body := joinedNodes a.body } := by
  induction as with
  | nil => rfl
  | cons a as ih => rw [joinedArms, ih, List.map_cons]

section

variable {α β : Type} {found : Node → List α} {found' : Node → List β} {k : α → β}

/-- Nothing is lost that is not found in texts. -/
theorem flatMap_walkAll_attach (htext : ∀ value s, found (.text value s) = []) (n : Node)
    (ns : List Node) : (walkAll (attach n ns)).flatMap found =
      n.walk.flatMap found ++ (walkAll ns).flatMap found := by
  unfold attach
  split
  · simp [walkAll, Node.walk, htext]
  · rw [walkAll, List.flatMap_append]

/-- What is found in the nodes of a joined list, of each of which the joined node has the same. -/
theorem flatMap_walkAll_joined (htext : ∀ value s, found' (.text value s) = [])
    (h : ∀ n, found' n.joined = (found n).map k) (ns : List Node) :
    (walkAll (joinedNodes ns)).flatMap found' = ((walkAll ns).flatMap found).map k := by
  have hlist : ∀ {ns : List Node},
      (∀ n ∈ ns, n.joined.walk.flatMap found' = (n.walk.flatMap found).map k) →
      (walkAll (joinedNodes ns)).flatMap found' = ((walkAll ns).flatMap found).map k := by
    intro ns hns
    induction ns with
    | nil => rfl
    | cons n ns ih =>
        obtain ⟨hn, hns⟩ := List.forall_mem_cons.mp hns
        rw [joinedNodes, flatMap_walkAll_attach htext, hn, ih hns, walkAll, List.flatMap_append,
          List.map_append]
  have hnode : ∀ {n : Node} {inner inner' : List Node}, n.walk = n :: inner →
      n.joined.walk = n.joined :: inner' → inner'.flatMap found' = (inner.flatMap found).map k →
      n.joined.walk.flatMap found' = (n.walk.flatMap found).map k := by
    intro n inner inner' hn hn' hinner
    rw [hn, hn', List.flatMap_cons, List.flatMap_cons, List.map_append, h, hinner]
  refine hlist fun n hn => ?_
  clear hn
  induction n using Node.parts_induction with
  | branch arms s ih =>
      refine hnode (by rw [Node.walk]) (by rw [Node.joined, Node.walk]) ?_
      induction arms with
      | nil => rfl
      | cons a arms iha =>
          obtain ⟨ha, harms⟩ := List.forall_mem_cons.mp ih
          rw [joinedArms, walkArms, walkArms, List.flatMap_append, List.flatMap_append,
            List.map_append, hlist ha, iha harms]
  | loop targets e body otherwise s ihb iho =>
      refine hnode (by rw [Node.walk]) (by rw [Node.joined, Node.walk]) ?_
      rw [List.flatMap_append, List.flatMap_append, List.map_append, hlist ihb, hlist iho]
  | definition d ih => exact hnode (by rw [Node.walk]) (by rw [Node.joined, Node.walk]) (hlist ih)
  | callBlock call body s ih =>
      exact hnode (by rw [Node.walk]) (by rw [Node.joined, Node.walk]) (hlist ih)
  | _ => exact hnode (by rw [Node.walk]) (by rw [Node.joined, Node.walk]) rfl

end

end Template

/-! ## What is found in joined templates -/

def MacroDefinition.joined (d : MacroDef) : MacroDef :=
  { d with body := Template.joinedNodes d.body }

theorem MacroDefinition.name_joined (d : MacroDef) : (joined d).name = d.name :=
  rfl

def MacroTable.joined (table : MacroTable) : MacroTable :=
  table.map MacroDefinition.joined

theorem MacroTable.contains_joined (table : MacroTable) (name : String) :
    table.joined.contains name = table.contains name :=
  table.contains_map MacroDefinition.name_joined name

namespace Template

theorem definitions_joined (t : Template) :
    t.joined.definitions = t.definitions.map MacroDefinition.joined := by
  rw [definitions, definitions, List.filterMap_eq_flatMap_toList, List.filterMap_eq_flatMap_toList]
  refine flatMap_walkAll_joined (fun value s => rfl) (fun n => ?_) t.body
  cases n <;> rfl

theorem macroTable_joined (t : Template) : t.joined.macroTable.1 = t.macroTable.1.joined := by
  rw [macroTable, definitions_joined]
  exact MacroTable.defineAll_map MacroDefinition.name_joined t.definitions {}

theorem Node.exprs_joined (n : Node) : n.joined.exprs = n.exprs := by
  cases n with
  | branch arms s =>
      rw [joined, joinedArms_eq_map, exprs, exprs, List.filterMap_map]
      rfl
  | _ => rfl

theorem Expr.callSites_joined (table : MacroTable) (e : Expr) :
    e.callSites table.joined = e.callSites table := by
  rw [callSites, callSites]
  congr 1
  funext e
  cases e with
  | call func args named argsSpan s =>
      cases func <;> simp only [macroCall?, MacroTable.contains_joined]
  | _ => rfl

theorem Node.callSites_joined (table : MacroTable) (n : Node) :
    n.joined.callSites table.joined = n.callSites table := by
  have hexprs := n.exprs_joined
  cases n with
  | callBlock call body s =>
      rw [joined, callSites, callSites, funext (Expr.callSites_joined table)]
  | _ =>
      rw [joined] at hexprs ⊢
      rw [callSites, callSites, hexprs, funext (Expr.callSites_joined table)]
      all_goals rintro _ _ _ ⟨⟩

theorem callSites_joined (table : MacroTable) (t : Template) :
    t.joined.callSites table.joined = t.callSites table := by
  rw [callSites, callSites, ← List.map_id ((walkAll t.body).flatMap _)]
  refine flatMap_walkAll_joined (fun value s => rfl) (fun n => ?_) t.body
  rw [List.map_id, Node.callSites_joined]

end Template

theorem Compiler.includeTags_joined (t : Template) : includeTags t.joined = includeTags t := by
  rw [includeTags_eq, includeTags_eq, List.filterMap_eq_flatMap_toList,
    List.filterMap_eq_flatMap_toList, ← List.map_id ((walkAll t.body).flatMap _)]
  refine Template.flatMap_walkAll_joined (fun value s => rfl) (fun n => ?_) t.body
  cases n <;> rfl

theorem bind_joined (table : MacroTable) (call : MacroCall) :
    bind table.joined call = bind table call := by
  rw [bind, bind, MacroTable.joined, MacroTable.lookup?_map MacroDefinition.name_joined]
  cases table.lookup? call.name <;> rfl

theorem bindAll_problems_joined (t : Template) :
    (bindAll t.joined t.joined.macroTable.1).2 = (bindAll t t.macroTable.1).2 := by
  rw [bindAll, bindAll, bindCalls_problems, bindCalls_problems, Template.macroTable_joined,
    Template.callSites_joined]
  congr 1
  funext call
  rw [problem?, problem?, bind_joined]

/-! ## Templates that are the same, joined and bare -/

/-- A table without spans, the texts of whose macros are joined. -/
def MacroTable.core (table : MacroTable) : MacroTable :=
  (table.respan fun _ => .blank).joined

section

variable {t t' : Template} (h : t'.bare.joined = t.bare.joined)

include h

theorem macroTable_core_eq : t'.macroTable.1.core = t.macroTable.1.core := by
  have hcore : ∀ t : Template, t.macroTable.1.core = t.bare.joined.macroTable.1 := fun t => by
    rw [Template.macroTable_joined, Template.bare_eq_respan, Template.macroTable_respan]
    rfl
  rw [hcore, hcore, h]

theorem includeTags_eq_nil_of_joined (htags : Compiler.includeTags t = []) :
    Compiler.includeTags t' = [] := by
  have hbare : ∀ t : Template, Compiler.includeTags t.bare.joined =
      (Compiler.includeTags t).map fun tag => (tag.1, .blank) := fun t => by
    rw [Compiler.includeTags_joined, Template.bare_eq_respan, Compiler.includeTags_respan]
  have heq := hbare t'
  rw [h, hbare, htags] at heq
  exact List.map_eq_nil_iff.mp heq.symm

theorem bindAll_problems_of_joined :
    (bindAll t' t'.macroTable.1).2.map (·.problem) =
      (bindAll t t.macroTable.1).2.map (·.problem) := by
  have hbare : ∀ t : Template,
      (bindAll t.bare.joined t.bare.joined.macroTable.1).2.map (·.problem) =
        (bindAll t t.macroTable.1).2.map (·.problem) := fun t => by
    rw [bindAll_problems_joined, Template.bare_eq_respan, bindAll_problems_respan, List.map_map]
    rfl
  rw [← hbare, h, hbare]

end

end TemplateCompiler
