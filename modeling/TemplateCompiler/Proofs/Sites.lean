import Mathlib.Data.Option.Basic
import TemplateCompiler.Macro.Table
import TemplateCompiler.Proofs.Places

/-!
# Where the macro calls of a template stand

A macro call is the call of a call block, or a call expression whose callee is the name of a macro.
The latter may stand at any depth in an expression that a node holds: an output, a condition, an
iterable, a stored value, the default of a parameter, or an argument of a call block.

`SiteAt` says which call stands where, without a traversal, and `callSites` enumerates it.
-/

namespace TemplateCompiler

namespace Template

/-! ## Expressions of a node -/

/-- What a node uses an expression for. -/
inductive Slot where
  | output
  | condition (arm : Nat)
  | iterable
  | stored
  | default (param : Nat)
  | argument (index : Nat)
  | named (index : Nat)

inductive Node.Holds : Node → Slot → Expr → Prop
  | output {e s} : Holds (.output e s) .output e
  | condition {arms s i arm e} (ha : arms[i]? = some arm) (he : arm.condition = some e) :
      Holds (.branch arms s) (.condition i) e
  | iterable {targets e body otherwise s} : Holds (.loop targets e body otherwise s) .iterable e
  | stored {name e s} : Holds (.assignment name e s) .stored e
  | default {d i p e} (hp : d.params[i]? = some p) (he : p.default = some e) :
      Holds (.definition d) (.default i) e
  | argument {call body s i e} (he : call.args[i]? = some e) :
      Holds (.callBlock call body s) (.argument i) e
  | named {call body s i a} (ha : call.named[i]? = some a) :
      Holds (.callBlock call body s) (.named i) a.value

/-- The expressions that a node holds itself, with those of the call of a call block. -/
def Node.held : Node → List Expr
  | .callBlock call _ _ => call.exprs
  | n => n.exprs

theorem Node.held_enumerates (n : Node) : Enumerates n.held n.Holds := by
  match n with
  | .text _ _ | .inclusion _ _ => exact Enumerates.nil.congr fun q x => ⟨nofun, nofun⟩
  | .output e s =>
      refine (Enumerates.singleton .output e).congr fun q x => ⟨?_, ?_⟩
      · rintro ⟨rfl, rfl⟩
        exact .output
      · rintro ⟨⟩
        exact ⟨rfl, rfl⟩
  | .branch arms s =>
      have harms := ((Enumerates.indexed arms).filterMap (·.condition)).relabel
        (f := Slot.condition) fun _ _ h => by injection h
      refine harms.congr fun q x => ⟨?_, ?_⟩
      · rintro ⟨i, rfl, arm, ha, he⟩
        exact .condition ha he
      · intro h
        cases h with
        | condition ha he => exact ⟨_, rfl, _, ha, he⟩
  | .loop targets e body otherwise s =>
      refine (Enumerates.singleton .iterable e).congr fun q x => ⟨?_, ?_⟩
      · rintro ⟨rfl, rfl⟩
        exact .iterable
      · rintro ⟨⟩
        exact ⟨rfl, rfl⟩
  | .assignment name e s =>
      refine (Enumerates.singleton .stored e).congr fun q x => ⟨?_, ?_⟩
      · rintro ⟨rfl, rfl⟩
        exact .stored
      · rintro ⟨⟩
        exact ⟨rfl, rfl⟩
  | .definition d =>
      have hparams := ((Enumerates.indexed d.params).filterMap (·.default)).relabel
        (f := Slot.default) fun _ _ h => by injection h
      refine hparams.congr fun q x => ⟨?_, ?_⟩
      · rintro ⟨i, rfl, p, hp, he⟩
        exact .default hp he
      · intro h
        cases h with
        | default hp he => exact ⟨_, rfl, _, hp, he⟩
  | .callBlock call body s =>
      have hargs := (Enumerates.indexed call.args).relabel
        (f := Slot.argument) fun _ _ h => by injection h
      have hnamed := ((Enumerates.indexed call.named).map (·.value)).relabel
        (f := Slot.named) fun _ _ h => by injection h
      refine (hargs.append hnamed ?_).congr fun q x => ?_
      · rintro q x y ⟨i, rfl, -⟩ ⟨j, hq, -⟩
        cases hq
      · constructor
        · rintro (⟨i, rfl, hi⟩ | ⟨i, rfl, a, hi, rfl⟩)
          · exact .argument hi
          · exact .named hi
        · intro h
          cases h with
          | argument hi => exact .inl ⟨_, rfl, hi⟩
          | named hi => exact .inr ⟨_, rfl, _, hi, rfl⟩

/-! ## Sites -/

/-- The path of a node, and unless the call is that of a call block, the expression of the node and
the path in it. -/
abbrev SitePlace := List Node.Step × Option (Slot × List Expr.Step)

end Template

open Template

inductive Template.SiteAt (t : Template) (table : MacroTable) : SitePlace → MacroCall → Prop
  | block {path call body s} (hn : t.NodeAt path (.callBlock call body s)) :
      SiteAt t table (path, none) call
  | expr {path n slot e steps name nameSpan args named argsSpan span} (hn : t.NodeAt path n)
      (he : n.Holds slot e)
      (hx : Stands Expr.Part e steps (.call (.var name nameSpan) args named argsSpan span))
      (hname : table.contains name) :
      SiteAt t table (path, some (slot, steps)) ⟨name, args, named, argsSpan, span⟩

namespace Template

variable {table : MacroTable}

theorem Expr.macroCall?_eq_some_iff {e : Expr} {c : MacroCall} :
    e.macroCall? table = some c ↔
      ∃ nameSpan, e = .call (.var c.name nameSpan) c.args c.named c.argsSpan c.span ∧
        table.contains c.name := by
  obtain ⟨name, args, named, argsSpan, span⟩ := c
  unfold macroCall?
  split
  · split
    · next hname =>
        simp only [Option.some.injEq, MacroCall.mk.injEq]
        constructor
        · rintro ⟨rfl, rfl, rfl, rfl, rfl⟩
          exact ⟨_, rfl, hname⟩
        · rintro ⟨nameSpan, ⟨⟩, -⟩
          exact ⟨rfl, rfl, rfl, rfl, rfl⟩
    · next hname =>
        refine ⟨nofun, ?_⟩
        rintro ⟨nameSpan, ⟨⟩, hcontains⟩
        exact absurd hcontains hname
  · next h =>
      refine ⟨nofun, ?_⟩
      rintro ⟨nameSpan, rfl, -⟩
      exact absurd rfl (h _ _ _ _ _ _)

theorem Expr.callSites_eq (e : Expr) :
    e.callSites table =
      (e.macroCall? table).toList ++ e.children.flatMap (·.callSites table) := by
  rw [callSites, walk_eq, List.filterMap_cons, List.filterMap_flatMap]
  cases e.macroCall? table <;> rfl

theorem Expr.mem_callSites_of_macroCall? {e : Expr} {c : MacroCall}
    (h : e.macroCall? table = some c) : c ∈ e.callSites table := by
  rw [callSites_eq, h]
  exact List.mem_cons_self

theorem Expr.mem_callSites_of_child {e x : Expr} {c : MacroCall} (hx : x ∈ e.children)
    (hc : c ∈ x.callSites table) : c ∈ e.callSites table := by
  rw [callSites_eq]
  exact List.mem_append_right _ (List.mem_flatMap.mpr ⟨x, hx, hc⟩)

theorem Expr.named_mem_children {func : Expr} {args : List Expr}
    {named : List (NamedArgument Expr)} {argsSpan span : Span} {a : NamedArgument Expr}
    (ha : a ∈ named) : a.value ∈ (Expr.call func args named argsSpan span).children :=
  List.mem_cons_of_mem _ (List.mem_append_right _ (List.mem_map.mpr ⟨a, ha, rfl⟩))

section

variable {P : MacroCall → Prop} {e : Expr} (h : ∀ c ∈ e.callSites table, P c)

include h

/-- What holds of all calls in an expression holds of those in its parts. -/
theorem Expr.forall_callSites_child {x : Expr} (hx : x ∈ e.children) :
    ∀ c ∈ x.callSites table, P c :=
  fun c hc => h c (mem_callSites_of_child hx hc)

/-- It holds of the call that the expression is, and of those among its arguments. -/
theorem Expr.forall_callSites_macroCall? {call : MacroCall} (hc : e.macroCall? table = some call) :
    P call ∧ ∀ x ∈ call.exprs, ∀ c ∈ x.callSites table, P c := by
  refine ⟨h call (mem_callSites_of_macroCall? hc), fun x hx => ?_⟩
  obtain ⟨nameSpan, rfl, -⟩ := macroCall?_eq_some_iff.mp hc
  exact forall_callSites_child h (List.mem_cons_of_mem _ hx)

end

/-- The call of a call block. -/
def Node.blockCall? : Node → Option MacroCall
  | .callBlock call _ _ => some call
  | _ => none

theorem Node.callSites_eq (n : Node) :
    n.callSites table = n.blockCall?.toList ++ n.held.flatMap (·.callSites table) := by
  cases n <;> rfl

theorem Node.mem_callSites_of_held {n : Node} {e : Expr} {c : MacroCall} (he : e ∈ n.held)
    (hc : c ∈ e.callSites table) : c ∈ n.callSites table := by
  rw [callSites_eq]
  exact List.mem_append_right _ (List.mem_flatMap.mpr ⟨e, he, hc⟩)

theorem Expr.callSites_enumerates (table : MacroTable) (e : Expr) :
    Enumerates (e.callSites table) fun steps c =>
      ∃ x, Stands Expr.Part e steps x ∧ x.macroCall? table = some c :=
  e.walk_enumerates.filterMap _

/-- The calls of one node, by what they are for and the path in the expression. -/
theorem Node.callSites_enumerates (n : Node) :
    Enumerates (n.callSites table) fun (q : Option (Slot × List Expr.Step)) c =>
      (q = none ∧ n.blockCall? = some c) ∨
        ∃ p : Slot × List Expr.Step, q = some p ∧ ∃ e, n.Holds p.1 e ∧
          ∃ x, Stands Expr.Part e p.2 x ∧ x.macroCall? table = some c := by
  have hblock : Enumerates n.blockCall?.toList fun (q : Option (Slot × List Expr.Step)) c =>
      q = none ∧ n.blockCall? = some c := by
    cases h : n.blockCall? with
    | none => exact Enumerates.nil.congr fun q c => by simp
    | some call => exact (Enumerates.singleton none call).congr fun q c => by simp [eq_comm]
  have hheld := (n.held_enumerates.flatMap fun _ e _ =>
    e.callSites_enumerates table).relabel (f := some) (Option.some_injective _)
  rw [callSites_eq]
  refine hblock.append hheld fun q c d hc hd => ?_
  obtain ⟨p, hq, -⟩ := hd
  cases hc.1.symm.trans hq

end Template

/-- The macro calls of a template are found exactly once each. -/
theorem Template.callSites_enumerates (t : Template) (table : MacroTable) :
    Enumerates (t.callSites table) (t.SiteAt table) := by
  refine ((walkAll_enumerates t.body).flatMap fun _ n _ => n.callSites_enumerates).congr ?_
  rintro ⟨path, q⟩ c
  constructor
  · rintro ⟨n, hn, ⟨rfl, hblock⟩ | ⟨⟨slot, steps⟩, rfl, e, he, x, hx, hc⟩⟩
    · cases n with
      | callBlock call body s =>
          obtain rfl := Option.some.inj hblock
          exact .block hn
      | _ => cases hblock
    · obtain ⟨nameSpan, rfl, hname⟩ := Expr.macroCall?_eq_some_iff.mp hc
      exact .expr hn he hx hname
  · rintro (hn | ⟨hn, he, hx, hname⟩)
    · exact ⟨_, hn, .inl ⟨rfl, rfl⟩⟩
    · exact ⟨_, hn, .inr ⟨_, rfl, _, he, _, hx, Expr.macroCall?_eq_some_iff.mpr ⟨_, rfl, hname⟩⟩⟩

end TemplateCompiler
