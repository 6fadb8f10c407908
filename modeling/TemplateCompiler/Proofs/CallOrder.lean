import TemplateCompiler.Proofs.BoundSites
import TemplateCompiler.Proofs.NestedSpans

/-!
# Macro calls in the order of the source

The macro calls of a template are listed node by node and expression by expression. Two things are
listed against the order of the source: the conditions of all arms of a branch come before the
bodies, and the positional arguments of a call before the named ones. Everything else is listed as
it stands. So the starts of the calls rise, without falling back anywhere, exactly if no macro call
in a condition stands behind one in a body of the same branch, and none in a positional argument
behind one in a named argument of the same call (`InOrder`).

`Listed lo ps hi ordered` says this of a part of the list: its positions lie in a range, and they
never decrease exactly if `ordered`. Lists of ranges that follow each other are put together by
`Listed.append`, as the trees of spans are by `SpanTree.Row`, and lists of the same range by
`Listed.beside`, which asks what it takes for the first list to stay in front of the second.
-/

namespace TemplateCompiler

open Template (Expr Node exprTrees namedTrees nodeTrees armTrees walkAll)
open SpanTree (Row)

/-! ## Parts in order -/

section

variable (table : MacroTable)

/-- No positional argument with a macro call stands behind a named one with a macro call. -/
def ArgumentsInOrder (args : List Expr) (named : List (NamedArgument Expr)) : Prop :=
  ∀ e ∈ args, ∀ a ∈ named,
    e.siteStarts table = [] ∨ a.value.siteStarts table = [] ∨ e.span.Before a.span

/-- No condition with a macro call stands behind a body with one. -/
def ArmsInOrder (arms : List (Arm Node)) : Prop :=
  arms.Pairwise fun a b =>
    siteStarts table a.body = [] ∨ b.condition.toList.flatMap (·.siteStarts table) = []

namespace Template

/-- Every call in the expression has its arguments in order. -/
def Expr.InOrder (e : Expr) : Prop :=
  ∀ f args named argsSpan span, .call f args named argsSpan span ∈ e.walk →
    ArgumentsInOrder table args named

def Node.PartsInOrder : Node → Prop
  | .branch arms _ => ArmsInOrder table arms
  | .callBlock call _ _ => ArgumentsInOrder table call.args call.named
  | _ => True

end Template

/-- Arms and arguments are in order, at any depth. -/
def InOrder (ns : List Node) : Prop :=
  ∀ n ∈ walkAll ns, n.PartsInOrder table ∧ ∀ e ∈ n.held, e.InOrder table

end

/-! ## Lists of positions -/

/-- The positions lie in a range. If no two are the same, they never decrease exactly if
`ordered`. -/
structure Listed (lo : Nat) (ps : List Position) (hi : Nat) (ordered : Prop) : Prop where
  range : lo ≤ hi
  between : ∀ p ∈ ps, lo ≤ p.offset ∧ p.offset ≤ hi
  rises : ps.Pairwise (fun p q => p.offset ≠ q.offset) →
    (ps.Pairwise (fun p q => p.offset ≤ q.offset) ↔ ordered)

namespace Listed

variable {lo mid hi : Nat} {p : Position} {ps qs : List Position} {P Q R : Prop}

theorem nil (h : lo ≤ hi) : Listed lo [] hi True :=
  ⟨h, List.forall_mem_nil _, fun _ => iff_of_true .nil trivial⟩

theorem congr (h : Listed lo ps hi P) (hPQ : P ↔ Q) : Listed lo ps hi Q :=
  ⟨h.range, h.between, fun hne => (h.rises hne).trans hPQ⟩

theorem widen {lo' hi' : Nat} (h : Listed lo ps hi P) (hlo : lo' ≤ lo) (hhi : hi ≤ hi') :
    Listed lo' ps hi' P where
  range := Nat.le_trans hlo (Nat.le_trans h.range hhi)
  between p hp := ⟨Nat.le_trans hlo (h.between p hp).1, Nat.le_trans (h.between p hp).2 hhi⟩
  rises := h.rises

/-- Two lists of one range. -/
theorem beside (hp : Listed lo ps hi P) (hq : Listed lo qs hi Q)
    (hR : (∀ p ∈ ps, ∀ q ∈ qs, p.offset ≠ q.offset) →
      ((∀ p ∈ ps, ∀ q ∈ qs, p.offset ≤ q.offset) ↔ R)) :
    Listed lo (ps ++ qs) hi (P ∧ Q ∧ R) where
  range := hp.range
  between := by
    intro p hmem
    rcases List.mem_append.mp hmem with hmem | hmem
    · exact hp.between p hmem
    · exact hq.between p hmem
  rises hne := by
    obtain ⟨hps, hqs, hcross⟩ := List.pairwise_append.mp hne
    rw [List.pairwise_append, hp.rises hps, hq.rises hqs, hR hcross]

/-- Two ranges that follow each other. -/
theorem append (hp : Listed lo ps mid P) (hq : Listed mid qs hi Q) :
    Listed lo (ps ++ qs) hi (P ∧ Q) := by
  have hboth := (hp.widen (Nat.le_refl lo) hq.range).beside (hq.widen hp.range (Nat.le_refl hi))
    (R := True) fun _ => iff_of_true
      (fun p hmem q hmem' => Nat.le_trans (hp.between p hmem).2 (hq.between q hmem').1) trivial
  exact hboth.congr (by rw [and_true])

/-- A position where the range begins. -/
theorem cons (h : Listed lo ps hi P) (hp : p.offset = lo) : Listed lo (p :: ps) hi P where
  range := h.range
  between := List.forall_mem_cons.mpr ⟨⟨Nat.le_of_eq hp.symm, hp ▸ h.range⟩, h.between⟩
  rises hne := by
    have hfirst : ∀ q ∈ ps, p.offset ≤ q.offset := fun q hq => hp ▸ (h.between q hq).1
    rw [List.pairwise_cons, h.rises (List.pairwise_cons.mp hne).2]
    exact and_iff_right hfirst

/-- Parts that stand in a row. -/
theorem of_row {α : Type} {unit : String} {xs : List α} {tree : α → SpanTree}
    {f : α → List Position} {P : α → Prop} (hrow : Row unit lo (xs.map tree) hi)
    (h : ∀ x ∈ xs, (tree x).Nested unit →
      Listed (tree x).span.start.offset (f x) (tree x).span.stop.offset (P x)) :
    Listed lo (xs.flatMap f) hi (∀ x ∈ xs, P x) := by
  induction xs generalizing lo with
  | nil => exact (nil hrow).congr (by simp)
  | cons x xs ih =>
      obtain ⟨hstart, hnested, hrest⟩ := hrow
      obtain ⟨hx, hxs⟩ := List.forall_mem_cons.mp h
      have hhead := (hx hnested).widen hstart (Nat.le_refl _)
      exact (hhead.append (ih hrest hxs)).congr List.forall_mem_cons.symm

end Listed

/-- Different positions that are in order both ways are none at all. -/
theorem eq_nil_or_eq_nil {ps qs : List Position}
    (hne : ∀ p ∈ ps, ∀ q ∈ qs, p.offset ≠ q.offset)
    (hle : ∀ p ∈ ps, ∀ q ∈ qs, p.offset ≤ q.offset)
    (hge : ∀ p ∈ ps, ∀ q ∈ qs, q.offset ≤ p.offset) : ps = [] ∨ qs = [] := by
  rcases ps with _ | ⟨p, ps⟩
  · exact .inl rfl
  rcases qs with _ | ⟨q, qs⟩
  · exact .inr rfl
  have hp : p ∈ p :: ps := List.mem_cons_self
  have hq : q ∈ q :: qs := List.mem_cons_self
  exact absurd (Nat.le_antisymm (hle p hp q hq) (hge p hp q hq)) (hne p hp q hq)

/-- What is listed within two spans that do not overlap is in order if the spans are, or if there is
nothing within one of them. -/
theorem ahead_iff_of_apart {s u : Span} {ps qs : List Position} (hapart : s.Before u ∨ u.Before s)
    (hps : ∀ p ∈ ps, s.start.offset ≤ p.offset ∧ p.offset ≤ s.stop.offset)
    (hqs : ∀ q ∈ qs, u.start.offset ≤ q.offset ∧ q.offset ≤ u.stop.offset)
    (hne : ∀ p ∈ ps, ∀ q ∈ qs, p.offset ≠ q.offset) :
    (∀ p ∈ ps, ∀ q ∈ qs, p.offset ≤ q.offset) ↔ ps = [] ∨ qs = [] ∨ s.Before u := by
  constructor
  · intro hle
    rcases hapart with hbefore | hbehind
    · exact .inr (.inr hbefore)
    · have hge : ∀ p ∈ ps, ∀ q ∈ qs, q.offset ≤ p.offset := fun p hp q hq =>
        Nat.le_trans (hqs q hq).2 (Nat.le_trans hbehind (hps p hp).1)
      exact (eq_nil_or_eq_nil hne hle hge).imp_right .inl
  · rintro (rfl | rfl | hbefore) p hp q hq
    · cases hp
    · cases hq
    · exact Nat.le_trans (hps p hp).2 (Nat.le_trans hbefore (hqs q hq).1)

/-- Of things that follow each other, all that is listed first stays in front of all that is listed
second if nothing of the first list stands behind something of the second. -/
theorem flatMap_ahead_iff {α : Type} {xs : List α} {span : α → Span} {f g : α → List Position}
    (hbefore : xs.Pairwise fun x y => (span x).Before (span y))
    (hf : ∀ x ∈ xs, ∀ p ∈ f x, (span x).start.offset ≤ p.offset ∧ p.offset ≤ (span x).stop.offset)
    (hg : ∀ x ∈ xs, ∀ q ∈ g x, (span x).start.offset ≤ q.offset ∧ q.offset ≤ (span x).stop.offset)
    (hown : ∀ x ∈ xs, ∀ p ∈ f x, ∀ q ∈ g x, p.offset ≤ q.offset)
    (hne : ∀ p ∈ xs.flatMap f, ∀ q ∈ xs.flatMap g, p.offset ≠ q.offset) :
    (∀ p ∈ xs.flatMap f, ∀ q ∈ xs.flatMap g, p.offset ≤ q.offset) ↔
      xs.Pairwise fun x y => g x = [] ∨ f y = [] := by
  have hahead : ∀ {x y}, x ∈ xs → y ∈ xs → (span x).Before (span y) →
      ∀ p, p ∈ f x ∨ p ∈ g x → ∀ q, q ∈ f y ∨ q ∈ g y → p.offset ≤ q.offset := by
    intro x y hx hy hxy p hp q hq
    have hstop := hp.elim (fun hp => (hf x hx p hp).2) fun hp => (hg x hx p hp).2
    have hstart := hq.elim (fun hq => (hf y hy q hq).1) fun hq => (hg y hy q hq).1
    exact Nat.le_trans hstop (Nat.le_trans hxy hstart)
  constructor
  · intro hle
    refine hbefore.imp_of_mem fun {x y} hx hy hxy => ?_
    have hmem : ∀ {p q}, p ∈ f y → q ∈ g x → p ∈ xs.flatMap f ∧ q ∈ xs.flatMap g :=
      fun hp hq => ⟨List.mem_flatMap.mpr ⟨y, hy, hp⟩, List.mem_flatMap.mpr ⟨x, hx, hq⟩⟩
    refine (eq_nil_or_eq_nil (fun p hp q hq => ?_) (fun p hp q hq => ?_) fun p hp q hq => ?_).symm
    · exact hne p (hmem hp hq).1 q (hmem hp hq).2
    · exact hle p (hmem hp hq).1 q (hmem hp hq).2
    · exact hahead hx hy hxy q (.inr hq) p (.inl hp)
  · intro hordered p hp q hq
    obtain ⟨x, hx, hp⟩ := List.mem_flatMap.mp hp
    obtain ⟨y, hy, hq⟩ := List.mem_flatMap.mp hq
    have hforward : xs.Pairwise fun x y => ∀ p ∈ f x, ∀ q ∈ g y, p.offset ≤ q.offset :=
      hbefore.imp_of_mem fun hx hy hxy p hp q hq => hahead hx hy hxy p (.inl hp) q (.inr hq)
    have hbackward : xs.Pairwise fun y x => ∀ p ∈ f x, ∀ q ∈ g y, p.offset ≤ q.offset := by
      refine hordered.imp fun {y x} hnone => ?_
      rcases hnone with hnone | hnone <;> simp [hnone]
    exact hforward.forall_of_forall_of_flip hown hbackward hx hy p hp q hq

/-! ## Trees -/

namespace SpanTree

variable {unit : String} {span : Span} {groups : List (List SpanTree)} {ts : List SpanTree}

theorem row_of_pairwise {lo hi : Nat} (hle : lo ≤ hi)
    (hwithin : ∀ t ∈ ts, lo ≤ t.span.start.offset ∧ t.span.stop.offset ≤ hi)
    (hordered : ts.Pairwise fun t u => t.span.Before u.span)
    (hnested : ∀ t ∈ ts, t.Nested unit) : Row unit lo ts hi := by
  induction ts generalizing lo with
  | nil => exact hle
  | cons t ts ih =>
      obtain ⟨⟨hstart, hstop⟩, hwithin⟩ := List.forall_mem_cons.mp hwithin
      obtain ⟨hfirst, hordered⟩ := List.pairwise_cons.mp hordered
      obtain ⟨ht, hnested⟩ := List.forall_mem_cons.mp hnested
      exact ⟨hstart, ht, ih hstop (fun u hu => ⟨hfirst u hu, (hwithin u hu).2⟩) hordered hnested⟩

theorem Nested.row (h : (SpanTree.node span groups).Nested unit) (hts : ts ∈ groups) :
    Row unit span.start.offset ts span.stop.offset := by
  cases h with
  | node _ hforward hwithin hordered _ hnested =>
      exact row_of_pairwise hforward (hwithin ts hts) (hordered ts hts) (hnested ts hts)

theorem Nested.apart {us : List SpanTree} (h : (SpanTree.node span [ts, us]).Nested unit) :
    Apart ts us := by
  cases h with
  | node _ _ _ _ hapart _ => simpa using hapart

end SpanTree

namespace Template

theorem namedTrees_eq_map (named : List (NamedArgument Expr)) :
    namedTrees named =
      named.map fun a => .node a.span [[.node a.nameSpan [], a.value.spanTree]] := by
  induction named with
  | nil => rfl
  | cons a named ih => rw [namedTrees, ih, List.map_cons]

theorem armTrees_eq_map (arms : List (Arm Node)) :
    armTrees arms = arms.map fun a =>
      .node a.span [a.condition.toList.map Expr.spanTree ++ nodeTrees a.body] := by
  induction arms with
  | nil => rfl
  | cons a arms ih => rw [armTrees, ih, List.map_cons]

end Template

/-! ## Expressions -/

section

variable {table : MacroTable} {unit : String}

theorem Template.Expr.inOrder_iff {e : Expr} :
    e.InOrder table ↔
      (∀ f args named argsSpan span, e = .call f args named argsSpan span →
        ArgumentsInOrder table args named) ∧ ∀ c ∈ e.children, c.InOrder table := by
  unfold InOrder
  rw [walk_eq]
  constructor
  · intro h
    refine ⟨fun f args named argsSpan span he => h f args named argsSpan span (by simp [he]),
      fun c hc f args named argsSpan span hcall => h f args named argsSpan span ?_⟩
    exact List.mem_cons_of_mem _ (List.mem_flatMap.mpr ⟨c, hc, hcall⟩)
  · rintro ⟨hown, hchildren⟩ f args named argsSpan span hcall
    rcases List.mem_cons.mp hcall with heq | hcall
    · exact hown f args named argsSpan span heq.symm
    · obtain ⟨c, hc, hcall⟩ := List.mem_flatMap.mp hcall
      exact hchildren c hc f args named argsSpan span hcall

/-- What is to be shown of an expression. -/
def Template.Expr.SitesListed (table : MacroTable) (unit : String) (e : Expr) : Prop :=
  e.spanTree.Nested unit →
    Listed e.span.start.offset (e.siteStarts table) e.span.stop.offset (e.InOrder table)

theorem exprs_listed {es : List Expr} {lo hi : Nat} (hrow : Row unit lo (exprTrees es) hi)
    (h : ∀ e ∈ es, e.SitesListed table unit) :
    Listed lo (es.flatMap (·.siteStarts table)) hi (∀ e ∈ es, e.InOrder table) := by
  rw [Template.exprTrees_eq_map] at hrow
  exact .of_row hrow fun e he hnested => by simpa using h e he hnested

theorem argument_listed {a : NamedArgument Expr}
    (h : (SpanTree.node a.span [[.node a.nameSpan [], a.value.spanTree]]).Nested unit)
    (hvalue : a.value.SitesListed table unit) :
    Listed a.span.start.offset (a.value.siteStarts table) a.span.stop.offset
      (a.value.InOrder table) := by
  obtain ⟨hstart, hnested, hstop⟩ := (h.row (List.mem_singleton.mpr rfl)).of_mem
    (t := a.value.spanTree) (by simp)
  exact (hvalue hnested).widen (by simpa using hstart) (by simpa using hstop)

theorem named_listed {named : List (NamedArgument Expr)} {lo hi : Nat}
    (hrow : Row unit lo (namedTrees named) hi)
    (h : ∀ a ∈ named, a.value.SitesListed table unit) :
    Listed lo ((named.map (·.value)).flatMap (·.siteStarts table)) hi
      (∀ a ∈ named, a.value.InOrder table) := by
  rw [Template.namedTrees_eq_map] at hrow
  rw [List.flatMap_map]
  exact .of_row hrow fun a ha hnested => argument_listed hnested (h a ha)

/-- The positional arguments of a call stay in front of the named ones if they are in order. -/
theorem arguments_listed {args : List Expr} {named : List (NamedArgument Expr)} {argsSpan : Span}
    (h : (SpanTree.node argsSpan [exprTrees args, namedTrees named]).Nested unit)
    (hargs : ∀ e ∈ args, e.SitesListed table unit)
    (hnamed : ∀ a ∈ named, a.value.SitesListed table unit) :
    Listed argsSpan.start.offset
      (args.flatMap (·.siteStarts table) ++ (named.map (·.value)).flatMap (·.siteStarts table))
      argsSpan.stop.offset
      ((∀ e ∈ args, e.InOrder table) ∧ (∀ a ∈ named, a.value.InOrder table) ∧
        ArgumentsInOrder table args named) := by
  have hargsRow := h.row List.mem_cons_self
  have hnamedRow := h.row (List.mem_cons_of_mem _ (List.mem_singleton.mpr rfl))
  refine (exprs_listed hargsRow hargs).beside (named_listed hnamedRow hnamed) fun hne => ?_
  have hapart := h.apart
  rw [Template.exprTrees_eq_map] at hargsRow hapart
  rw [Template.namedTrees_eq_map] at hnamedRow hapart
  have hpart : ∀ e ∈ args, ∀ a ∈ named,
      (∀ p ∈ e.siteStarts table, ∀ q ∈ a.value.siteStarts table, p.offset ≤ q.offset) ↔
        e.siteStarts table = [] ∨ a.value.siteStarts table = [] ∨ e.span.Before a.span := by
    intro e he a ha
    have he' := hargs e he (hargsRow.of_mem (List.mem_map_of_mem he)).2.1
    have ha' := argument_listed (hnamedRow.of_mem (List.mem_map_of_mem ha)).2.1 (hnamed a ha)
    refine ahead_iff_of_apart ?_ he'.between ha'.between fun p hp q hq => ?_
    · simpa using hapart _ (List.mem_map_of_mem he) _ (List.mem_map_of_mem ha)
    · exact hne p (List.mem_flatMap.mpr ⟨e, he, hp⟩) q
        (List.mem_flatMap.mpr ⟨a.value, List.mem_map_of_mem ha, hq⟩)
  simp only [List.forall_mem_flatMap, List.forall_mem_map]
  constructor
  · exact fun h e he a ha => (hpart e he a ha).mp fun p hp => h e he p hp a ha
  · exact fun h e he p hp a ha => (hpart e he a ha).mpr (h e he a ha) p hp

namespace Template.Expr

/-- But for a call, an expression has its parts in a row. -/
theorem children_row {e : Expr} (h : e.spanTree.Nested unit)
    (hcall : ∀ f args named argsSpan span, e ≠ .call f args named argsSpan span) :
    Row unit e.span.start.offset (exprTrees e.children) e.span.stop.offset := by
  cases e with
  | literal | var => exact h.forward
  | call f args named argsSpan span => exact absurd rfl (hcall f args named argsSpan span)
  | _ => exact h.row (List.mem_singleton.mpr rfl)

theorem sitesListed_of_children {e : Expr}
    (hcall : ∀ f args named argsSpan span, e ≠ .call f args named argsSpan span)
    (ih : ∀ c ∈ e.children, c.SitesListed table unit) : e.SitesListed table unit := by
  intro h
  have hnone : e.macroCall? table = none := by
    cases e with
    | call f args named argsSpan span => exact absurd rfl (hcall f args named argsSpan span)
    | _ => rfl
  rw [siteStarts_eq, hnone]
  refine (exprs_listed (children_row h hcall) ih).congr ?_
  rw [inOrder_iff]
  exact (and_iff_right fun f args named argsSpan span he => absurd he (hcall _ _ _ _ _)).symm

theorem call_sitesListed {f : Expr} {args : List Expr} {named : List (NamedArgument Expr)}
    {argsSpan span : Span} (hf : f.SitesListed table unit)
    (hargs : ∀ e ∈ args, e.SitesListed table unit)
    (hnamed : ∀ a ∈ named, a.value.SitesListed table unit) :
    (call f args named argsSpan span).SitesListed table unit := by
  intro h
  obtain ⟨hstart, hfunc, hbehind, harguments, hstop⟩ := h.row (List.mem_singleton.mpr rfl)
  have hparts := ((hf hfunc).widen (by simpa using hstart) (by simpa using hbehind)).append
    ((arguments_listed harguments hargs hnamed).widen (Nat.le_refl _) hstop)
  have hordered : (call f args named argsSpan span).InOrder table ↔
      f.InOrder table ∧ (∀ e ∈ args, e.InOrder table) ∧ (∀ a ∈ named, a.value.InOrder table) ∧
        ArgumentsInOrder table args named := by
    rw [inOrder_iff]
    constructor
    · rintro ⟨hown, hchildren⟩
      exact ⟨hchildren f (by simp [children]), fun e he => hchildren e (by simp [children, he]),
        fun a ha => hchildren a.value (by grind [children]), hown _ _ _ _ _ rfl⟩
    · rintro ⟨hf, hargs, hnamed, hown⟩
      refine ⟨by rintro _ _ _ _ _ ⟨⟩; exact hown, fun c hc => ?_⟩
      rcases List.mem_cons.mp hc with rfl | hc
      · exact hf
      rcases List.mem_append.mp hc with hc | hc
      · exact hargs c hc
      · obtain ⟨a, ha, rfl⟩ := List.mem_map.mp hc
        exact hnamed a ha
  rw [siteStarts_eq]
  simp only [children, List.flatMap_cons, List.flatMap_append]
  cases hmacro : (call f args named argsSpan span).macroCall? table with
  | none => exact hparts.congr hordered.symm
  | some c =>
      obtain ⟨nameSpan, heq, -⟩ := macroCall?_eq_some_iff.mp hmacro
      obtain ⟨-, -, -, -, rfl⟩ := call.inj heq
      exact (hparts.congr hordered.symm).cons rfl

theorem sitesListed (table : MacroTable) (e : Expr) : e.SitesListed table unit := by
  induction e using parts_induction with
  | call f args named argsSpan span ihf iha ihn => exact call_sitesListed ihf iha ihn
  | literal | var => exact sitesListed_of_children (by simp) nofun
  | binary op l r s ihl ihr =>
      exact sitesListed_of_children (by simp) (by simp [children, ihl, ihr])
  | unary op e s ih => exact sitesListed_of_children (by simp) (by simpa [children] using ih)
  | filter name e args s ihe iha =>
      exact sitesListed_of_children (by simp) (List.forall_mem_cons.mpr ⟨ihe, iha⟩)
  | index e p s ihe ihp => exact sitesListed_of_children (by simp) (by simp [children, ihe, ihp])
  | member e name s ih => exact sitesListed_of_children (by simp) (by simpa [children] using ih)

end Template.Expr

/-! ## Nodes -/

theorem siteStarts_eq_flatMap (ns : List Node) :
    siteStarts table ns = ns.flatMap fun n => siteStarts table [n] := by
  induction ns with
  | nil => rfl
  | cons n ns ih => rw [List.flatMap_cons, ← ih, ← siteStarts_append, List.singleton_append]

theorem inOrder_iff_forall {ns : List Node} :
    InOrder table ns ↔ ∀ n ∈ ns, InOrder table [n] := by
  simp only [InOrder, Template.walkAll_eq_flatMap, List.mem_flatMap, List.mem_singleton]
  grind

theorem inOrder_singleton {n : Node} :
    InOrder table [n] ↔
      n.PartsInOrder table ∧ (∀ e ∈ n.held, e.InOrder table) ∧ InOrder table n.children := by
  simp only [InOrder, Template.walkAll_eq_flatMap, List.flatMap_cons, List.flatMap_nil,
    List.append_nil]
  rw [n.walk_eq, List.forall_mem_cons, and_assoc]

/-- What is to be shown of a node. -/
def Template.Node.SitesListed (table : MacroTable) (unit : String) (n : Node) : Prop :=
  n.spanTree.Nested unit → Listed n.spanTree.span.start.offset (siteStarts table [n])
    n.spanTree.span.stop.offset (TemplateCompiler.InOrder table [n])

theorem nodes_listed {ns : List Node} {lo hi : Nat} (hrow : Row unit lo (nodeTrees ns) hi)
    (h : ∀ n ∈ ns, n.SitesListed table unit) :
    Listed lo (siteStarts table ns) hi (InOrder table ns) := by
  rw [Template.nodeTrees_eq_map] at hrow
  rw [siteStarts_eq_flatMap]
  exact (Listed.of_row hrow h).congr inOrder_iff_forall.symm

/-- A node whose expressions stand in front of its blocks. -/
theorem Template.Node.sitesListed_of_row {n : Node} (hcall : n.blockCall? = none)
    (hparts : n.PartsInOrder table)
    (hrow : n.spanTree.Nested unit → Row unit n.spanTree.span.start.offset
      (exprTrees n.held ++ nodeTrees n.children) n.spanTree.span.stop.offset)
    (ih : ∀ m ∈ n.children, m.SitesListed table unit) : n.SitesListed table unit := by
  intro h
  obtain ⟨mid, hheld, hchildren⟩ := SpanTree.row_append_iff.mp (hrow h)
  have hlisted := (exprs_listed hheld fun e _ => e.sitesListed table).append
    (nodes_listed hchildren ih)
  rw [siteStarts_singleton, hcall]
  refine hlisted.congr ?_
  rw [inOrder_singleton]
  exact (and_iff_right hparts).symm

/-- The defaults of parameters stand in a row, since the parameters do. -/
theorem defaults_row {params : List (Parameter Expr)} {lo hi : Nat}
    (h : Row unit lo (params.map Parameter.spanTree) hi) :
    Row unit lo (exprTrees (params.filterMap (·.default))) hi := by
  induction params generalizing lo with
  | nil => exact h
  | cons p params ih =>
      obtain ⟨hstart, hnested, hrest⟩ := h
      have hdefault := hnested.row (List.mem_singleton.mpr rfl)
      have htail := ih hrest
      cases hp : p.default with
      | none =>
          rw [List.filterMap_cons_none hp]
          exact htail.widen (Nat.le_trans hstart hnested.forward) (Nat.le_refl _)
      | some e =>
          rw [List.filterMap_cons_some hp]
          rw [hp] at hdefault
          exact (hdefault.widen hstart (Nat.le_refl _)).append htail

theorem callBlock_sitesListed {call : MacroCall} {body : List Node} {span : Span}
    (ih : ∀ n ∈ body, n.SitesListed table unit) :
    (Node.callBlock call body span).SitesListed table unit := by
  intro h
  obtain ⟨hstart, hcall, hbody⟩ := h.row (List.mem_singleton.mpr rfl)
  obtain ⟨hargsStart, hargs, hargsStop⟩ := hcall.row (List.mem_singleton.mpr rfl)
  have hinside := (arguments_listed hargs (fun e _ => e.sitesListed table)
    fun a _ => a.value.sitesListed table).widen hargsStart hargsStop
  have hsites := hinside.cons (p := call.span.start) rfl
  have hlisted := (hsites.widen hstart (Nat.le_refl _)).append (nodes_listed hbody ih)
  rw [siteStarts_singleton]
  simp only [Node.blockCall?, Node.held, Node.children, MacroCall.exprs, Option.toList_some,
    List.map_cons, List.map_nil, List.cons_append, List.nil_append, List.flatMap_append]
  rw [List.cons_append] at hlisted
  refine hlisted.congr ?_
  rw [inOrder_singleton]
  simp only [Node.PartsInOrder, Node.held, Node.children, MacroCall.exprs,
    List.forall_mem_append, List.forall_mem_map]
  tauto

theorem arm_listed {a : Arm Node}
    (h : (SpanTree.node a.span
      [a.condition.toList.map Expr.spanTree ++ nodeTrees a.body]).Nested unit)
    (ih : ∀ n ∈ a.body, n.SitesListed table unit) :
    ∃ mid, Listed a.span.start.offset (a.condition.toList.flatMap (·.siteStarts table)) mid
        (∀ e ∈ a.condition.toList, e.InOrder table) ∧
      Listed mid (siteStarts table a.body) a.span.stop.offset (InOrder table a.body) := by
  obtain ⟨mid, hcondition, hbody⟩ :=
    SpanTree.row_append_iff.mp (h.row (List.mem_singleton.mpr rfl))
  rw [← Template.exprTrees_eq_map] at hcondition
  exact ⟨mid, exprs_listed hcondition fun e _ => e.sitesListed table, nodes_listed hbody ih⟩

/-- The conditions stay in front of the bodies if the arms are in order. -/
theorem arms_listed {arms : List (Arm Node)} {lo hi : Nat}
    (hrow : Row unit lo (armTrees arms) hi)
    (ih : ∀ a ∈ arms, ∀ n ∈ a.body, n.SitesListed table unit) :
    Listed lo
      (arms.flatMap (fun a => a.condition.toList.flatMap (·.siteStarts table)) ++
        arms.flatMap fun a => siteStarts table a.body) hi
      ((∀ a ∈ arms, ∀ e ∈ a.condition.toList, e.InOrder table) ∧
        (∀ a ∈ arms, InOrder table a.body) ∧ ArmsInOrder table arms) := by
  rw [Template.armTrees_eq_map] at hrow
  have hbefore := hrow.pairwise
  rw [List.pairwise_map] at hbefore
  have harm : ∀ a ∈ arms, _ := fun a ha =>
    arm_listed (hrow.of_mem (List.mem_map_of_mem ha)).2.1 (ih a ha)
  refine Listed.beside (.of_row hrow fun a ha _ => ?_) (.of_row hrow fun a ha _ => ?_) fun hne => ?_
  · obtain ⟨mid, hcondition, hbody⟩ := harm a ha
    exact hcondition.widen (Nat.le_refl _) hbody.range
  · obtain ⟨mid, hcondition, hbody⟩ := harm a ha
    exact hbody.widen hcondition.range (Nat.le_refl _)
  · refine flatMap_ahead_iff hbefore ?_ ?_ ?_ hne <;> intro a ha <;>
      obtain ⟨mid, hcondition, hbody⟩ := harm a ha
    · exact (hcondition.widen (Nat.le_refl _) hbody.range).between
    · exact (hbody.widen hcondition.range (Nat.le_refl _)).between
    · intro p hp q hq
      exact Nat.le_trans (hcondition.between p hp).2 (hbody.between q hq).1

theorem branch_sitesListed {arms : List (Arm Node)} {span : Span}
    (ih : ∀ a ∈ arms, ∀ n ∈ a.body, n.SitesListed table unit) :
    (Node.branch arms span).SitesListed table unit := by
  intro h
  have hlisted := arms_listed (h.row (List.mem_singleton.mpr rfl)) ih
  have hconditions : (arms.filterMap (·.condition)).flatMap (·.siteStarts table) =
      arms.flatMap fun a => a.condition.toList.flatMap (·.siteStarts table) := by
    rw [List.filterMap_eq_flatMap_toList, List.flatMap_assoc]
  have hbodies : siteStarts table (arms.flatMap (·.body)) =
      arms.flatMap fun a => siteStarts table a.body := by
    simp only [siteStarts, Template.walkAll_eq_flatMap, List.flatMap_assoc]
  have hheld : (∀ e ∈ arms.filterMap (·.condition), e.InOrder table) ↔
      ∀ a ∈ arms, ∀ e ∈ a.condition.toList, e.InOrder table := by
    rw [List.filterMap_eq_flatMap_toList, List.forall_mem_flatMap]
  have hblocks : InOrder table (arms.flatMap (·.body)) ↔ ∀ a ∈ arms, InOrder table a.body := by
    rw [inOrder_iff_forall, List.forall_mem_flatMap]
    exact forall₂_congr fun a _ => inOrder_iff_forall.symm
  rw [siteStarts_singleton]
  simp only [Node.blockCall?, Node.held, Node.exprs, Node.children, Option.toList_none,
    List.map_nil, List.nil_append, hconditions, hbodies]
  refine hlisted.congr ?_
  rw [inOrder_singleton]
  simp only [Node.PartsInOrder, Node.held, Node.exprs, Node.children, hheld, hblocks]
  tauto

theorem Template.Node.sitesListed (table : MacroTable) (n : Node) : n.SitesListed table unit := by
  induction n using parts_induction with
  | text value s | inclusion path s =>
      exact sitesListed_of_row rfl trivial (fun h => h.forward) nofun
  | output e s | assignment name e s =>
      exact sitesListed_of_row rfl trivial (fun h => h.row (List.mem_singleton.mpr rfl)) nofun
  | branch arms s ih => exact branch_sitesListed ih
  | loop targets e body otherwise s ihb iho =>
      refine sitesListed_of_row rfl trivial (fun h => ?_) (List.forall_mem_append.mpr ⟨ihb, iho⟩)
      have hrow := h.row (List.mem_singleton.mpr rfl)
      rwa [← nodeTrees_append] at hrow
  | definition d ih =>
      refine sitesListed_of_row rfl trivial (fun h => ?_) ih
      obtain ⟨hstart, hname, hrest⟩ := h.row (List.mem_singleton.mpr rfl)
      obtain ⟨mid, hparams, hbody⟩ := SpanTree.row_append_iff.mp hrest
      have hdefaults := (defaults_row hparams).append hbody
      exact hdefaults.widen (Nat.le_trans hstart hname.forward) (Nat.le_refl _)
  | callBlock call body s ih => exact callBlock_sitesListed ih

end

/-! ## Templates -/

/-- A template with nodes was read up to an end. -/
theorem Parser.template_reaches (setting : Parser.Setting) (s : Parser.State) :
    Ends (Parser.template setting) s
      (fun t _ => (t.body = [] ∨ ∃ u ∈ s.unread, u.kind = .eof) ∧
        ∃ stop, t.span = ⟨.initial, stop, setting.unit⟩) fun _ _ => True := by
  have hreads := (Parser.templatesSound setting (Parser.templateFuel s.unread.length)).nodesFrom
    [] [] [] s .empty
  have hbody : Ends (Parser.templateBody setting) s
      (fun nodes _ => nodes = [] ∨ ∃ u ∈ s.unread, u.kind = .eof) fun _ _ => True := by
    refine Parser.templateBody_ends_of (Ends.imp hreads ?_ fun _ _ _ _ _ => .inl rfl)
    rintro r s' ⟨us, hus, -⟩ ⟨t, rest, hs', heof⟩
    exact .inr ⟨t, by rw [hus, hs']; simp, heof⟩
  refine Ends.bind hbody fun nodes s' hnodes => ?_
  refine Ends.bind (Parser.spanFrom_lays setting.unit s') ?_
  rintro span s'' ⟨-, stop, rfl, -⟩
  exact Ends.pure ⟨hnodes, stop, rfl⟩

/-- The spans of a template are nested, whatever the delimiters are. -/
theorem parse_nests {setting : Parser.Setting} {delimiters : Delimiters} {source : String}
    {parsed : Parsed} (h : parse setting delimiters source = .ok parsed) :
    parsed.template.spanTree.Nested setting.unit := by
  obtain ⟨s', hrun, -⟩ := Parser.template_of_parse h
  obtain ⟨hbody, stop, hspan⟩ := (Parser.template_reaches setting _).of_ok hrun
  rcases hbody with hnone | hend
  · rw [Template.spanTree, hnone, hspan]
    exact .of_row rfl (Nat.zero_le stop.offset)
  · have horder := tokenize_inOrder source setting.unit delimiters
    have hordered : Parser.State.Ordered
        { unread := (tokenize source setting.unit delimiters).1,
          fault := (tokenize source setting.unit delimiters).2 } :=
      ⟨horder.apart, horder.forward, fun _ _ => Nat.zero_le _, fun _ => hend⟩
    have hunit := tokenize_units source setting.unit delimiters
    exact ((Parser.template_lays ⟨hordered, hunit⟩ rfl).of_ok hrun).1

/-- No two macro calls of a template start at one offset. -/
theorem Composes.starts_apart {ts : List Token} {t : Template} (h : Composes ts (.nodes t.body))
    (hts : Token.InOrder ts) (table : MacroTable) :
    (siteStarts table t.body).Pairwise fun p q => p.offset ≠ q.offset := by
  have hname : ∀ p ∈ siteStarts table t.body, p ∈ Token.nameStarts ts := by
    intro p hp
    have hcount := h.count_siteStarts_le table p
    exact List.count_pos_iff.mp (Nat.lt_of_lt_of_le (List.count_pos_iff.mpr hp) hcount)
  have hoffsets : ((Token.nameStarts ts).map (·.offset)).Nodup :=
    List.pairwise_map.mpr (hts.nameStarts_increasing.imp Nat.ne_of_lt)
  have hnodup := h.starts_nodup hts table
  rw [Template.callSites, List.map_flatMap] at hnodup
  refine hnodup.imp_of_mem fun hp hq hne heq => hne ?_
  exact List.inj_on_of_nodup_map hoffsets (hname _ hp) (hname _ hq) heq

/-- The macro calls of a template are listed as they stand in the source exactly if its arms and
arguments are in order. Problems are reported in the order of the list. -/
structure CallsOrdered (t : Template) (table : MacroTable) : Prop where
  rises : (t.callSites table).Pairwise (fun c d => c.span.start.offset ≤ d.span.start.offset) ↔
    InOrder table t.body
  problems : (bindAll t table).2 = (t.callSites table).filterMap (problem? table)
  reported : InOrder table t.body → ((t.callSites table).filter fun c =>
    (problem? table c).isSome).Pairwise fun c d => c.span.start.offset ≤ d.span.start.offset

theorem parse_callsOrdered {setting : Parser.Setting} {delimiters : Delimiters} {source : String}
    {parsed : Parsed} (h : parse setting delimiters source = .ok parsed) (table : MacroTable) :
    CallsOrdered parsed.template table := by
  have hapart := (parse_composes h).starts_apart (tokenize_inOrder _ _ _) table
  have hrow := (parse_nests h).row (List.mem_singleton.mpr rfl)
  have hlisted := nodes_listed hrow fun n _ => n.sitesListed table
  have hrises : (parsed.template.callSites table).Pairwise
      (fun c d => c.span.start.offset ≤ d.span.start.offset) ↔
        InOrder table parsed.template.body := by
    rw [← hlisted.rises hapart, siteStarts, ← List.map_flatMap, List.pairwise_map]
    rfl
  refine ⟨hrises, ?_, fun hordered => (hrises.mpr hordered).filter _⟩
  rw [bindAll_eq (parse_spans_nodup h table)]

/-- The condition of a second arm is listed before the body of the first. -/
theorem callsOrdered_of_second_condition :
    let source := "\x7b% macro m(a) %\x7d\x7b% endmacro %\x7d" ++
      "\x7b% if m() %\x7d\x7b\x7b m(1, 2) \x7d\x7d\x7b% elif m() %\x7d\x7b% endif %\x7d"
    ∃ parsed, parse ⟨"page", .preserve⟩ .standard source = .ok parsed ∧ parsed.complaints = [] ∧
      CallsOrdered parsed.template parsed.template.macroTable.1 ∧
      (parsed.template.callSites parsed.template.macroTable.1).map (·.span.start.offset) =
        [36, 63, 45] := by
  intro source
  obtain ⟨parsed, hparsed, hcounts⟩ := Except.exists_of_toOption_map
    (x := parse ⟨"page", .preserve⟩ .standard source)
    (f := fun p => (p.complaints.length,
      (p.template.callSites p.template.macroTable.1).map (·.span.start.offset)))
    (b := (0, [36, 63, 45])) (by decide +kernel)
  obtain ⟨hnone, hstarts⟩ := Prod.mk.inj hcounts
  have hcomplaints := List.eq_nil_of_length_eq_zero hnone
  exact ⟨parsed, hparsed, hcomplaints, parse_callsOrdered hparsed _, hstarts⟩

end TemplateCompiler
