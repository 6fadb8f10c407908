import Mathlib.Data.List.Basic
import TemplateCompiler.Template.Basic

/-!
# Trees of spans

What the spans of a template and of its parts have to do with each other is a question about a tree
of spans: that of a part stands above those of the parts in it. `SpanTree.Nested` is the answer that
one would like. Every span ends behind its start and lies in its unit, it holds the spans below it,
no two of these overlap, and those of one group follow each other. Only the positional and the named
arguments of a call are two groups, since they may be mixed.

`SpanTree.Row` is the form in which this is proved: a list of trees that stand in a range, one
behind the other. Two rows on both sides of a place are one row, and a row becomes a single tree
under a span that covers the range.
-/

namespace TemplateCompiler

open Template (Expr Node)

/-! ## Trees -/

/-- The span of a part, and the parts in it by groups of parts that follow each other. -/
inductive SpanTree where
  | node (span : Span) (groups : List (List SpanTree))

def SpanTree.span : SpanTree → Span
  | .node span _ => span

@[simp]
theorem SpanTree.span_node (span : Span) (groups : List (List SpanTree)) :
    (SpanTree.node span groups).span = span := rfl

/-- `s` lies in `t`. -/
def Span.Within (s t : Span) : Prop :=
  t.start.offset ≤ s.start.offset ∧ s.stop.offset ≤ t.stop.offset

/-- `t` begins where `s` ends, or further on. -/
def Span.Before (s t : Span) : Prop :=
  s.stop.offset ≤ t.start.offset

/-- No span of the first list overlaps one of the second. -/
def SpanTree.Apart (ts us : List SpanTree) : Prop :=
  ∀ t ∈ ts, ∀ u ∈ us, t.span.Before u.span ∨ u.span.Before t.span

/-- Every span runs forward in the unit and holds those below it, of which those of one group follow
each other and those of different groups stand apart. -/
inductive SpanTree.Nested (unit : String) : SpanTree → Prop
  | node {span groups} (hunit : span.unit = unit)
      (hforward : span.start.offset ≤ span.stop.offset)
      (hwithin : ∀ group ∈ groups, ∀ t ∈ group, t.span.Within span)
      (hordered : ∀ group ∈ groups, group.Pairwise fun t u => t.span.Before u.span)
      (hapart : groups.Pairwise SpanTree.Apart)
      (hnested : ∀ group ∈ groups, ∀ t ∈ group, SpanTree.Nested unit t) :
      SpanTree.Nested unit (.node span groups)

/-! ## The trees of templates -/

mutual

def Template.Expr.spanTree : Expr → SpanTree
  | .literal _ span | .var _ span => .node span []
  | .binary _ left right span => .node span [[left.spanTree, right.spanTree]]
  | .unary _ operand span => .node span [[operand.spanTree]]
  | .filter _ value args span => .node span [value.spanTree :: Template.exprTrees args]
  | .index value position span => .node span [[value.spanTree, position.spanTree]]
  | .attribute value _ span => .node span [[value.spanTree]]
  | .call func args named argsSpan span =>
    .node span
      [[func.spanTree, .node argsSpan [Template.exprTrees args, Template.namedTrees named]]]

def Template.exprTrees : List Expr → List SpanTree
  | [] => []
  | e :: es => e.spanTree :: Template.exprTrees es

def Template.namedTrees : List (NamedArgument Expr) → List SpanTree
  | [] => []
  | a :: as =>
    .node a.span [[.node a.nameSpan [], a.value.spanTree]] :: Template.namedTrees as

end

def Parameter.spanTree (p : Parameter Expr) : SpanTree :=
  .node p.span [p.default.toList.map Expr.spanTree]

def MacroCall.spanTree (call : MacroCall) : SpanTree :=
  .node call.span
    [[.node call.argsSpan [Template.exprTrees call.args, Template.namedTrees call.named]]]

mutual

def Template.Node.spanTree : Node → SpanTree
  | .text _ span | .inclusion _ span => .node span []
  | .output e span | .assignment _ e span => .node span [[e.spanTree]]
  | .branch arms span => .node span [Template.armTrees arms]
  | .loop _ iterable body otherwise span =>
    .node span
      [iterable.spanTree :: (Template.nodeTrees body ++ Template.nodeTrees otherwise)]
  | .definition d =>
    .node d.span
      [.node d.nameSpan [] :: (d.params.map Parameter.spanTree ++ Template.nodeTrees d.body)]
  | .callBlock call body span => .node span [call.spanTree :: Template.nodeTrees body]

def Template.nodeTrees : List Node → List SpanTree
  | [] => []
  | n :: ns => n.spanTree :: Template.nodeTrees ns

def Template.armTrees : List (Arm Node) → List SpanTree
  | [] => []
  | a :: as =>
    .node a.span [a.condition.toList.map Expr.spanTree ++ Template.nodeTrees a.body] ::
      Template.armTrees as

end

def Template.spanTree (t : Template) : SpanTree :=
  .node t.span [Template.nodeTrees t.body]

namespace Template

theorem exprTrees_eq_map (es : List Expr) : exprTrees es = es.map Expr.spanTree := by
  induction es with
  | nil => rfl
  | cons e es ih => rw [exprTrees, ih, List.map_cons]

theorem nodeTrees_eq_map (ns : List Node) : nodeTrees ns = ns.map Node.spanTree := by
  induction ns with
  | nil => rfl
  | cons n ns ih => rw [nodeTrees, ih, List.map_cons]

theorem exprTrees_append (es fs : List Expr) :
    exprTrees (es ++ fs) = exprTrees es ++ exprTrees fs := by
  simp only [exprTrees_eq_map, List.map_append]

theorem nodeTrees_append (ns ms : List Node) :
    nodeTrees (ns ++ ms) = nodeTrees ns ++ nodeTrees ms := by
  simp only [nodeTrees_eq_map, List.map_append]

theorem namedTrees_append (as bs : List (NamedArgument Expr)) :
    namedTrees (as ++ bs) = namedTrees as ++ namedTrees bs := by
  induction as with
  | nil => rfl
  | cons a as ih => rw [List.cons_append, namedTrees, namedTrees, ih, List.cons_append]

theorem armTrees_append (as bs : List (Arm Node)) :
    armTrees (as ++ bs) = armTrees as ++ armTrees bs := by
  induction as with
  | nil => rfl
  | cons a as ih => rw [List.cons_append, armTrees, armTrees, ih, List.cons_append]

@[simp]
theorem Expr.span_spanTree (e : Expr) : e.spanTree.span = e.span := by
  cases e <;> rfl

end Template

/-! ## Rows -/

namespace SpanTree

/-- Nested trees that stand in a range, one behind the other. -/
def Row (unit : String) : Nat → List SpanTree → Nat → Prop
  | lo, [], hi => lo ≤ hi
  | lo, t :: ts, hi =>
    lo ≤ t.span.start.offset ∧ t.Nested unit ∧ Row unit t.span.stop.offset ts hi

variable {unit : String} {lo mid hi : Nat} {t : SpanTree} {ts us : List SpanTree}

theorem Nested.forward (h : t.Nested unit) : t.span.start.offset ≤ t.span.stop.offset := by
  cases h with
  | node _ hforward => exact hforward

@[simp]
theorem row_nil : Row unit lo [] hi ↔ lo ≤ hi := Iff.rfl

theorem Row.le (h : Row unit lo ts hi) : lo ≤ hi := by
  induction ts generalizing lo with
  | nil => exact h
  | cons t ts ih =>
      obtain ⟨hstart, ht, hts⟩ := h
      exact Nat.le_trans hstart (Nat.le_trans ht.forward (ih hts))

/-- A row is still one in a wider range. -/
theorem Row.widen {lo' hi' : Nat} (h : Row unit lo ts hi) (hlo : lo' ≤ lo) (hhi : hi ≤ hi') :
    Row unit lo' ts hi' := by
  induction ts generalizing lo lo' with
  | nil => exact Nat.le_trans hlo (Nat.le_trans h hhi)
  | cons t ts ih =>
      obtain ⟨hstart, ht, hts⟩ := h
      exact ⟨Nat.le_trans hlo hstart, ht, ih hts (Nat.le_refl _)⟩

theorem row_append_iff :
    Row unit lo (ts ++ us) hi ↔ ∃ mid, Row unit lo ts mid ∧ Row unit mid us hi := by
  induction ts generalizing lo with
  | nil =>
      constructor
      · intro h
        exact ⟨lo, Nat.le_refl lo, h⟩
      · rintro ⟨mid, hmid, h⟩
        exact h.widen hmid (Nat.le_refl hi)
  | cons t ts ih =>
      constructor
      · rintro ⟨hstart, ht, hts⟩
        obtain ⟨mid, hmid, hus⟩ := ih.mp hts
        exact ⟨mid, ⟨hstart, ht, hmid⟩, hus⟩
      · rintro ⟨mid, ⟨hstart, ht, hmid⟩, hus⟩
        exact ⟨hstart, ht, ih.mpr ⟨mid, hmid, hus⟩⟩

theorem Row.append (h : Row unit lo ts mid) (h' : Row unit mid us hi) :
    Row unit lo (ts ++ us) hi :=
  row_append_iff.mpr ⟨mid, h, h'⟩

theorem Row.of_mem (h : Row unit lo ts hi) (ht : t ∈ ts) :
    lo ≤ t.span.start.offset ∧ t.Nested unit ∧ t.span.stop.offset ≤ hi := by
  induction ts generalizing lo with
  | nil => cases ht
  | cons u ts ih =>
      obtain ⟨hstart, hu, hts⟩ := h
      rcases List.mem_cons.mp ht with rfl | ht
      · exact ⟨hstart, hu, hts.le⟩
      · obtain ⟨hbehind, hnested, hstop⟩ := ih hts ht
        exact ⟨Nat.le_trans hstart (Nat.le_trans hu.forward hbehind), hnested, hstop⟩

theorem Row.pairwise (h : Row unit lo ts hi) :
    ts.Pairwise fun t u => t.span.Before u.span := by
  induction ts generalizing lo with
  | nil => exact .nil
  | cons t ts ih =>
      obtain ⟨-, -, hts⟩ := h
      exact .cons (fun u hu => (hts.of_mem hu).1) (ih hts)

/-- What stands on both sides of a place stands apart. -/
theorem Row.apart (h : Row unit lo ts mid) (h' : Row unit mid us hi) : Apart ts us :=
  fun _ ht _ hu => .inl (Nat.le_trans (h.of_mem ht).2.2 (h'.of_mem hu).1)

/-- A span that covers the ranges of its groups nests them. -/
theorem Nested.of_rows {span : Span} {groups : List (List SpanTree)} (hunit : span.unit = unit)
    (hforward : span.start.offset ≤ span.stop.offset)
    (hgroups : ∀ group ∈ groups, Row unit span.start.offset group span.stop.offset)
    (hapart : groups.Pairwise Apart) : (SpanTree.node span groups).Nested unit := by
  refine .node hunit hforward (fun group hg t ht => ?_)
    (fun group hg => (hgroups group hg).pairwise) hapart
    fun group hg t ht => ((hgroups group hg).of_mem ht).2.1
  obtain ⟨hstart, -, hstop⟩ := (hgroups group hg).of_mem ht
  exact ⟨hstart, hstop⟩

/-- A span over one row. -/
theorem Nested.of_row {span : Span} (hunit : span.unit = unit)
    (hrow : Row unit span.start.offset ts span.stop.offset) :
    (SpanTree.node span [ts]).Nested unit :=
  .of_rows hunit hrow.le (List.forall_mem_singleton.mpr hrow) (List.pairwise_singleton _ _)

theorem Nested.leaf {span : Span} (hunit : span.unit = unit)
    (hforward : span.start.offset ≤ span.stop.offset) : (SpanTree.node span []).Nested unit :=
  .of_rows hunit hforward (List.forall_mem_nil _) .nil

end SpanTree

end TemplateCompiler
