import TemplateCompiler.Program.Generate
import TemplateCompiler.Proofs.Places

/-!
# The steps of generation

Generation goes through lists by recursions of its own. Each of them is the sequence of the outcomes
of the elements, and a sequence succeeds exactly if every outcome in it does.

What one step of generation can come to is said once for expressions (`ExprStep`) and once for nodes
(`NodeStep`), with a rule for each result. Whatever is proved of programs, that they have some form
or that there are any, goes by these rules.
-/

namespace TemplateCompiler

open Template (Node)

theorem Except.bind_eq_ok_iff {ε α β : Type} {x : Except ε α} {f : α → Except ε β} {b : β} :
    (x >>= f) = .ok b ↔ ∃ a, x = .ok a ∧ f a = .ok b := by
  cases x with
  | ok a => exact ⟨fun h => ⟨a, rfl, h⟩, fun ⟨_, ha, h⟩ => Except.ok.inj ha ▸ h⟩
  | error e => exact ⟨nofun, nofun⟩

namespace Generator

/-! ## Sequences -/

section

variable {α : Type} {x : Outcome α} {xs : List (Outcome α)} {ys : List α}

theorem sequence_eq_ok_iff : sequence xs = .ok ys ↔ xs = ys.map .ok := by
  induction xs generalizing ys with
  | nil => cases ys <;> simp [sequence]
  | cons x xs ih =>
      rw [sequence]
      simp only [Except.bind_eq_ok_iff, ih]
      constructor
      · rintro ⟨a, rfl, as, rfl, heq⟩
        obtain rfl := Except.ok.inj heq
        rfl
      · intro h
        cases ys with
        | nil => cases h
        | cons y ys =>
            obtain ⟨rfl, rfl⟩ := List.cons.inj h
            exact ⟨y, rfl, ys, rfl, rfl⟩

/-- A sequence of outcomes that all succeed. -/
theorem exists_sequence {β : Type} {f : β → Outcome α} {bs : List β}
    (h : ∀ b ∈ bs, ∃ a, f b = .ok a) : ∃ ys : List α, bs.map f = ys.map .ok := by
  induction bs with
  | nil => exact ⟨[], rfl⟩
  | cons b bs ih =>
      obtain ⟨⟨a, ha⟩, hbs⟩ := List.forall_mem_cons.mp h
      obtain ⟨ys, hys⟩ := ih hbs
      exact ⟨a :: ys, by rw [List.map_cons, List.map_cons, ha, hys]⟩

/-- What a successful sequence holds comes from its elements. -/
theorem exists_of_mem_sequence {β : Type} {f : β → Outcome α} {bs : List β}
    (h : bs.map f = ys.map .ok) {y : α} (hy : y ∈ ys) : ∃ b ∈ bs, f b = .ok y := by
  have hmem : Except.ok y ∈ bs.map f := h ▸ List.mem_map.mpr ⟨y, hy, rfl⟩
  exact List.mem_map.mp hmem

end

variable (g : Generator)

/-! ## Expressions -/

theorem exprs_eq_map (es : List Template.Expr) : g.exprs es = es.map g.expr := by
  induction es with
  | nil => rfl
  | cons e es ih => rw [exprs, ih, List.map_cons]

/-- A named argument with the outcome of its value. -/
def namedOutcome (a : NamedArgument Template.Expr) : NamedArgument (Outcome Program.Expr) :=
  ⟨a.name, g.expr a.value, a.nameSpan, a.span⟩

theorem named_eq_map (as : List (NamedArgument Template.Expr)) :
    g.named as = as.map g.namedOutcome := by
  induction as with
  | nil => rfl
  | cons a as ih => rw [named, ih, List.map_cons, namedOutcome]

/-- What an expression becomes, by what its parts become. -/
inductive ExprStep : Template.Expr → Program.Expr → Prop
  | literal {value s} : ExprStep (.literal value s) (.literal value s)
  | var {name s} : ExprStep (.var name s) (.var name s)
  | binary {op l l' r r' s} (hl : g.expr l = .ok l') (hr : g.expr r = .ok r') :
      ExprStep (.binary op l r s) (.binary op l' r' s)
  | unary {op e e' s} (he : g.expr e = .ok e') : ExprStep (.unary op e s) (.unary op e' s)
  | filter {name e e' args args' s} (he : g.expr e = .ok e')
      (ha : args.map g.expr = args'.map .ok) :
      ExprStep (.filter name e args s) (.filter name e' args' s)
  | index {e e' p p' s} (he : g.expr e = .ok e') (hp : g.expr p = .ok p') :
      ExprStep (.index e p s) (.index e' p' s)
  | member {e e' name s} (he : g.expr e = .ok e') :
      ExprStep (.attribute e name s) (.attribute e' name s)
  | invoke {f args named as s call bound}
      (hc : (Template.Expr.call f args named as s).macroCall? g.table = some call)
      (hb : g.bound call.name s (g.exprs args) (g.named named) = .ok bound) :
      ExprStep (.call f args named as s) (.invoke bound s)
  | call {f f' args args' named named' as s}
      (hc : (Template.Expr.call f args named as s).macroCall? g.table = none)
      (hf : g.expr f = .ok f') (ha : args.map g.expr = args'.map .ok)
      (hn : named.map (namedArgument ∘ g.namedOutcome) = named'.map .ok) :
      ExprStep (.call f args named as s) (.call f' args' named' as s)

theorem expr_eq_ok_iff {e : Template.Expr} {e' : Program.Expr} :
    g.expr e = .ok e' ↔ g.ExprStep e e' := by
  constructor
  · intro h
    match e with
    | .literal value s =>
        obtain rfl := Except.ok.inj h
        exact .literal
    | .var name s =>
        obtain rfl := Except.ok.inj h
        exact .var
    | .binary op l r s =>
        simp only [expr, Except.bind_eq_ok_iff] at h
        obtain ⟨l', hl, r', hr, heq⟩ := h
        obtain rfl := Except.ok.inj heq
        exact .binary hl hr
    | .unary op e s =>
        simp only [expr, Except.bind_eq_ok_iff] at h
        obtain ⟨e', he, heq⟩ := h
        obtain rfl := Except.ok.inj heq
        exact .unary he
    | .filter name e args s =>
        simp only [expr, Except.bind_eq_ok_iff, exprs_eq_map, sequence_eq_ok_iff] at h
        obtain ⟨e', he, args', ha, heq⟩ := h
        obtain rfl := Except.ok.inj heq
        exact .filter he ha
    | .index e p s =>
        simp only [expr, Except.bind_eq_ok_iff] at h
        obtain ⟨e', he, p', hp, heq⟩ := h
        obtain rfl := Except.ok.inj heq
        exact .index he hp
    | .attribute e name s =>
        simp only [expr, Except.bind_eq_ok_iff] at h
        obtain ⟨e', he, heq⟩ := h
        obtain rfl := Except.ok.inj heq
        exact .member he
    | .call f args named as s =>
        rw [expr] at h
        split at h
        · next call hc =>
            simp only [Except.bind_eq_ok_iff] at h
            obtain ⟨bound, hb, heq⟩ := h
            obtain rfl := Except.ok.inj heq
            exact .invoke hc hb
        · next hc =>
            simp only [Except.bind_eq_ok_iff, exprs_eq_map, named_eq_map, sequence_eq_ok_iff,
              List.map_map] at h
            obtain ⟨f', hf, args', ha, named', hn, heq⟩ := h
            obtain rfl := Except.ok.inj heq
            exact .call hc hf ha hn
  · intro h
    cases h with
    | literal | var => rfl
    | binary hl hr => rw [expr, hl, hr]; rfl
    | unary he | member he => rw [expr, he]; rfl
    | filter he ha => rw [expr, he, exprs_eq_map, sequence_eq_ok_iff.mpr ha]; rfl
    | index he hp => rw [expr, he, hp]; rfl
    | invoke hc hb =>
        rw [expr]
        simp only [hc, hb]
        rfl
    | call hc hf ha hn =>
        rw [expr]
        simp only [hc, hf, exprs_eq_map, named_eq_map, List.map_map, sequence_eq_ok_iff.mpr ha,
          sequence_eq_ok_iff.mpr hn]
        rfl

/-! ## Operations -/

/-- One arm of a branch. -/
def arm (a : Arm Node) : Outcome (Program.Arm Program.Operation) := do
  let condition ← g.expr? a.condition
  return ⟨condition, ← g.block a.body⟩

theorem arms_eq_sequence (as : List (Arm Node)) : g.arms as = sequence (as.map g.arm) := by
  induction as with
  | nil => rfl
  | cons a as ih =>
      rw [arms, ih, List.map_cons, sequence, arm]
      simp only [block, bind_assoc, pure_bind]

theorem operations_eq_ok_iff {ns : List Node} {ops : List Program.Operation} :
    g.operations ns = .ok ops ↔
      ∃ os : List (Option Program.Operation),
        ns.map g.operation? = os.map .ok ∧ ops = os.filterMap id := by
  induction ns generalizing ops with
  | nil => simp [operations, eq_comm]
  | cons n ns ih =>
      rw [operations]
      simp only [Except.bind_eq_ok_iff, ih]
      constructor
      · rintro ⟨o, ho, rest, ⟨os, hos, rfl⟩, heq⟩
        obtain rfl := Except.ok.inj heq
        refine ⟨o :: os, by rw [List.map_cons, List.map_cons, ho, hos], ?_⟩
        cases o <;> rfl
      · rintro ⟨os, hos, rfl⟩
        cases os with
        | nil => cases hos
        | cons o os =>
            obtain ⟨ho, hos⟩ := List.cons.inj hos
            refine ⟨o, ho, _, ⟨os, hos, rfl⟩, ?_⟩
            cases o <;> rfl

theorem block_eq_ok_iff {ns : List Node} {ops : List Program.Operation} :
    g.block ns = .ok ops ↔
      ∃ os : List (Option Program.Operation),
        ns.map g.operation? = os.map .ok ∧ joinLiterals none (os.filterMap id) = .ok ops := by
  rw [block, Except.bind_eq_ok_iff]
  simp only [operations_eq_ok_iff]
  constructor
  · rintro ⟨_, ⟨os, hos, rfl⟩, hjoin⟩
    exact ⟨os, hos, hjoin⟩
  · rintro ⟨os, hos, hjoin⟩
    exact ⟨_, ⟨os, hos, rfl⟩, hjoin⟩

/-- What a node that does not vanish becomes. -/
inductive NodeStep : Node → Program.Operation → Prop
  | literal {value s} (hv : value.isEmpty = false) : NodeStep (.text value s) (.literal value s)
  | invoke {e s call bound} (hc : e.macroCall? g.table = some call)
      (hb : g.macroCall call = .ok bound) : NodeStep (.output e s) (.invoke bound none s)
  | emit {e e' s} (hc : e.macroCall? g.table = none) (he : g.expr e = .ok e') :
      NodeStep (.output e s) (.emit e' g.escaper s)
  | branch {arms arms' s} (ha : arms.map g.arm = arms'.map .ok) :
      NodeStep (.branch arms s) (.branch arms' s)
  | loop {targets e e' body body' otherwise otherwise' s} (he : g.expr e = .ok e')
      (hb : g.block body = .ok body') (ho : g.block otherwise = .ok otherwise') :
      NodeStep (.loop targets e body otherwise s) (.loop targets e' body' otherwise' s)
  | callBlock {call bound body ops s} (hb : g.macroCall call = .ok bound)
      (ho : g.block body = .ok ops) :
      NodeStep (.callBlock call body s) (.invoke bound (some ops) s)
  | inclusion {path program s} (hp : g.includes.lookup s = some program) :
      NodeStep (.inclusion path s) (.inclusion path program s)
  | store {name e e' s} (he : g.expr e = .ok e') :
      NodeStep (.assignment name e s) (.store name e' s)

theorem operation?_eq_some_iff {n : Node} {op : Program.Operation} :
    g.operation? n = .ok (some op) ↔ g.NodeStep n op := by
  constructor
  · intro h
    cases n with
    | text value s =>
        have h := Except.ok.inj h
        split at h
        · cases h
        · next hv =>
            obtain rfl := Option.some.inj h
            exact .literal (by simpa using hv)
    | output e s =>
        obtain ⟨op', hop, heq⟩ := Except.bind_eq_ok_iff.mp h
        obtain rfl := Option.some.inj (Except.ok.inj heq)
        unfold output at hop
        split at hop
        · next call hc =>
            obtain ⟨bound, hb, heq⟩ := Except.bind_eq_ok_iff.mp hop
            obtain rfl := Except.ok.inj heq
            exact .invoke hc hb
        · next hc =>
            obtain ⟨e', he, heq⟩ := Except.bind_eq_ok_iff.mp hop
            obtain rfl := Except.ok.inj heq
            exact .emit hc he
    | branch arms s =>
        rw [operation?, arms_eq_sequence, Except.bind_eq_ok_iff] at h
        obtain ⟨arms', ha, heq⟩ := h
        obtain rfl := Option.some.inj (Except.ok.inj heq)
        exact .branch (sequence_eq_ok_iff.mp ha)
    | loop targets e body otherwise s =>
        simp only [operation?, Except.bind_eq_ok_iff] at h
        obtain ⟨e', he, bodyOps, hbody, body', hbody', otherOps, hother, otherwise', hother',
          heq⟩ := h
        obtain rfl := Option.some.inj (Except.ok.inj heq)
        exact .loop he (Except.bind_eq_ok_iff.mpr ⟨bodyOps, hbody, hbody'⟩)
          (Except.bind_eq_ok_iff.mpr ⟨otherOps, hother, hother'⟩)
    | definition d => cases h
    | callBlock call body s =>
        simp only [operation?, Except.bind_eq_ok_iff] at h
        obtain ⟨bound, hb, ops, hops, joined, hjoined, heq⟩ := h
        obtain rfl := Option.some.inj (Except.ok.inj heq)
        exact .callBlock hb (Except.bind_eq_ok_iff.mpr ⟨ops, hops, hjoined⟩)
    | inclusion path s =>
        rw [operation?] at h
        split at h
        · cases h
        · next program hp =>
            obtain rfl := Option.some.inj (Except.ok.inj h)
            exact .inclusion hp
    | assignment name e s =>
        obtain ⟨e', he, heq⟩ := Except.bind_eq_ok_iff.mp h
        obtain rfl := Option.some.inj (Except.ok.inj heq)
        exact .store he
  · intro h
    cases h with
    | literal hv => rw [operation?, hv]; rfl
    | invoke hc hb => simp only [operation?, output, hc, hb]; rfl
    | emit hc he => simp only [operation?, output, hc, he]; rfl
    | branch ha => rw [operation?, arms_eq_sequence, sequence_eq_ok_iff.mpr ha]; rfl
    | loop he hb ho =>
        obtain ⟨bodyOps, hbody, hb⟩ := Except.bind_eq_ok_iff.mp hb
        obtain ⟨otherOps, hother, ho⟩ := Except.bind_eq_ok_iff.mp ho
        simp only [operation?, Except.bind_eq_ok_iff]
        exact ⟨_, he, _, hbody, _, hb, _, hother, _, ho, rfl⟩
    | callBlock hb ho =>
        obtain ⟨ops, hops, ho⟩ := Except.bind_eq_ok_iff.mp ho
        simp only [operation?, Except.bind_eq_ok_iff]
        exact ⟨_, hb, _, hops, _, ho, rfl⟩
    | inclusion hp => rw [operation?, hp]
    | store he => rw [operation?, he]; rfl

/-- Joining makes no operations but literals. -/
theorem mem_of_joinLiterals {pending : Option (String × Span)} {ops joined : List Program.Operation}
    (h : joinLiterals pending ops = .ok joined) {op : Program.Operation} (hop : op ∈ joined) :
    (∃ text span, op = .literal text span) ∨ op ∈ ops := by
  have hflush : ∀ pending, op ∈ flush pending → ∃ text span, op = .literal text span := by
    rintro (_ | ⟨text, span⟩) hmem
    · cases hmem
    · exact ⟨text, span, List.mem_singleton.mp hmem⟩
  induction pending, ops using joinLiterals.induct generalizing joined with
  | case1 pending =>
      obtain rfl := Except.ok.inj h
      exact .inl (hflush pending hop)
  | case2 text span rest ih =>
      rw [joinLiterals] at h
      exact (ih h hop).imp_right (List.mem_cons_of_mem _)
  | case3 text span rest before start r hr =>
      rw [joinLiterals] at h
      simp only [hr] at h
      cases h
  | case4 text span rest before start joinedSpan hspan ih =>
      rw [joinLiterals] at h
      simp only [hspan] at h
      exact (ih h hop).imp_right (List.mem_cons_of_mem _)
  | case5 pending other rest hother ih =>
      rw [joinLiterals, Except.bind_eq_ok_iff] at h
      · obtain ⟨after, hafter, heq⟩ := h
        obtain rfl := Except.ok.inj heq
        rcases List.mem_append.mp hop with hop | hop
        · exact .inl (hflush pending hop)
        · rcases List.mem_cons.mp hop with rfl | hop
          · exact .inr List.mem_cons_self
          · exact (ih hafter hop).imp_right (List.mem_cons_of_mem _)
      · exact hother

end Generator

end TemplateCompiler
