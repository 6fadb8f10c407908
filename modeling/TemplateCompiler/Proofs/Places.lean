import Mathlib.Data.List.Nodup
import Mathlib.Data.Prod.Basic
import TemplateCompiler.Template.Walk

/-!
# Places in a template

A place is a path from a node or an expression down to one of its parts, a step for each part that
is entered. What stands at a place does not depend on any traversal, so it says what a traversal
should yield: `Enumerates xs At` says that the list `xs` holds what stands at the places of `At`,
each place once.

Trees of both kinds are given by the parts that a tree has, each with the step that leads to it.
That a traversal in preorder enumerates the places of its tree is one induction for both.
-/

namespace TemplateCompiler

/-! ## Enumerations -/

section

variable {π ρ α β : Type}

/-- The list holds what stands at the places of `At`, each place once. -/
def Enumerates (xs : List α) (At : π → α → Prop) : Prop :=
  ∃ placed : List (π × α), placed.map Prod.snd = xs ∧ (placed.map Prod.fst).Nodup ∧
    ∀ p x, (p, x) ∈ placed ↔ At p x

namespace Enumerates

variable {xs ys : List α} {At Bt : π → α → Prop}

theorem congr (h : Enumerates xs At) (hAt : ∀ p x, At p x ↔ Bt p x) : Enumerates xs Bt := by
  obtain ⟨placed, hxs, hnodup, hmem⟩ := h
  exact ⟨placed, hxs, hnodup, fun p x => (hmem p x).trans (hAt p x)⟩

theorem nil : Enumerates [] fun (_ : π) (_ : α) => False :=
  ⟨[], rfl, List.nodup_nil, fun _ _ => by simp⟩

theorem singleton (p : π) (x : α) : Enumerates [x] fun q y => q = p ∧ y = x := by
  refine ⟨[(p, x)], rfl, List.nodup_singleton p, fun q y => ?_⟩
  rw [List.mem_singleton, Prod.mk.injEq]

theorem indexed (xs : List α) : Enumerates xs fun (i : Nat) x => xs[i]? = some x := by
  refine ⟨xs.zipIdx.map Prod.swap, ?_, ?_, fun i x => ?_⟩
  · simp [List.map_map, Function.comp_def]
  · rw [List.map_map]
    simpa [Function.comp_def] using List.nodup_range'
  · simp [List.mem_zipIdx_iff_getElem?]

/-- Two lists with no place in common. -/
theorem append (hx : Enumerates xs At) (hy : Enumerates ys Bt)
    (hne : ∀ p x y, At p x → ¬ Bt p y) : Enumerates (xs ++ ys) fun p x => At p x ∨ Bt p x := by
  obtain ⟨us, rfl, hus, hmemu⟩ := hx
  obtain ⟨vs, rfl, hvs, hmemv⟩ := hy
  refine ⟨us ++ vs, List.map_append, ?_, fun p x => ?_⟩
  · rw [List.map_append]
    refine hus.append hvs fun p hpu hpv => ?_
    obtain ⟨⟨p, x⟩, hx, rfl⟩ := List.mem_map.mp hpu
    obtain ⟨⟨q, y⟩, hy, heq⟩ := List.mem_map.mp hpv
    obtain rfl : q = p := heq
    exact hne q x y ((hmemu q x).mp hx) ((hmemv q y).mp hy)
  · rw [List.mem_append, hmemu, hmemv]

/-- The same things at other places. -/
theorem relabel (h : Enumerates xs At) {f : π → ρ} (hf : Function.Injective f) :
    Enumerates xs fun q x => ∃ p, q = f p ∧ At p x := by
  obtain ⟨placed, rfl, hnodup, hmem⟩ := h
  refine ⟨placed.map fun px => (f px.1, px.2), ?_, ?_, fun q x => ?_⟩
  · rw [List.map_map]
    rfl
  · have hmap := hnodup.map hf
    rwa [List.map_map] at hmap ⊢
  · rw [List.mem_map]
    constructor
    · rintro ⟨⟨p, y⟩, hy, heq⟩
      obtain ⟨rfl, rfl⟩ := Prod.mk.inj heq
      exact ⟨p, rfl, (hmem p y).mp hy⟩
    · rintro ⟨p, rfl, hp⟩
      exact ⟨(p, x), (hmem p x).mpr hp, rfl⟩

theorem filterMap (h : Enumerates xs At) (f : α → Option β) :
    Enumerates (xs.filterMap f) fun p y => ∃ x, At p x ∧ f x = some y := by
  obtain ⟨placed, rfl, hnodup, hmem⟩ := h
  refine ⟨placed.filterMap fun px => (f px.2).map (px.1, ·), ?_, ?_, fun p y => ?_⟩
  · rw [List.map_filterMap, List.filterMap_map]
    congr 1
    funext px
    cases h : f px.2 <;> simp [h]
  · refine hnodup.sublist ?_
    clear hmem hnodup
    induction placed with
    | nil => exact .slnil
    | cons px placed ih =>
        cases hf : f px.2 with
        | none => simpa [hf] using ih.cons px.1
        | some y => simpa [hf] using ih.cons_cons px.1
  · simp only [List.mem_filterMap, Option.map_eq_some_iff, Prod.mk.injEq]
    constructor
    · rintro ⟨⟨q, x⟩, hx, y, hy, rfl, rfl⟩
      exact ⟨x, (hmem q x).mp hx, hy⟩
    · rintro ⟨x, hx, hy⟩
      exact ⟨(p, x), (hmem p x).mpr hx, y, hy, rfl, rfl⟩

theorem map (h : Enumerates xs At) (f : α → β) :
    Enumerates (xs.map f) fun p y => ∃ x, At p x ∧ f x = y := by
  rw [← List.filterMap_eq_map]
  refine (h.filterMap (some ∘ f)).congr fun p y => ?_
  simp only [Function.comp_apply, Option.some.injEq]

/-- A list of lists: a place in it is the place of a list and a place in that one. -/
theorem flatMap {f : α → List β} {Ft : α → ρ → β → Prop} (h : Enumerates xs At)
    (hf : ∀ p x, At p x → Enumerates (f x) (Ft x)) :
    Enumerates (xs.flatMap f) fun (q : π × ρ) y => ∃ x, At q.1 x ∧ Ft x q.2 y := by
  obtain ⟨placed, rfl, hnodup, hmem⟩ := h
  have hinner : ∀ px ∈ placed, Enumerates (f px.2) (Ft px.2) :=
    fun px hpx => hf px.1 px.2 ((hmem px.1 px.2).mp hpx)
  choose! inner hvalues hinnodup hinmem using hinner
  refine ⟨placed.flatMap fun px => (inner px).map fun qy => ((px.1, qy.1), qy.2), ?_, ?_, ?_⟩
  · rw [List.map_flatMap, List.flatMap_map]
    refine List.flatMap_congr fun px hpx => ?_
    rw [← hvalues px hpx, List.map_map]
    rfl
  · rw [List.map_flatMap]
    refine List.nodup_flatMap.mpr ⟨fun px hpx => ?_, ?_⟩
    · have hmap := (hinnodup px hpx).map (Prod.mk_right_injective px.1)
      rwa [List.map_map] at hmap ⊢
    · refine (List.pairwise_map.mp hnodup).imp fun {px px'} hne => ?_
      intro q hq hq'
      simp only [List.map_map, List.mem_map, Function.comp_apply] at hq hq'
      obtain ⟨_, -, rfl⟩ := hq
      obtain ⟨_, -, heq⟩ := hq'
      exact hne (Prod.mk.inj heq).1.symm
  · rintro ⟨p, q⟩ y
    simp only [List.mem_flatMap, List.mem_map]
    constructor
    · rintro ⟨⟨p', x⟩, hx, ⟨q', y'⟩, hy, heq⟩
      obtain ⟨hp, rfl⟩ := Prod.mk.inj heq
      obtain ⟨rfl, rfl⟩ := Prod.mk.inj hp
      exact ⟨x, (hmem _ _).mp hx, (hinmem _ hx _ _).mp hy⟩
    · rintro ⟨x, hx, hy⟩
      have hpx := (hmem p x).mpr hx
      exact ⟨(p, x), hpx, (q, y), (hinmem _ hpx _ _).mpr hy, rfl⟩

/-- Things at different places differ in `f` if no two of the list agree in it. -/
theorem eq_of_nodup_map {f : α → β} (h : Enumerates xs At) (hnodup : (xs.map f).Nodup) {p q : π}
    {x y : α} (hp : At p x) (hq : At q y) (hf : f x = f y) : p = q := by
  obtain ⟨placed, rfl, -, hmem⟩ := h
  rw [List.map_map] at hnodup
  have hpq := List.inj_on_of_nodup_map hnodup ((hmem p x).mpr hp) ((hmem q y).mpr hq) hf
  exact (Prod.mk.inj hpq).1

theorem mem_iff (h : Enumerates xs At) {x : α} : x ∈ xs ↔ ∃ p, At p x := by
  obtain ⟨placed, rfl, -, hmem⟩ := h
  rw [List.mem_map]
  constructor
  · rintro ⟨⟨p, _⟩, hp, rfl⟩
    exact ⟨p, (hmem _ _).mp hp⟩
  · rintro ⟨p, hp⟩
    exact ⟨(p, x), (hmem p x).mpr hp, rfl⟩

end Enumerates

end

/-! ## Trees -/

section

variable {σ τ : Type} {Part : τ → σ → τ → Prop}

theorem sizeOf_lt_of_getElem? {α : Type} [SizeOf α] {xs : List α} {i : Nat} {a : α}
    (h : xs[i]? = some a) : sizeOf a < sizeOf xs :=
  List.sizeOf_lt_of_mem (List.mem_of_getElem? h)

/-- What stands in a tree, and the steps that lead there. -/
inductive Stands (Part : τ → σ → τ → Prop) : τ → List σ → τ → Prop
  | here {t} : Stands Part t [] t
  | within {t u v step path} (hu : Part t step u) (h : Stands Part u path v) :
      Stands Part t (step :: path) v

/-- What stands in the parts of some whole. -/
def StandsAmong (Part : τ → σ → τ → Prop) (Root : σ → τ → Prop) (path : List σ) (v : τ) : Prop :=
  ∃ step u rest, path = step :: rest ∧ Root step u ∧ Stands Part u rest v

theorem stands_iff {t v : τ} {path : List σ} :
    Stands Part t path v ↔ path = [] ∧ v = t ∨ StandsAmong Part (Part t) path v := by
  constructor
  · rintro (_ | ⟨hu, h⟩)
    · exact .inl ⟨rfl, rfl⟩
    · exact .inr ⟨_, _, _, rfl, hu, h⟩
  · rintro (⟨rfl, rfl⟩ | ⟨step, u, rest, rfl, hu, h⟩)
    · exact .here
    · exact .within hu h

theorem Stands.trans {t u v : τ} {p q : List σ} (hu : Stands Part t p u) (hv : Stands Part u q v) :
    Stands Part t (p ++ q) v := by
  induction hu with
  | here => exact hv
  | within hpart _ ih => exact .within hpart (ih hv)

/-- Several trees, by what is known of each. -/
theorem Enumerates.roots {walk : τ → List τ} {roots : List τ} {Root : σ → τ → Prop}
    (h : Enumerates roots Root)
    (hwalk : ∀ step t, Root step t → Enumerates (walk t) (Stands Part t)) :
    Enumerates (roots.flatMap walk) (StandsAmong Part Root) := by
  have hcons : Function.Injective fun q : σ × List σ => q.1 :: q.2 := by
    rintro ⟨a, as⟩ ⟨b, bs⟩ h
    obtain ⟨rfl, rfl⟩ := List.cons.inj h
    rfl
  refine ((h.flatMap hwalk).relabel hcons).congr fun path v => ?_
  constructor
  · rintro ⟨⟨step, rest⟩, rfl, t, ht, h⟩
    exact ⟨step, t, rest, rfl, ht, h⟩
  · rintro ⟨step, t, rest, rfl, ht, h⟩
    exact ⟨(step, rest), rfl, t, ht, h⟩

/-- A traversal that yields a tree before what is in its parts enumerates the tree. -/
theorem Enumerates.tree [SizeOf τ] {children walk : τ → List τ}
    (hchildren : ∀ t, Enumerates (children t) (Part t))
    (hwalk : ∀ t, walk t = t :: (children t).flatMap walk)
    (hsize : ∀ t step u, Part t step u → sizeOf u < sizeOf t) (t : τ) :
    Enumerates (walk t) (Stands Part t) := by
  have hparts : Enumerates ((children t).flatMap walk) (StandsAmong Part (Part t)) :=
    (hchildren t).roots fun step u hu => Enumerates.tree hchildren hwalk hsize u
  have hall := (Enumerates.singleton [] t).append hparts fun path x y hx hy => by
    obtain ⟨step, u, rest, hcons, -⟩ := hy
    exact List.cons_ne_nil step rest (hcons.symm.trans hx.1)
  rw [hwalk t]
  exact hall.congr fun path v => stands_iff.symm
termination_by sizeOf t
decreasing_by exact hsize t step u hu

end

/-! ## Expressions -/

namespace Template

/-- The step from an expression to one of its parts. -/
inductive Expr.Step where
  | left
  | right
  | operand
  | value
  | position
  | func
  | argument (index : Nat)
  | named (index : Nat)

inductive Expr.Part : Expr → Expr.Step → Expr → Prop
  | left {op l r s} : Part (.binary op l r s) .left l
  | right {op l r s} : Part (.binary op l r s) .right r
  | operand {op e s} : Part (.unary op e s) .operand e
  | filtered {name e args s} : Part (.filter name e args s) .value e
  | filterArgument {name e args s i a} (h : args[i]? = some a) :
      Part (.filter name e args s) (.argument i) a
  | indexed {e p s} : Part (.index e p s) .value e
  | position {e p s} : Part (.index e p s) .position p
  | owner {e name s} : Part (.attribute e name s) .value e
  | func {f args named as s} : Part (.call f args named as s) .func f
  | argument {f args named as s i a} (h : args[i]? = some a) :
      Part (.call f args named as s) (.argument i) a
  | named {f args named as s i a} (h : named[i]? = some a) :
      Part (.call f args named as s) (.named i) a.value

def Expr.children : Expr → List Expr
  | .literal _ _ | .var _ _ => []
  | .binary _ left right _ => [left, right]
  | .unary _ operand _ => [operand]
  | .filter _ value args _ => value :: args
  | .index value position _ => [value, position]
  | .attribute value _ _ => [value]
  | .call func args named _ _ => func :: (args ++ named.map (·.value))

theorem walkExprs_eq_flatMap (es : List Expr) : walkExprs es = es.flatMap (·.walk) := by
  induction es with
  | nil => rfl
  | cons e es ih => rw [walkExprs, List.flatMap_cons, ih]

theorem walkNamed_eq_flatMap (as : List (NamedArgument Expr)) :
    walkNamed as = (as.map (·.value)).flatMap (·.walk) := by
  induction as with
  | nil => rfl
  | cons a as ih => rw [walkNamed, List.map_cons, List.flatMap_cons, ih]

theorem Expr.walk_eq (e : Expr) : e.walk = e :: e.children.flatMap (·.walk) := by
  cases e <;>
    simp [walk, children, walkExprs_eq_flatMap, walkNamed_eq_flatMap, List.flatMap_append]

/-- `P` holds of the expression and of all expressions inside it. -/
def Expr.Throughout (P : Expr → Prop) (e : Expr) : Prop :=
  ∀ x ∈ e.walk, P x

instance {P : Expr → Prop} [DecidablePred P] (e : Expr) : Decidable (e.Throughout P) :=
  inferInstanceAs (Decidable (∀ x ∈ e.walk, P x))

theorem Expr.throughout_iff {P : Expr → Prop} {e : Expr} :
    e.Throughout P ↔ P e ∧ ∀ x ∈ e.children, x.Throughout P := by
  unfold Throughout
  rw [e.walk_eq, List.forall_mem_cons]
  refine and_congr_right' ⟨fun h x hx y hy => h y (List.mem_flatMap.mpr ⟨x, hx, hy⟩), ?_⟩
  intro h y hy
  obtain ⟨x, hx, hy⟩ := List.mem_flatMap.mp hy
  exact h x hx y hy

theorem Expr.children_enumerates (e : Expr) : Enumerates e.children (Expr.Part e) := by
  have hargs : ∀ es : List Expr,
      Enumerates es fun q x => ∃ i, q = Expr.Step.argument i ∧ es[i]? = some x :=
    fun es => (Enumerates.indexed es).relabel fun _ _ h => by injection h
  match e with
  | .literal _ _ | .var _ _ => exact Enumerates.nil.congr fun q x => ⟨nofun, nofun⟩
  | .binary op l r s =>
      refine ((Enumerates.singleton .left l).append (.singleton .right r) ?_).congr fun q x => ?_
      · rintro q x y ⟨rfl, -⟩ ⟨hq, -⟩
        cases hq
      · constructor
        · rintro (⟨rfl, rfl⟩ | ⟨rfl, rfl⟩)
          · exact .left
          · exact .right
        · intro h
          cases h with
          | left => exact .inl ⟨rfl, rfl⟩
          | right => exact .inr ⟨rfl, rfl⟩
  | .unary op e s =>
      refine (Enumerates.singleton .operand e).congr fun q x => ⟨?_, ?_⟩
      · rintro ⟨rfl, rfl⟩
        exact .operand
      · rintro ⟨⟩
        exact ⟨rfl, rfl⟩
  | .filter name e args s =>
      refine ((Enumerates.singleton .value e).append (hargs args) ?_).congr fun q x => ?_
      · rintro q x y ⟨rfl, -⟩ ⟨i, hq, -⟩
        cases hq
      · constructor
        · rintro (⟨rfl, rfl⟩ | ⟨i, rfl, hi⟩)
          · exact .filtered
          · exact .filterArgument hi
        · intro h
          cases h with
          | filtered => exact .inl ⟨rfl, rfl⟩
          | filterArgument hi => exact .inr ⟨_, rfl, hi⟩
  | .index e p s =>
      have hparts := (Enumerates.singleton Step.value e).append (.singleton Step.position p)
      refine (hparts ?_).congr fun q x => ?_
      · rintro q x y ⟨rfl, -⟩ ⟨hq, -⟩
        cases hq
      · constructor
        · rintro (⟨rfl, rfl⟩ | ⟨rfl, rfl⟩)
          · exact .indexed
          · exact .position
        · intro h
          cases h with
          | indexed => exact .inl ⟨rfl, rfl⟩
          | position => exact .inr ⟨rfl, rfl⟩
  | .attribute e name s =>
      refine (Enumerates.singleton .value e).congr fun q x => ⟨?_, ?_⟩
      · rintro ⟨rfl, rfl⟩
        exact .owner
      · rintro ⟨⟩
        exact ⟨rfl, rfl⟩
  | .call f args named as s =>
      have hnamed := ((Enumerates.indexed named).map (·.value)).relabel
        (f := Step.named) fun _ _ h => by injection h
      have hboth := (hargs args).append hnamed fun q x y hx hy => by
        obtain ⟨i, rfl, -⟩ := hx
        obtain ⟨j, hq, -⟩ := hy
        cases hq
      refine ((Enumerates.singleton .func f).append hboth ?_).congr fun q x => ?_
      · rintro q x y ⟨rfl, -⟩ (⟨i, hq, -⟩ | ⟨i, hq, -⟩) <;> cases hq
      · constructor
        · rintro (⟨rfl, rfl⟩ | ⟨i, rfl, hi⟩ | ⟨i, rfl, a, hi, rfl⟩)
          · exact .func
          · exact .argument hi
          · exact .named hi
        · intro h
          cases h with
          | func => exact .inl ⟨rfl, rfl⟩
          | argument hi => exact .inr (.inl ⟨_, rfl, hi⟩)
          | named hi => exact .inr (.inr ⟨_, rfl, _, hi, rfl⟩)

theorem Expr.Part.sizeOf_lt {e x : Expr} {step : Expr.Step} (h : Part e step x) :
    sizeOf x < sizeOf e := by
  cases h with
  | filterArgument h | argument h =>
      have := sizeOf_lt_of_getElem? h
      simp +arith only [filter.sizeOf_spec, call.sizeOf_spec]
      omega
  | @named _ _ _ _ _ _ a h =>
      have := sizeOf_lt_of_getElem? h
      have : sizeOf a.value < sizeOf a := by cases a; simp +arith
      simp only [call.sizeOf_spec]
      omega
  | _ => simp +arith

/-- Induction over an expression, with what holds of every part of it. -/
theorem Expr.parts_induction {P : Expr → Prop} (literal : ∀ value s, P (.literal value s))
    (var : ∀ name s, P (.var name s))
    (binary : ∀ op l r s, P l → P r → P (.binary op l r s))
    (unary : ∀ op e s, P e → P (.unary op e s))
    (filter : ∀ name e args s, P e → (∀ a ∈ args, P a) → P (.filter name e args s))
    (index : ∀ e p s, P e → P p → P (.index e p s))
    (member : ∀ e name s, P e → P (.attribute e name s))
    (call : ∀ f args named as s, P f → (∀ a ∈ args, P a) → (∀ a ∈ named, P a.value) →
      P (.call f args named as s)) (e : Expr) : P e := by
  refine (measure (sizeOf : Expr → Nat)).wf.induction e fun e ih => ?_
  have hpart : ∀ {step x}, Part e step x → P x := fun hx => ih _ hx.sizeOf_lt
  have hlist : ∀ {args : List Expr} {step : Nat → Step},
      (∀ {i a}, args[i]? = some a → Part e (step i) a) → ∀ a ∈ args, P a := by
    intro args step h a ha
    obtain ⟨i, hi⟩ := List.mem_iff_getElem?.mp ha
    exact hpart (h hi)
  match e with
  | .literal value s => exact literal value s
  | .var name s => exact var name s
  | .binary op l r s => exact binary op l r s (hpart .left) (hpart .right)
  | .unary op e s => exact unary op e s (hpart .operand)
  | .filter name e args s => exact filter name e args s (hpart .filtered) (hlist .filterArgument)
  | .index e p s => exact index e p s (hpart .indexed) (hpart .position)
  | .attribute e name s => exact member e name s (hpart .owner)
  | .call f args named as s =>
      refine call f args named as s (hpart .func) (hlist .argument) fun a ha => ?_
      obtain ⟨i, hi⟩ := List.mem_iff_getElem?.mp ha
      exact hpart (.named hi)

/-- Every part of an expression, at any depth. -/
theorem Expr.walk_enumerates (e : Expr) : Enumerates e.walk (Stands Expr.Part e) :=
  Enumerates.tree children_enumerates walk_eq (fun _ _ _ h => h.sizeOf_lt) e

/-! ## Nodes -/

/-- The step from a block to one of the nodes in it. -/
inductive Node.Step where
  | arm (index child : Nat)
  | body (index : Nat)
  | otherwise (index : Nat)

inductive Node.Part : Node → Node.Step → Node → Prop
  | arm {arms s i j arm n} (ha : arms[i]? = some arm) (hn : arm.body[j]? = some n) :
      Part (.branch arms s) (.arm i j) n
  | iterated {targets e body otherwise s i n} (hn : body[i]? = some n) :
      Part (.loop targets e body otherwise s) (.body i) n
  | otherwise {targets e body otherwise s i n} (hn : otherwise[i]? = some n) :
      Part (.loop targets e body otherwise s) (.otherwise i) n
  | definition {d i n} (hn : d.body[i]? = some n) : Part (.definition d) (.body i) n
  | callBlock {call body s i n} (hn : body[i]? = some n) : Part (.callBlock call body s) (.body i) n

def Node.children : Node → List Node
  | .branch arms _ => arms.flatMap (·.body)
  | .loop _ _ body otherwise _ => body ++ otherwise
  | .definition d => d.body
  | .callBlock _ body _ => body
  | .text _ _ | .output _ _ | .inclusion _ _ | .assignment _ _ _ => []

theorem walkAll_eq_flatMap (ns : List Node) : walkAll ns = ns.flatMap (·.walk) := by
  induction ns with
  | nil => rfl
  | cons n ns ih => rw [walkAll, List.flatMap_cons, ih]

theorem walkArms_eq_flatMap (arms : List (Arm Node)) :
    walkArms arms = arms.flatMap fun a => walkAll a.body := by
  induction arms with
  | nil => rfl
  | cons a arms ih => rw [walkArms, List.flatMap_cons, ih]

theorem walkAll_append (ns ms : List Node) : walkAll (ns ++ ms) = walkAll ns ++ walkAll ms := by
  simp only [walkAll_eq_flatMap, List.flatMap_append]

theorem walkArms_append (as bs : List (Arm Node)) :
    walkArms (as ++ bs) = walkArms as ++ walkArms bs := by
  simp only [walkArms_eq_flatMap, List.flatMap_append]

theorem Node.walk_eq (n : Node) : n.walk = n :: n.children.flatMap (·.walk) := by
  cases n <;>
    simp [walk, children, walkArms_eq_flatMap, walkAll_eq_flatMap, List.flatMap_append,
      List.flatMap_assoc]

theorem Node.children_enumerates (n : Node) : Enumerates n.children (Node.Part n) := by
  have hbody : ∀ ns : List Node,
      Enumerates ns fun q x => ∃ i, q = Node.Step.body i ∧ ns[i]? = some x :=
    fun ns => (Enumerates.indexed ns).relabel fun _ _ h => by injection h
  match n with
  | .text _ _ | .output _ _ | .inclusion _ _ | .assignment _ _ _ =>
      exact Enumerates.nil.congr fun q x => ⟨nofun, nofun⟩
  | .branch arms s =>
      have harms := ((Enumerates.indexed arms).flatMap fun _ a _ => .indexed a.body).relabel
        (f := fun ij => Step.arm ij.1 ij.2) (by rintro ⟨⟩ ⟨⟩ ⟨⟩; rfl)
      refine harms.congr fun q x => ?_
      constructor
      · rintro ⟨⟨i, j⟩, rfl, a, ha, hn⟩
        exact .arm ha hn
      · rintro ⟨ha, hn⟩
        exact ⟨⟨_, _⟩, rfl, _, ha, hn⟩
  | .loop targets e body otherwise s =>
      have hotherwise := (Enumerates.indexed otherwise).relabel
        (f := Step.otherwise) fun _ _ h => by injection h
      refine ((hbody body).append hotherwise ?_).congr fun q x => ?_
      · rintro q x y ⟨i, rfl, -⟩ ⟨j, hq, -⟩
        cases hq
      · constructor
        · rintro (⟨i, rfl, hi⟩ | ⟨i, rfl, hi⟩)
          · exact .iterated hi
          · exact .otherwise hi
        · intro h
          cases h with
          | iterated hi => exact .inl ⟨_, rfl, hi⟩
          | otherwise hi => exact .inr ⟨_, rfl, hi⟩
  | .definition d =>
      refine (hbody d.body).congr fun q x => ⟨?_, ?_⟩
      · rintro ⟨i, rfl, hi⟩
        exact .definition hi
      · intro h
        cases h with
        | definition hi => exact ⟨_, rfl, hi⟩
  | .callBlock call body s =>
      refine (hbody body).congr fun q x => ⟨?_, ?_⟩
      · rintro ⟨i, rfl, hi⟩
        exact .callBlock hi
      · intro h
        cases h with
        | callBlock hi => exact ⟨_, rfl, hi⟩

theorem Node.Part.sizeOf_lt {n x : Node} {step : Node.Step} (h : Part n step x) :
    sizeOf x < sizeOf n := by
  cases h with
  | @arm arms s i j a n ha hn =>
      have := sizeOf_lt_of_getElem? ha
      have := sizeOf_lt_of_getElem? hn
      have : sizeOf a.body < sizeOf a := by cases a; simp +arith
      simp only [branch.sizeOf_spec]
      omega
  | iterated hn | otherwise hn | callBlock hn =>
      have := sizeOf_lt_of_getElem? hn
      simp only [loop.sizeOf_spec, callBlock.sizeOf_spec]
      omega
  | @definition d i n hn =>
      have := sizeOf_lt_of_getElem? hn
      have : sizeOf d.body < sizeOf d := by cases d; simp +arith
      simp only [definition.sizeOf_spec]
      omega

/-- Induction over a node, with what holds of every node in its blocks. -/
theorem Node.parts_induction {P : Node → Prop} (text : ∀ value s, P (.text value s))
    (output : ∀ e s, P (.output e s))
    (branch : ∀ arms s, (∀ a ∈ arms, ∀ n ∈ a.body, P n) → P (.branch arms s))
    (loop : ∀ targets e body otherwise s, (∀ n ∈ body, P n) → (∀ n ∈ otherwise, P n) →
      P (.loop targets e body otherwise s))
    (definition : ∀ d, (∀ n ∈ d.body, P n) → P (.definition d))
    (callBlock : ∀ call body s, (∀ n ∈ body, P n) → P (.callBlock call body s))
    (inclusion : ∀ path s, P (.inclusion path s))
    (assignment : ∀ name e s, P (.assignment name e s)) (n : Node) : P n := by
  refine (measure (sizeOf : Node → Nat)).wf.induction n fun n ih => ?_
  have hlist : ∀ {ns : List Node} {step : Nat → Step},
      (∀ {i m}, ns[i]? = some m → Part n (step i) m) → ∀ m ∈ ns, P m := by
    intro ns step h m hm
    obtain ⟨i, hi⟩ := List.mem_iff_getElem?.mp hm
    exact ih _ (h hi).sizeOf_lt
  match n with
  | .text value s => exact text value s
  | .output e s => exact output e s
  | .branch arms s =>
      refine branch arms s fun a ha => ?_
      obtain ⟨i, hi⟩ := List.mem_iff_getElem?.mp ha
      exact hlist (.arm hi)
  | .loop targets e body otherwise s =>
      exact loop targets e body otherwise s (hlist .iterated) (hlist .otherwise)
  | .definition d => exact definition d (hlist .definition)
  | .callBlock call body s => exact callBlock call body s (hlist .callBlock)
  | .inclusion path s => exact inclusion path s
  | .assignment name e s => exact assignment name e s

theorem Node.walk_enumerates (n : Node) : Enumerates n.walk (Stands Node.Part n) :=
  Enumerates.tree children_enumerates walk_eq (fun _ _ _ h => h.sizeOf_lt) n

theorem Node.mem_walk_of_child {n m x : Node} (hm : m ∈ n.children) (hx : x ∈ m.walk) :
    x ∈ n.walk := by
  rw [walk_eq]
  exact List.mem_cons_of_mem _ (List.mem_flatMap.mpr ⟨m, hm, hx⟩)

theorem Node.mem_walk_trans {n m x : Node} (hm : m ∈ n.walk) (hx : x ∈ m.walk) : x ∈ n.walk := by
  obtain ⟨p, hp⟩ := n.walk_enumerates.mem_iff.mp hm
  obtain ⟨q, hq⟩ := m.walk_enumerates.mem_iff.mp hx
  exact n.walk_enumerates.mem_iff.mpr ⟨p ++ q, hp.trans hq⟩

theorem mem_walkAll_trans {ns : List Node} {m x : Node} (hm : m ∈ walkAll ns) (hx : x ∈ m.walk) :
    x ∈ walkAll ns := by
  rw [walkAll_eq_flatMap, List.mem_flatMap] at hm ⊢
  obtain ⟨n, hn, hm⟩ := hm
  exact ⟨n, hn, Node.mem_walk_trans hm hx⟩

/-- Every node of a list, at any depth. -/
theorem walkAll_enumerates (ns : List Node) :
    Enumerates (walkAll ns)
      (StandsAmong Node.Part fun step n => ∃ i, step = .body i ∧ ns[i]? = some n) := by
  rw [walkAll_eq_flatMap]
  refine ((Enumerates.indexed ns).relabel fun _ _ h => by injection h).roots fun _ n _ => ?_
  exact n.walk_enumerates

end Template

/-- The node at a place of a template. -/
def Template.NodeAt (t : Template) : List Template.Node.Step → Template.Node → Prop :=
  StandsAmong Template.Node.Part fun step n => ∃ i, step = .body i ∧ t.body[i]? = some n

end TemplateCompiler
