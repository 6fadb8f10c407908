import Mathlib.Data.List.Chain
import TemplateCompiler.Proofs.GeneratedIncludes
import TemplateCompiler.Proofs.GenerationTotal

/-!
# Programs mirror their templates

What a list of nodes comes to can be read off the list. Definitions are left out. Of what remains,
every run of texts, as long as it can be, is one literal with all of their text, or nothing if there
is none, and every other node is one operation with the span of the node, whose blocks come from
those of the node in the same way. `Mirrors` says so, one rule for each kind of node.

Generation goes through the list once and joins a literal with the one before it, with nodes in
between that come to nothing. The run of texts that has been read so far is what the pending literal
stands for (`joinedText?`).

No rule makes an empty literal, nor two literals in a row, so there are none in a program.
-/

namespace TemplateCompiler

open Template (Node walkAll)
open Program (Operation)

/-! ## Runs of text -/

/-- The text of a run and the span from the first part that is not empty to the last. -/
def joinedText? (run : List (String × Span)) : Option (String × Span) :=
  match run.filter fun part => !part.1.isEmpty with
  | [] => none
  | first :: more => some (String.join (run.map (·.1)),
      ⟨first.2.start, (more.getLast?.getD first).2.stop, first.2.unit⟩)

theorem joinedText?_append_empty (run : List (String × Span)) {value : String} (s : Span)
    (h : value.isEmpty) : joinedText? (run ++ [(value, s)]) = joinedText? run := by
  have hvalue : value = "" := by simpa using h
  have hjoin : String.join (run.map (·.1) ++ [""]) = String.join (run.map (·.1)) := by
    rw [String.join_append]
    simp
  unfold joinedText?
  simp [hvalue, hjoin]

/-- Where no part holds text, all of them hold none together. -/
theorem join_of_joinedText?_none {run : List (String × Span)} (h : joinedText? run = none) :
    run.filter (fun part => !part.1.isEmpty) = [] ∧ String.join (run.map (·.1)) = "" := by
  have hempty : run.filter (fun part => !part.1.isEmpty) = [] := by
    unfold joinedText? at h
    split at h
    · assumption
    · cases h
  refine ⟨hempty, ?_⟩
  clear h
  induction run with
  | nil => rfl
  | cons part run ih =>
      simp only [List.filter_cons] at hempty
      split at hempty
      · cases hempty
      · next hpart => simpa [String.join_cons, ih hempty] using hpart

theorem joinedText?_append_first {run : List (String × Span)} {value : String} {s : Span}
    (h : value.isEmpty = false) (hnone : joinedText? run = none) :
    joinedText? (run ++ [(value, s)]) = some (value, s) := by
  obtain ⟨hempty, hjoin⟩ := join_of_joinedText?_none hnone
  unfold joinedText?
  simp [List.filter_append, hempty, h, String.join_append, hjoin]

theorem joinedText?_append_more {run : List (String × Span)} {value text : String} {s start : Span}
    (h : value.isEmpty = false) (hsome : joinedText? run = some (text, start)) :
    joinedText? (run ++ [(value, s)]) =
      some (text ++ value, ⟨start.start, s.stop, start.unit⟩) := by
  unfold joinedText? at hsome ⊢
  split at hsome
  · cases hsome
  · next first more hfilter =>
      obtain ⟨rfl, rfl⟩ := Prod.mk.inj (Option.some.inj hsome)
      simp [List.filter_append, hfilter, h, String.join_append]

/-! ## Images -/

/-- A part of a template and what it comes to. -/
inductive Image where
  | node (n : Node) (op : Operation)
  /-- Nodes among which there is no definition. -/
  | nodes (ns : List Node) (ops : List Operation)
  | block (ns : List Node) (ops : List Operation)
  | arms (arms : List (Arm Node)) (images : List (Program.Arm Operation))

namespace Generator

/-- What each part of a template comes to. -/
inductive Mirrors (g : Generator) : Image → Prop
  | invoke {e s call bound} (hc : e.macroCall? g.table = some call)
      (hb : g.macroCall call = .ok bound) : Mirrors g (.node (.output e s) (.invoke bound none s))
  | emit {e e' s} (hc : e.macroCall? g.table = none) (he : g.expr e = .ok e') :
      Mirrors g (.node (.output e s) (.emit e' g.escaper s))
  | branch {arms images s} (ha : Mirrors g (.arms arms images)) :
      Mirrors g (.node (.branch arms s) (.branch images s))
  | loop {targets e e' body ops otherwise others s} (he : g.expr e = .ok e')
      (hb : Mirrors g (.block body ops)) (ho : Mirrors g (.block otherwise others)) :
      Mirrors g (.node (.loop targets e body otherwise s) (.loop targets e' ops others s))
  | callBlock {call bound body ops s} (hc : g.macroCall call = .ok bound)
      (hb : Mirrors g (.block body ops)) :
      Mirrors g (.node (.callBlock call body s) (.invoke bound (some ops) s))
  | inclusion {path program s} (hp : g.includes.lookup s = some program) :
      Mirrors g (.node (.inclusion path s) (.inclusion path program s))
  | store {name e e' s} (he : g.expr e = .ok e') :
      Mirrors g (.node (.assignment name e s) (.store name e' s))
  | empty : Mirrors g (.nodes [] [])
  /-- A run of texts that no text follows. -/
  | run {run rest ops} (hrun : run ≠ []) (hrest : ∀ n ∈ rest.head?, n.textSpan? = none)
      (h : Mirrors g (.nodes rest ops)) :
      Mirrors g (.nodes (run.map (fun part => .text part.1 part.2) ++ rest)
        (flush (joinedText? run) ++ ops))
  | cons {n op rest ops} (hn : Mirrors g (.node n op)) (h : Mirrors g (.nodes rest ops)) :
      Mirrors g (.nodes (n :: rest) (op :: ops))
  | block {ns ops} (h : Mirrors g (.nodes (ns.filter (·.definition?.isNone)) ops)) :
      Mirrors g (.block ns ops)
  | noArms : Mirrors g (.arms [] [])
  | arm {arm arms condition ops images} (hc : g.expr? arm.condition = .ok condition)
      (hb : Mirrors g (.block arm.body ops)) (h : Mirrors g (.arms arms images)) :
      Mirrors g (.arms (arm :: arms) (⟨condition, ops⟩ :: images))

variable {g : Generator}

/-! ## Generation -/

/-- Only empty text and definitions come to nothing. -/
theorem operation?_eq_none {n : Node} (h : g.operation? n = .ok none) :
    (∃ s, n = .text "" s) ∨ ∃ d, n = .definition d := by
  cases n with
  | text value s =>
      have hvalue := Except.ok.inj h
      split at hvalue
      · next hempty =>
          obtain rfl : value = "" := by simpa using hempty
          exact .inl ⟨s, rfl⟩
      · cases hvalue
  | definition d => exact .inr ⟨d, rfl⟩
  | inclusion path s =>
      rw [operation?] at h
      split at h <;> cases h
  | _ => simp [operation?, Except.bind_eq_ok_iff, pure, Except.pure] at h

/-- What is to be shown of a node. -/
def NodeMirrored (g : Generator) (n : Node) : Prop :=
  ∀ op, n.textSpan? = none → g.NodeStep n op → g.Mirrors (.node n op)

/-- A run before other nodes, or none. -/
theorem Mirrors.after_run {run : List (String × Span)} {rest : List Node} {ops : List Operation}
    (h : g.Mirrors (.nodes rest ops)) (hrest : ∀ n ∈ rest.head?, n.textSpan? = none) :
    g.Mirrors (.nodes (run.map (fun part => .text part.1 part.2) ++ rest)
      (flush (joinedText? run) ++ ops)) := by
  by_cases hrun : run = []
  · subst hrun
    exact h
  · exact .run hrun hrest h

/-- An operation that is no literal is added behind the literal before it. -/
theorem joinLiterals_cons {pending : Option (String × Span)} {op : Operation}
    {ops joined : List Operation} (hop : op.literalSpan? = none)
    (h : joinLiterals pending (op :: ops) = .ok joined) :
    ∃ rest, joinLiterals none ops = .ok rest ∧ joined = flush pending ++ op :: rest := by
  rw [joinLiterals, Except.bind_eq_ok_iff] at h
  · obtain ⟨rest, hrest, heq⟩ := h
    exact ⟨rest, hrest, (Except.ok.inj heq).symm⟩
  · rintro text span rfl
    cases hop

/-- A text that is read behind a run makes the run longer. -/
theorem joinLiterals_text {run : List (String × Span)} {value : String} {s : Span}
    {o : Option Operation} {ops joined : List Operation}
    (ho : g.operation? (.text value s) = .ok o)
    (h : joinLiterals (joinedText? run) (o.toList ++ ops) = .ok joined) :
    joinLiterals (joinedText? (run ++ [(value, s)])) ops = .ok joined := by
  obtain rfl := Except.ok.inj ho
  by_cases hempty : value.isEmpty
  · rw [joinedText?_append_empty run s hempty]
    simpa [hempty] using h
  · have hvalue : value.isEmpty = false := by simpa using hempty
    rw [if_neg hempty, Option.toList_some, List.singleton_append] at h
    cases hrun : joinedText? run with
    | none =>
        rw [hrun, joinLiterals] at h
        rwa [joinedText?_append_first hvalue hrun]
    | some pending =>
        obtain ⟨text, start⟩ := pending
        rw [joinedText?_append_more hvalue hrun]
        rw [hrun, joinLiterals] at h
        split at h
        · cases h
        · next span hspan =>
            unfold Span.upTo Span.between at hspan
            split at hspan
            · cases hspan
            · obtain rfl := Except.ok.inj hspan
              exact h

theorem joinLiterals_mirrors {ns : List Node} (hns : ∀ n ∈ ns, g.NodeMirrored n)
    {run : List (String × Span)} {os : List (Option Operation)} {joined : List Operation}
    (hos : ns.map g.operation? = os.map .ok)
    (hjoin : joinLiterals (joinedText? run) (os.flatMap (·.toList)) = .ok joined) :
    g.Mirrors (.nodes (run.map (fun part => .text part.1 part.2) ++
      ns.filter (·.definition?.isNone)) joined) := by
  induction ns generalizing run os joined with
  | nil =>
      obtain rfl := List.map_eq_nil_iff.mp hos.symm
      obtain rfl := Except.ok.inj hjoin
      have hrun : g.Mirrors (.nodes (run.map (fun part => .text part.1 part.2) ++ [])
          (flush (joinedText? run) ++ [])) := .after_run .empty nofun
      rwa [List.append_nil (flush _)] at hrun
  | cons n ns ih =>
      obtain ⟨hn, hbehind⟩ := List.forall_mem_cons.mp hns
      cases os with
      | nil => cases hos
      | cons o os =>
          obtain ⟨ho, hothers⟩ := List.cons.inj hos
          rw [List.flatMap_cons] at hjoin
          cases o with
          | none =>
              rcases operation?_eq_none ho with ⟨s, rfl⟩ | ⟨d, rfl⟩
              · have hrest := ih hbehind hothers (joinLiterals_text ho hjoin)
                simpa [Node.definition?] using hrest
              · exact ih hbehind hothers hjoin
          | some op =>
              have hstep := g.operation?_eq_some_iff.mp ho
              cases htext : n.textSpan? with
              | some s =>
                  obtain ⟨value, rfl⟩ := n.eq_text_of_textSpan? htext
                  have hrest := ih hbehind hothers (joinLiterals_text ho hjoin)
                  simpa [Node.definition?] using hrest
              | none =>
                  obtain ⟨rest, hrest, rfl⟩ :=
                    joinLiterals_cons (hstep.literalSpan?.trans htext) hjoin
                  have hkept : n.definition?.isNone := by cases hstep <;> rfl
                  have hmirrors := @ih hbehind [] os rest hothers hrest
                  rw [List.filter_cons, if_pos hkept]
                  refine Mirrors.after_run (.cons (hn op htext hstep) hmirrors) ?_
                  simpa using htext

theorem block_mirrors {ns : List Node} (hns : ∀ n ∈ ns, g.NodeMirrored n) {ops : List Operation}
    (h : g.block ns = .ok ops) : g.Mirrors (.block ns ops) := by
  obtain ⟨os, hos, hjoin⟩ := g.block_eq_ok_iff.mp h
  rw [List.filterMap_eq_flatMap_toList] at hjoin
  exact .block (@joinLiterals_mirrors g ns hns [] os ops hos hjoin)

theorem arms_mirror {arms : List (Arm Node)} (harms : ∀ a ∈ arms, ∀ n ∈ a.body, g.NodeMirrored n)
    {images : List (Program.Arm Operation)} (h : arms.map g.arm = images.map .ok) :
    g.Mirrors (.arms arms images) := by
  induction arms generalizing images with
  | nil =>
      obtain rfl := List.map_eq_nil_iff.mp h.symm
      exact .noArms
  | cons a arms ih =>
      obtain ⟨ha, harms⟩ := List.forall_mem_cons.mp harms
      cases images with
      | nil => cases h
      | cons image images =>
          obtain ⟨himage, himages⟩ := List.cons.inj h
          simp only [arm, Except.bind_eq_ok_iff] at himage
          obtain ⟨condition, hcondition, ops, hops, heq⟩ := himage
          obtain rfl := Except.ok.inj heq
          exact .arm hcondition (block_mirrors ha hops) (ih harms himages)

theorem nodeMirrored (g : Generator) (n : Node) : g.NodeMirrored n := by
  intro op htext hstep
  induction n using Node.parts_induction generalizing op with
  | text value s => cases htext
  | output e s =>
      cases hstep with
      | invoke hc hb => exact .invoke hc hb
      | emit hc he => exact .emit hc he
  | branch arms s ih =>
      cases hstep with
      | branch ha => exact .branch (arms_mirror (fun a ha n hn op ht => ih a ha n hn op ht) ha)
  | loop targets e body otherwise s ihb iho =>
      cases hstep with
      | loop he hb ho =>
          exact .loop he (block_mirrors (fun n hn op ht => ihb n hn op ht) hb)
            (block_mirrors (fun n hn op ht => iho n hn op ht) ho)
  | definition d ih => cases hstep
  | callBlock call body s ih =>
      cases hstep with
      | callBlock hc ho => exact .callBlock hc (block_mirrors (fun n hn op ht => ih n hn op ht) ho)
  | inclusion path s => cases hstep with | inclusion hp => exact .inclusion hp
  | assignment name e s => cases hstep with | store he => exact .store he

/-! ## One image -/

theorem runs_eq {run run' : List (String × Span)} {rest rest' : List Node}
    (hrest : ∀ n ∈ rest.head?, n.textSpan? = none)
    (hrest' : ∀ n ∈ rest'.head?, n.textSpan? = none)
    (h : run.map (fun part => Node.text part.1 part.2) ++ rest =
      run'.map (fun part => Node.text part.1 part.2) ++ rest') : run = run' ∧ rest = rest' := by
  induction run generalizing run' with
  | nil =>
      cases run' with
      | nil => exact ⟨rfl, h⟩
      | cons part run' =>
          obtain rfl := h
          cases hrest _ rfl
  | cons part run ih =>
      cases run' with
      | nil =>
          obtain rfl := h
          cases hrest' _ rfl
      | cons part' run' =>
          obtain ⟨hpart, hbehind⟩ := List.cons.inj h
          obtain ⟨hvalue, hspan⟩ := Node.text.inj hpart
          obtain ⟨rfl, rfl⟩ := ih hbehind
          exact ⟨by rw [Prod.ext hvalue hspan], rfl⟩

/-- Texts are only read as a run. -/
theorem Mirrors.run_inv {run : List (String × Span)} {rest : List Node} {ops : List Operation}
    (hrun : run ≠ []) (hrest : ∀ n ∈ rest.head?, n.textSpan? = none)
    (h : g.Mirrors (.nodes (run.map (fun part => .text part.1 part.2) ++ rest) ops)) :
    ∃ others, ops = flush (joinedText? run) ++ others ∧ g.Mirrors (.nodes rest others) := by
  generalize hns : run.map (fun part => Node.text part.1 part.2) ++ rest = ns at h
  cases h with
  | empty => exact absurd (List.map_eq_nil_iff.mp (List.append_eq_nil_iff.mp hns).1) hrun
  | run hrun' hrest' h' =>
      obtain ⟨rfl, rfl⟩ := runs_eq hrest hrest' hns
      exact ⟨_, rfl, h'⟩
  | cons hn _ =>
      obtain ⟨part, run, rfl⟩ := List.exists_cons_of_ne_nil hrun
      obtain ⟨rfl, -⟩ := List.cons.inj hns
      cases hn

theorem Mirrors.textSpan? {n : Node} {op : Operation} (h : g.Mirrors (.node n op)) :
    n.textSpan? = none := by
  cases h <;> rfl

theorem Mirrors.cons_inv {n : Node} {rest : List Node} {ops : List Operation}
    (hn : n.textSpan? = none) (h : g.Mirrors (.nodes (n :: rest) ops)) :
    ∃ op others, ops = op :: others ∧ g.Mirrors (.node n op) ∧ g.Mirrors (.nodes rest others) := by
  generalize hns : n :: rest = ns at h
  cases h with
  | empty => cases hns
  | @run run _ _ hrun _ _ =>
      obtain ⟨part, run, rfl⟩ := List.exists_cons_of_ne_nil hrun
      obtain ⟨rfl, -⟩ := List.cons.inj hns
      cases hn
  | cons hn' h' =>
      obtain ⟨rfl, rfl⟩ := List.cons.inj hns
      exact ⟨_, _, rfl, hn', h'⟩

/-- Nothing else is an image of the same part. -/
def OnlyImage (g : Generator) : Image → Prop
  | .node n op => ∀ op', g.Mirrors (.node n op') → op' = op
  | .nodes ns ops => ∀ ops', g.Mirrors (.nodes ns ops') → ops' = ops
  | .block ns ops => ∀ ops', g.Mirrors (.block ns ops') → ops' = ops
  | .arms arms images => ∀ images', g.Mirrors (.arms arms images') → images' = images

theorem Mirrors.onlyImage {x : Image} (h : g.Mirrors x) : g.OnlyImage x := by
  induction h with
  | invoke hc hb =>
      intro op' h
      cases h with
      | invoke hc' hb' =>
          obtain rfl := Option.some.inj (hc.symm.trans hc')
          obtain rfl := Except.ok.inj (hb.symm.trans hb')
          rfl
      | emit hc' _ => cases hc.symm.trans hc'
  | emit hc he =>
      intro op' h
      cases h with
      | invoke hc' _ => cases hc.symm.trans hc'
      | emit _ he' => rw [Except.ok.inj (he.symm.trans he')]
  | branch _ ih =>
      intro op' h
      cases h with | branch ha => rw [ih _ ha]
  | loop he _ _ ihb iho =>
      intro op' h
      cases h with | loop he' hb ho => rw [ihb _ hb, iho _ ho, Except.ok.inj (he.symm.trans he')]
  | callBlock hc _ ih =>
      intro op' h
      cases h with | callBlock hc' hb => rw [ih _ hb, Except.ok.inj (hc.symm.trans hc')]
  | inclusion hp =>
      intro op' h
      cases h with | inclusion hp' => rw [Option.some.inj (hp.symm.trans hp')]
  | store he =>
      intro op' h
      cases h with | store he' => rw [Except.ok.inj (he.symm.trans he')]
  | empty =>
      intro ops' h
      generalize hns : ([] : List Node) = ns at h
      cases h with
      | empty => rfl
      | run hrun _ _ =>
          exact absurd (List.map_eq_nil_iff.mp (List.append_eq_nil_iff.mp hns.symm).1) hrun
      | cons _ _ => cases hns
  | run hrun hrest _ ih =>
      intro ops' h
      obtain ⟨others, rfl, hothers⟩ := h.run_inv hrun hrest
      rw [ih _ hothers]
  | cons hn _ ihn ih =>
      intro ops' h
      obtain ⟨op', others, rfl, hop, hothers⟩ := h.cons_inv hn.textSpan?
      rw [ihn _ hop, ih _ hothers]
  | block _ ih =>
      intro ops' h
      cases h with | block h => exact ih _ h
  | noArms =>
      intro images' h
      cases h
      rfl
  | arm hc _ _ ihb ih =>
      intro images' h
      cases h with | arm hc' hb ha => rw [ihb _ hb, ih _ ha, Except.ok.inj (hc.symm.trans hc')]

end Generator

/-! ## Literals at every level -/

namespace Program

/-- The lists of operations that an operation holds itself. -/
def Operation.blocks : Operation → List (List Operation)
  | .invoke _ (some ops) _ => [ops]
  | .branch arms _ => arms.map (·.ops)
  | .loop _ _ body otherwise _ => [body, otherwise]
  | _ => []

/-- A list of operations of the program, at any depth. -/
inductive HasBlock (program : Program) : List Operation → Prop
  | main : HasBlock program program.ops
  | defined {m} (hm : m ∈ program.macros) : HasBlock program m.body
  | inner {op ops} (hop : program.HasOperation op) (h : ops ∈ op.blocks) : HasBlock program ops

/-- No literal is empty, and no two of them stand behind each other. -/
structure Separated (ops : List Operation) : Prop where
  written : ∀ text s, .literal text s ∈ ops → text ≠ ""
  apart : ops.IsChain fun op op' => op.literalSpan? = none ∨ op'.literalSpan? = none

/-- The literals are separated in the list and in all lists inside it. -/
def SeparatedWithin (ops : List Operation) : Prop :=
  Separated ops ∧ ∀ op ∈ ops, ∀ x : Operation, x.Within op → ∀ inner ∈ x.blocks, Separated inner

theorem Operation.separated_of_within {op x : Operation}
    (h : ∀ ops ∈ op.blocks, SeparatedWithin ops) (hx : x.Within op) :
    ∀ inner ∈ x.blocks, Separated inner := by
  cases hx with
  | self => exact fun inner hinner => (h inner hinner).1
  | caller hop hx => exact (h _ (List.mem_singleton.mpr rfl)).2 _ hop x hx
  | arm ha hop hx => exact (h _ (List.mem_map_of_mem ha)).2 _ hop x hx
  | body hop hx => exact (h _ (by simp [blocks])).2 _ hop x hx
  | otherwise hop hx => exact (h _ (by simp [blocks])).2 _ hop x hx

theorem SeparatedWithin.cons {op : Operation} {ops : List Operation}
    (hliteral : op.literalSpan? = none) (hop : ∀ inner ∈ op.blocks, SeparatedWithin inner)
    (h : SeparatedWithin ops) : SeparatedWithin (op :: ops) := by
  refine ⟨⟨fun text s hmem => ?_, ?_⟩, List.forall_mem_cons.mpr ⟨?_, h.2⟩⟩
  · rcases List.mem_cons.mp hmem with rfl | hmem
    · cases hliteral
    · exact h.1.written text s hmem
  · exact List.isChain_cons.mpr ⟨fun _ _ => .inl hliteral, h.1.apart⟩
  · exact fun x hx => op.separated_of_within hop hx

/-- A literal in front of other operations. -/
theorem SeparatedWithin.flush {pending : Option (String × Span)} {ops : List Operation}
    (hpending : ∀ part ∈ pending, part.1 ≠ "") (hops : ∀ op ∈ ops.head?, op.literalSpan? = none)
    (h : SeparatedWithin ops) : SeparatedWithin (Generator.flush pending ++ ops) := by
  cases pending with
  | none => exact h
  | some part =>
      refine ⟨⟨fun text s hmem => ?_, ?_⟩, List.forall_mem_cons.mpr ⟨fun x hx => ?_, h.2⟩⟩
      · rcases List.mem_cons.mp hmem with heq | hmem
        · obtain ⟨rfl, rfl⟩ := Operation.literal.inj heq
          exact hpending part rfl
        · exact h.1.written text s hmem
      · exact List.isChain_cons.mpr ⟨fun op hop => .inr (hops op hop), h.1.apart⟩
      · exact Operation.separated_of_within (List.forall_mem_nil _) hx

end Program

open Program (Separated SeparatedWithin)

theorem joinedText?_ne_empty {run : List (String × Span)} :
    ∀ part ∈ joinedText? run, part.1 ≠ "" := by
  intro part hpart hempty
  unfold joinedText? at hpart
  split at hpart
  · cases hpart
  · next first more hfilter =>
      obtain rfl := Option.some.inj hpart
      obtain ⟨hfirst, hwritten⟩ := List.mem_filter.mp (hfilter ▸ List.mem_cons_self)
      have hparts := congrArg String.toList hempty
      simp only [String.toList_join, List.flatMap_map, String.toList_empty,
        List.flatMap_eq_nil_iff] at hparts
      simp [String.toList_eq_nil_iff.mp (hparts first hfirst)] at hwritten

/-- What holds of the literals of an image. -/
def Image.LiteralsSeparated : Image → Prop
  | .node _ op => op.literalSpan? = none ∧ ∀ ops ∈ op.blocks, SeparatedWithin ops
  | .nodes ns ops => SeparatedWithin ops ∧
      ((∀ n ∈ ns.head?, n.textSpan? = none) → ∀ op ∈ ops.head?, op.literalSpan? = none)
  | .block _ ops => SeparatedWithin ops
  | .arms _ images => ∀ image ∈ images, SeparatedWithin image.ops

theorem Generator.Mirrors.literalsSeparated {g : Generator} {x : Image} (h : g.Mirrors x) :
    x.LiteralsSeparated := by
  induction h with
  | invoke | emit | inclusion | store => exact ⟨rfl, nofun⟩
  | branch _ ih => exact ⟨rfl, List.forall_mem_map.mpr ih⟩
  | loop _ _ _ ihb iho =>
      exact ⟨rfl, List.forall_mem_cons.mpr ⟨ihb, List.forall_mem_singleton.mpr iho⟩⟩
  | callBlock _ _ ih => exact ⟨rfl, List.forall_mem_singleton.mpr ih⟩
  | empty => exact ⟨⟨⟨nofun, .nil⟩, nofun⟩, fun _ => nofun⟩
  | @run run rest ops hrun hrest _ ih =>
      refine ⟨.flush joinedText?_ne_empty (ih.2 hrest) ih.1, fun hhead => ?_⟩
      obtain ⟨part, run, rfl⟩ := List.exists_cons_of_ne_nil hrun
      cases hhead _ rfl
  | cons _ _ ihn ih => exact ⟨ih.1.cons ihn.1 ihn.2, fun _ op hop => Option.some.inj hop ▸ ihn.1⟩
  | block _ ih => exact ih.1
  | noArms => exact nofun
  | arm _ _ _ ihb ih => exact List.forall_mem_cons.mpr ⟨ihb, ih⟩

/-! ## Programs of templates -/

open Generator

/-- The operations of the body and of every macro are the one image of their nodes, and literals are
separated at every level. -/
structure Program.IsImage (program : Program) (g : Generator) (t : Template) : Prop where
  body : g.Mirrors (.block t.body program.ops)
  macros : List.Forall₂ (fun d m => m.name = d.name ∧ g.Mirrors (.block d.body m.body))
    g.table.definitions program.macros
  only : ∀ ns ops ops', g.Mirrors (.block ns ops) → g.Mirrors (.block ns ops') → ops = ops'
  separated : ∀ ops, program.HasBlock ops → Separated ops

theorem Generator.forall₂_of_sequence {α β : Type} {f : α → Outcome β} {R : α → β → Prop}
    {xs : List α} {ys : List β} (h : xs.map f = ys.map .ok)
    (hf : ∀ x y, f x = .ok y → R x y) : List.Forall₂ R xs ys := by
  induction xs generalizing ys with
  | nil =>
      obtain rfl := List.map_eq_nil_iff.mp h.symm
      exact .nil
  | cons x xs ih =>
      cases ys with
      | nil => cases h
      | cons y ys =>
          obtain ⟨hhead, htail⟩ := List.cons.inj h
          exact .cons (hf x y hhead) (ih htail)

theorem Generator.program_isImage {g : Generator} {t : Template} {unit : String}
    {program : Program} (h : g.program t unit = .ok program) : program.IsImage g t := by
  obtain ⟨hmacros, hops⟩ := program_spec h
  have hbody := block_mirrors (fun n _ => g.nodeMirrored n) hops
  have hdefined : ∀ d m, g.macroProgram d = .ok m →
      m.name = d.name ∧ g.Mirrors (.block d.body m.body) := by
    intro d m hm
    obtain ⟨hname, -, hbody⟩ := macroProgram_spec hm
    exact ⟨hname, block_mirrors (fun n _ => g.nodeMirrored n) hbody⟩
  have hwithin : ∀ m ∈ program.macros, SeparatedWithin m.body := by
    intro m hm
    obtain ⟨d, -, hd⟩ := exists_of_mem_sequence hmacros hm
    exact (hdefined d m hd).2.literalsSeparated
  refine ⟨hbody, forall₂_of_sequence hmacros hdefined, fun ns ops ops' hops hops' => ?_, ?_⟩
  · exact hops'.onlyImage ops hops
  · rintro ops (_ | hm | ⟨⟨hop, hx⟩ | ⟨hm, hop, hx⟩, hops⟩)
    · exact hbody.literalsSeparated.1
    · exact (hwithin _ hm).1
    · exact hbody.literalsSeparated.2 _ hop _ hx ops hops
    · exact (hwithin _ hm).2 _ hop _ hx ops hops

theorem parse_program_isImage {setting : Parser.Setting} {delimiters : Delimiters}
    {source : String} {parsed : Parsed} (h : parse setting delimiters source = .ok parsed)
    (hproblems : (bindAll parsed.template parsed.template.macroTable.1).2 = [])
    {includes : Inclusions}
    (hincluded : ∀ path s, .inclusion path s ∈ walkAll parsed.template.body →
      ∃ program, includes.lookup s = some program) (escaper unit : String) :
    ∃ program,
      (ofTemplate parsed.template includes escaper).program parsed.template unit = .ok program ∧
        program.IsImage (ofTemplate parsed.template includes escaper) parsed.template := by
  obtain ⟨program, hprogram⟩ := exists_program_of_parse h hproblems hincluded escaper unit
  exact ⟨program, hprogram, program_isImage hprogram⟩

/-- Texts on both sides of a definition, and an include. -/
theorem isImage_of_texts_around_definition :
    let source := "a\x7b% macro m() %\x7dx\x7b% endmacro %\x7db\x7b\x7b m() \x7d\x7d" ++
      "\x7b% include 'c' %\x7d"
    let tag : Span := ⟨⟨1, 42, 41⟩, ⟨1, 59, 58⟩, "page"⟩
    ∃ parsed program, parse ⟨"page", .preserve⟩ .standard source = .ok parsed ∧
      (bindAll parsed.template parsed.template.macroTable.1).2.length = 0 ∧
      (∀ path s, .inclusion path s ∈ walkAll parsed.template.body → s = tag) ∧
      (ofTemplate parsed.template [(tag, ⟨"c", [], []⟩)] "text").program parsed.template "page" =
        .ok program ∧
      program.IsImage (ofTemplate parsed.template [(tag, ⟨"c", [], []⟩)] "text")
        parsed.template := by
  intro source tag
  obtain ⟨parsed, hparsed, hfacts⟩ := Except.exists_of_toOption_map
    (x := parse ⟨"page", .preserve⟩ .standard source)
    (f := fun p => ((bindAll p.template p.template.macroTable.1).2.length,
      (walkAll p.template.body).filterMap (·.inclusion?)))
    (b := (0, [("c", tag)])) (by decide +kernel)
  obtain ⟨hproblems, htags⟩ := Prod.mk.inj hfacts
  have htag : ∀ path s, .inclusion path s ∈ walkAll parsed.template.body → s = tag := by
    intro path s hs
    have hmem : (path, s) ∈ [("c", tag)] := htags ▸ List.mem_filterMap.mpr ⟨_, hs, rfl⟩
    exact (Prod.mk.inj (List.mem_singleton.mp hmem)).2
  have hincluded : ∀ path s, .inclusion path s ∈ walkAll parsed.template.body →
      ∃ program, List.lookup s [(tag, (⟨"c", [], []⟩ : Program))] = some program := by
    intro path s hs
    rw [htag path s hs]
    exact ⟨_, List.lookup_cons_self⟩
  obtain ⟨program, hprogram, himage⟩ := parse_program_isImage hparsed
    (List.eq_nil_of_length_eq_zero hproblems) hincluded "text" "page"
  exact ⟨parsed, program, hparsed, hproblems, htag, hprogram, himage⟩

end TemplateCompiler
