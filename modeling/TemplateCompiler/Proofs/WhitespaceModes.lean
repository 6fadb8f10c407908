import TemplateCompiler.Proofs.KeptTexts
import TemplateCompiler.Proofs.StatementSound

/-!
# What the whitespace mode decides

Under two modes a source is read in the same way, save for what is left of its texts: the parser
takes the same tokens, complains about the same and stops at the same, and the trees differ in their
text nodes only. A text that comes to nothing under one mode leaves no node, so the lists of nodes
may differ in length; they are compared without their texts, and the texts by the tokens that they
were read from.

`Agrees` relates two runs from one state. Each rule follows one way to build a parser.
-/

namespace TemplateCompiler

namespace Template

/-! ## Trees without their texts -/

mutual

def Node.withoutTexts : Node → Node
  | .branch arms s => .branch (armsWithoutTexts arms) s
  | .loop targets iterable body otherwise s =>
    .loop targets iterable (nodesWithoutTexts body) (nodesWithoutTexts otherwise) s
  | .definition d => .definition { d with body := nodesWithoutTexts d.body }
  | .callBlock call body s => .callBlock call (nodesWithoutTexts body) s
  | .text value s => .text value s
  | .output e s => .output e s
  | .inclusion path s => .inclusion path s
  | .assignment name value s => .assignment name value s

/-- The nodes of a list that are no texts, and in them, at any depth, no texts either. -/
def nodesWithoutTexts : List Node → List Node
  | [] => []
  | n :: ns => if n.isText then nodesWithoutTexts ns else n.withoutTexts :: nodesWithoutTexts ns

def armsWithoutTexts : List (Arm Node) → List (Arm Node)
  | [] => []
  | a :: as => { a with body := nodesWithoutTexts a.body } :: armsWithoutTexts as

end

theorem nodesWithoutTexts_append (ns ms : List Node) :
    nodesWithoutTexts (ns ++ ms) = nodesWithoutTexts ns ++ nodesWithoutTexts ms := by
  induction ns with
  | nil => rfl
  | cons n ns ih =>
      rw [List.cons_append, nodesWithoutTexts, nodesWithoutTexts, ih]
      split <;> rfl

theorem armsWithoutTexts_append (as bs : List (Arm Node)) :
    armsWithoutTexts (as ++ bs) = armsWithoutTexts as ++ armsWithoutTexts bs := by
  induction as with
  | nil => rfl
  | cons a as ih => rw [List.cons_append, armsWithoutTexts, armsWithoutTexts, ih, List.cons_append]

end Template

namespace Parser

open EStateM (Result)
open Template (Expr Node texts armTexts nodesWithoutTexts armsWithoutTexts)

variable {α β γ δ : Type}

/-! ## Texts at the same token -/

/-- A token that is a text, and the markers of the delimiters on both sides of it. -/
structure TextSite where
  left : Option String
  token : Token
  right : Option String

/-- What is left of the text, unless it is nothing. -/
def TextSite.node (setting : Setting) (site : TextSite) : Option Node :=
  setting.textNode site.left site.right site.token

/-- Text nodes that two settings make of the same texts, which stand among the tokens. -/
def Fill (σ τ : Setting) (ns ms : List Node) (ts : List Token) : Prop :=
  ∃ sites : List TextSite, (sites.map TextSite.token).Sublist (ts.filter (·.kind = .text)) ∧
    ns = sites.filterMap (TextSite.node σ) ∧ ms = sites.filterMap (TextSite.node τ)

namespace Fill

variable {σ τ : Setting} {ns ms ns' ms' : List Node} {ts us : List Token}

theorem nil : Fill σ τ [] [] ts :=
  ⟨[], List.nil_sublist _, rfl, rfl⟩

theorem append (h : Fill σ τ ns ms ts) (h' : Fill σ τ ns' ms' us) :
    Fill σ τ (ns ++ ns') (ms ++ ms') (ts ++ us) := by
  obtain ⟨sites, hts, rfl, rfl⟩ := h
  obtain ⟨sites', hus, rfl, rfl⟩ := h'
  refine ⟨sites ++ sites', ?_, List.filterMap_append.symm, List.filterMap_append.symm⟩
  rw [List.map_append, List.filter_append]
  exact hts.append hus

theorem mono (h : Fill σ τ ns ms ts) (hts : ts.Sublist us) : Fill σ τ ns ms us := by
  obtain ⟨sites, hsites, hns, hms⟩ := h
  exact ⟨sites, hsites.trans (hts.filter _), hns, hms⟩

end Fill

/-- Lists of nodes that differ in their texts only, which two settings made of the same tokens. -/
structure Alike (σ τ : Setting) (ns ms : List Node) (ts : List Token) : Prop where
  others : nodesWithoutTexts ms = nodesWithoutTexts ns
  kept : Fill σ τ (texts ns) (texts ms) ts

structure AlikeArms (σ τ : Setting) (as bs : List (Arm Node)) (ts : List Token) : Prop where
  others : armsWithoutTexts bs = armsWithoutTexts as
  kept : Fill σ τ (armTexts as) (armTexts bs) ts

namespace Alike

variable {σ τ : Setting} {ns ms ns' ms' : List Node} {ts us : List Token}

theorem nil : Alike σ τ [] [] ts :=
  ⟨rfl, Fill.nil⟩

theorem mono (h : Alike σ τ ns ms ts) (hts : ts.Sublist us) : Alike σ τ ns ms us :=
  ⟨h.others, h.kept.mono hts⟩

theorem append (h : Alike σ τ ns ms ts) (h' : Alike σ τ ns' ms' us) :
    Alike σ τ (ns ++ ns') (ms ++ ms') (ts ++ us) := by
  refine ⟨?_, ?_⟩
  · rw [Template.nodesWithoutTexts_append, Template.nodesWithoutTexts_append, h.others, h'.others]
  · rw [Template.texts_append, Template.texts_append]
    exact h.kept.append h'.kept

/-- A node in which there are no further nodes. -/
theorem leaf {n : Node} (h : texts [n] = []) : Alike σ τ [n] [n] ts :=
  ⟨rfl, by rw [h]; exact Fill.nil⟩

theorem text {left right : Option String} {t : Token} (ht : t.kind = .text) :
    Alike σ τ (σ.textNode left right t).toList (τ.textNode left right t).toList [t] := by
  have htext : ∀ setting : Setting, nodesWithoutTexts (setting.textNode left right t).toList = [] ∧
      texts (setting.textNode left right t).toList = (setting.textNode left right t).toList := by
    intro setting
    unfold Setting.textNode
    dsimp only
    split <;> exact ⟨rfl, rfl⟩
  have hfill : ∀ setting : Setting, (setting.textNode left right t).toList =
      [⟨left, t, right⟩].filterMap (TextSite.node setting) := by
    intro setting
    have hnode : TextSite.node setting ⟨left, t, right⟩ = setting.textNode left right t := rfl
    rw [List.filterMap_cons, hnode]
    cases setting.textNode left right t <;> rfl
  refine ⟨by rw [(htext σ).1, (htext τ).1], [⟨left, t, right⟩], by simp [ht], ?_, ?_⟩
  · rw [(htext σ).2, hfill]
  · rw [(htext τ).2, hfill]

theorem loop {targets : List String} {e : Expr} {s : Span} (h : Alike σ τ ns ms ts)
    (h' : Alike σ τ ns' ms' us) :
    Alike σ τ [.loop targets e ns ns' s] [.loop targets e ms ms' s] (ts ++ us) := by
  refine ⟨?_, ?_⟩
  · show [Node.loop _ _ (nodesWithoutTexts ms) (nodesWithoutTexts ms') _] = _
    rw [h.others, h'.others]
    rfl
  · rw [Template.texts_loop, Template.texts_loop]
    exact h.kept.append h'.kept

theorem definition {name : String} {params : List (Parameter Expr)} {s s' : Span}
    (h : Alike σ τ ns ms ts) :
    Alike σ τ [.definition ⟨name, params, ns, s, s'⟩] [.definition ⟨name, params, ms, s, s'⟩]
      ts := by
  refine ⟨?_, ?_⟩
  · show [Node.definition ⟨_, _, nodesWithoutTexts ms, _, _⟩] = _
    rw [h.others]
    rfl
  · rw [Template.texts_definition, Template.texts_definition]
    exact h.kept

theorem callBlock {call : MacroCall} {s : Span} (h : Alike σ τ ns ms ts) :
    Alike σ τ [.callBlock call ns s] [.callBlock call ms s] ts := by
  refine ⟨?_, ?_⟩
  · show [Node.callBlock _ (nodesWithoutTexts ms) _] = _
    rw [h.others]
    rfl
  · rw [Template.texts_callBlock, Template.texts_callBlock]
    exact h.kept

theorem branch {as bs : List (Arm Node)} {s : Span} (h : AlikeArms σ τ as bs ts) :
    Alike σ τ [.branch as s] [.branch bs s] ts := by
  refine ⟨?_, ?_⟩
  · show [Node.branch (armsWithoutTexts bs) _] = _
    rw [h.others]
    rfl
  · rw [Template.texts_branch, Template.texts_branch]
    exact h.kept

end Alike

theorem AlikeArms.mono {σ τ : Setting} {as bs : List (Arm Node)} {ts us : List Token}
    (h : AlikeArms σ τ as bs ts) (hts : ts.Sublist us) : AlikeArms σ τ as bs us :=
  ⟨h.others, h.kept.mono hts⟩

theorem AlikeArms.concat {σ τ : Setting} {as bs : List (Arm Node)} {ns ms : List Node}
    {ts us : List Token} {condition : Option Expr} {span : Span} (h : AlikeArms σ τ as bs ts)
    (h' : Alike σ τ ns ms us) :
    AlikeArms σ τ (as ++ [⟨condition, ns, span⟩]) (bs ++ [⟨condition, ms, span⟩]) (ts ++ us) := by
  have hlast : ∀ ns : List Node, armTexts [⟨condition, ns, span⟩] = texts ns := by
    intro ns
    simp [armTexts, texts, Template.walkArms]
  refine ⟨?_, ?_⟩
  · rw [Template.armsWithoutTexts_append, Template.armsWithoutTexts_append, h.others]
    show armsWithoutTexts as ++ [⟨_, nodesWithoutTexts ms, _⟩] = _
    rw [h'.others]
    rfl
  · rw [Template.armTexts_append, Template.armTexts_append, hlast, hlast]
    exact h.kept.append h'.kept

/-! ## Two runs -/

/-- Run from `s`, both take the same tokens and end in the same state, with the same stop or with
results of which `R` holds, and of the tokens. -/
inductive Agrees (s : State) (p : Parser α) (q : Parser β) (R : α → β → List Token → Prop) : Prop
  | ok {a b s' ts} (hp : p s = .ok a s') (hq : q s = .ok b s') (hts : s.unread = ts ++ s'.unread)
      (h : R a b ts)
  | stop {e s' ts} (hp : p s = .error e s') (hq : q s = .error e s')
      (hts : s.unread = ts ++ s'.unread)

namespace Agrees

variable {s : State} {p : Parser α} {q : Parser β} {R : α → β → List Token → Prop}
  {S : γ → δ → List Token → Prop}

theorem imp {R' : α → β → List Token → Prop} (h : Agrees s p q R)
    (hR : ∀ a b ts, R a b ts → R' a b ts) : Agrees s p q R' := by
  cases h with
  | ok hp hq hts h => exact .ok hp hq hts (hR _ _ _ h)
  | stop hp hq hts => exact .stop hp hq hts

/-- What does not depend on the setting agrees with itself. -/
theorem same {Q : α → List Token → Prop} {p : Parser α} (h : Reads [] s p Q) :
    Agrees s p p fun a b ts => b = a ∧ Q a ts := by
  cases hp : p s with
  | ok a s' =>
      obtain ⟨ts, hts, ha⟩ := h.of_ok hp
      exact .ok hp hp hts ⟨rfl, ha⟩
  | error e s' =>
      obtain ⟨ts, hts⟩ := h.of_error hp
      exact .stop hp hp hts

theorem pure {a : α} {b : β} (h : R a b []) : Agrees s (Pure.pure a) (Pure.pure b) R :=
  .ok rfl rfl rfl h

theorem throw {e : Stop} :
    Agrees s (MonadExcept.throw e : Parser α) (MonadExcept.throw e : Parser β) R :=
  .stop rfl rfl (List.nil_append _).symm

theorem complain {problem : SyntaxProblem} {span : Span} :
    Agrees s (complain problem span : Parser α) (Parser.complain problem span : Parser β) R :=
  throw

/-- The same end, seen from a state before it. -/
theorem after {s' : State} {us : List Token} (h : Agrees s' p q fun a b ts => R a b (us ++ ts))
    (hus : s.unread = us ++ s'.unread) {p' : Parser α} {q' : Parser β} (hp' : p' s = p s')
    (hq' : q' s = q s') : Agrees s p' q' R := by
  cases h with
  | ok hp hq hts h =>
      exact .ok (hp'.trans hp) (hq'.trans hq) (by rw [hus, hts, List.append_assoc]) h
  | @stop e s'' ts hp hq hts =>
      have hboth : s.unread = us ++ ts ++ s''.unread := by rw [hus, hts, List.append_assoc]
      exact .stop (hp'.trans hp) (hq'.trans hq) hboth

theorem bind {f : α → Parser γ} {g : β → Parser δ} (h : Agrees s p q R)
    (hf : ∀ a b ts s', R a b ts → Agrees s' (f a) (g b) fun c d us => S c d (ts ++ us)) :
    Agrees s (p >>= f) (q >>= g) S := by
  cases h with
  | ok hp hq hts h => exact after (hf _ _ _ _ h) hts (bind_apply_of_ok hp) (bind_apply_of_ok hq)
  | stop hp hq hts => exact .stop (bind_apply_of_error hp) (bind_apply_of_error hq) hts

theorem map {f : α → γ} {g : β → δ} (h : Agrees s p q R)
    (hf : ∀ a b ts, R a b ts → S (f a) (g b) ts) : Agrees s (f <$> p) (g <$> q) S :=
  bind h fun a b ts _ hR => pure (by rw [List.append_nil]; exact hf a b ts hR)

/-- A first part that does not depend on the setting. -/
theorem seq {Q : α → List Token → Prop} {p : Parser α} {f : α → Parser γ} {g : α → Parser δ}
    (h : Reads [] s p Q)
    (hf : ∀ a ts s', Q a ts → Agrees s' (f a) (g a) fun c d us => S c d (ts ++ us)) :
    Agrees s (p >>= f) (p >>= g) S := by
  refine bind (same h) ?_
  rintro _ a ts s' ⟨rfl, hQ⟩
  exact hf a ts s' hQ

/-- Where one recovers the other does, from the same problem. -/
theorem recovering (h : Agrees s p q R) :
    Agrees s (recovering p) (recovering q) fun o o' ts =>
      (o = none ∧ o' = none) ∨ ∃ a b, o = some a ∧ o' = some b ∧ R a b ts := by
  have hsome : Agrees s (some <$> p) (some <$> q) fun o o' ts =>
      (o = none ∧ o' = none) ∨ ∃ a b, o = some a ∧ o' = some b ∧ R a b ts :=
    map h fun a b ts hR => .inr ⟨a, b, rfl, rfl, hR⟩
  cases hsome with
  | ok hp hq hts h => exact .ok (tryCatch_apply_of_ok hp) (tryCatch_apply_of_ok hq) hts h
  | @stop e s' ts hp hq hts =>
      cases e with
      | complaint c =>
          refine after ?_ hts (tryCatch_apply_of_error hp) (tryCatch_apply_of_error hq)
          exact seq Reads.recover fun _ _ _ _ => pure (.inl ⟨rfl, rfl⟩)
      | _ => exact .stop (tryCatch_apply_of_error hp) (tryCatch_apply_of_error hq) hts

theorem peek {f : Token → Parser γ} {g : Token → Parser δ}
    (h : ∀ t rest, s.unread = t :: rest → Agrees s (f t) (g t) S) :
    Agrees s (peek >>= f) (Parser.peek >>= g) S := by
  cases hs : s.unread with
  | nil =>
      have hpeek : Parser.peek s = .error s.beyond s := by rw [Parser.peek, hs]
      exact .stop (bind_apply_of_error hpeek) (bind_apply_of_error hpeek) (List.nil_append _).symm
  | cons t rest =>
      have hnone : s.unread = [] ++ s.unread := rfl
      refine after ?_ hnone (bind_apply_of_ok (peek_eq hs)) (bind_apply_of_ok (peek_eq hs))
      exact h t rest hs

theorem spanFrom {unit : String} {start : Position} {f : Span → Parser γ} {g : Span → Parser δ}
    (h : ∀ span s', Agrees s' (f span) (g span) S) :
    Agrees s (spanFrom unit start >>= f) (Parser.spanFrom unit start >>= g) S := by
  refine seq (Q := fun _ ts => ts = []) ?_ ?_
  · exact Reads.of_bind (Reads.spanFrom fun _ _ => Reads.pure rfl)
  · rintro span _ s' rfl
    exact h span s'

end Agrees

/-! ## Texts and single tags -/

/-- What is kept of a tag, if anything. -/
def AlikeNode (σ τ : Setting) (o o' : Option Node) (ts : List Token) : Prop :=
  Alike σ τ o.toList o'.toList ts

section

variable {σ τ : Setting}

theorem AlikeNode.none {ts : List Token} : AlikeNode σ τ none none ts :=
  Alike.nil

/-- Tokens that were taken before hold no texts that are lost. -/
theorem Agrees.behind {s : State} {p q : Parser (Option Node)} (h : Agrees s p q (AlikeNode σ τ))
    (ts : List Token) : Agrees s p q fun o o' us => AlikeNode σ τ o o' (ts ++ us) :=
  h.imp fun _ _ us h => Alike.mono h (List.sublist_append_right ts us)

/-- A text that is trimmed by the two markers beside it. -/
theorem text_eq (setting : Setting) {s : State} {t u : Token} {rest : List Token}
    (hs : s.unread = t :: u :: rest) (ht : t.kind = .text) :
    text setting s = .ok (setting.textNode s.leftMarker (markerAhead (u :: rest)) t)
      { s.consume t (u :: rest) with leftMarker := none } := by
  have hleft : (s.consume t (u :: rest)).leftMarker = s.leftMarker := by
    rw [State.consume, ht]
    rfl
  refine (bind_apply_of_ok (advance_eq hs (by simp [ht]))).trans ?_
  refine (bind_apply_of_ok (peek_eq rfl)).trans ?_
  rw [← hleft]
  rfl

theorem text_agrees {s : State} {t : Token} {rest : List Token} (hs : s.unread = t :: rest)
    (ht : t.kind = .text) : Agrees s (text σ) (text τ) (AlikeNode σ τ) := by
  cases rest with
  | nil =>
      have hstop : ∀ setting, text setting s = .error (s.consume t []).beyond (s.consume t []) :=
        fun setting => (bind_apply_of_ok (advance_eq hs (by simp [ht]))).trans
          (bind_apply_of_error rfl)
      have hone : s.unread = [t] ++ (s.consume t []).unread := hs
      exact .stop (hstop σ) (hstop τ) hone
  | cons u rest => exact .ok (text_eq σ hs ht) (text_eq τ hs ht) hs (Alike.text ht)

/-- A tag that holds no nodes is read in the same way. -/
theorem leaf_agrees {s : State} {p : Parser Node}
    (h : Reads [] s p fun n _ => Template.texts [n] = []) :
    Agrees s (some <$> p) (some <$> p) (AlikeNode σ τ) := by
  refine Agrees.map (Agrees.same h) ?_
  rintro _ n ts ⟨rfl, hn⟩
  exact Alike.leaf hn

theorem output_leaf (setting : Setting) (s : State) :
    Reads [] s (output setting) fun n _ => Template.texts [n] = [] := by
  refine Reads.advance fun opening s₁ => Reads.bind (expression_reads s₁) fun e us s₂ _ => ?_
  exact Reads.expect (by decide) fun _ _ _ => Reads.spanFrom fun _ _ => Reads.pure rfl

theorem inclusion_leaf (setting : Setting) (opening : Token) (s : State) :
    Reads [] s (inclusion setting opening) fun n _ => Template.texts [n] = [] := by
  refine Reads.advance fun _ _ => Reads.expect (by decide) fun path _ _ => ?_
  exact Reads.expect (by decide) fun _ _ _ => Reads.spanFrom fun _ _ => Reads.pure rfl

theorem assignment_leaf (setting : Setting) (opening : Token) (s : State) :
    Reads [] s (assignment setting opening) fun n _ => Template.texts [n] = [] := by
  refine Reads.advance fun _ _ => Reads.expect (by decide) fun name _ _ => ?_
  refine Reads.expect (by decide) fun _ s₁ _ => Reads.bind (expression_reads s₁) fun e us s₂ _ => ?_
  exact Reads.expect (by decide) fun _ _ _ => Reads.spanFrom fun _ _ => Reads.pure rfl

/-- A further arm is read whatever the arms before it are. -/
theorem nextArm_agrees (b : BranchSoFar) (arms : List (Arm Node)) (s : State) :
    Agrees s (nextArm b) (nextArm { b with arms := arms }) fun c c' _ =>
      c.arms = b.arms ∧ c' = { c with arms := arms } := by
  refine Agrees.peek fun t rest hs => ?_
  dsimp only
  split
  · exact Agrees.seq Reads.recover fun _ _ _ _ => Agrees.pure ⟨rfl, rfl⟩
  · split
    · next ht =>
        refine Agrees.seq (Q := fun _ _ => True) (Reads.of_bind (Reads.advance fun _ _ =>
          Reads.pure trivial)) fun _ _ s₁ _ => ?_
        refine Agrees.seq (Reads.recovering (P := fun _ _ => True) (Reads.of_bind
          (Reads.expect (by decide) fun _ _ _ => Reads.pure trivial))) fun _ _ _ _ => ?_
        exact Agrees.pure ⟨rfl, rfl⟩
    · exact Agrees.seq (Reads.recovering (condition_reads s)) fun _ _ _ _ =>
        Agrees.pure ⟨rfl, rfl⟩

end

/-! ## Templates at one amount of fuel -/

structure TemplatesAgree (σ τ : Setting) (fuel : Nat) : Prop where
  nodesFrom : ∀ closers ns ms us s, Alike σ τ ns.reverse ms.reverse us →
    Agrees s (nodesFrom σ closers fuel ns) (nodesFrom τ closers fuel ms)
      fun r r' ts => r'.2 = r.2 ∧ Alike σ τ r.1 r'.1 (us ++ ts)
  tag : ∀ s, Agrees s (tag σ fuel) (tag τ fuel) (AlikeNode σ τ)
  statement : ∀ opening s,
    Agrees s (statement σ opening fuel) (statement τ opening fuel) (AlikeNode σ τ)
  body : ∀ opening construct closers s,
    Agrees s (body σ opening construct closers fuel) (body τ opening construct closers fuel)
      fun r r' ts => r'.2 = r.2 ∧ Alike σ τ r.1 r'.1 ts
  branch : ∀ opening s, Agrees s (branch σ opening fuel) (branch τ opening fuel) (AlikeNode σ τ)
  armsFrom : ∀ opening (b : BranchSoFar) arms us s, AlikeArms σ τ b.arms arms us →
    Agrees s (armsFrom σ opening fuel b) (armsFrom τ opening fuel { b with arms := arms })
      fun o o' ts => AlikeNode σ τ o o' (us ++ ts)
  loop : ∀ opening s, Agrees s (loop σ opening fuel) (loop τ opening fuel) (AlikeNode σ τ)
  definition : ∀ opening s,
    Agrees s (definition σ opening fuel) (definition τ opening fuel) (AlikeNode σ τ)
  callBlock : ∀ opening s,
    Agrees s (callBlock σ opening fuel) (callBlock τ opening fuel) (AlikeNode σ τ)

theorem templatesAgree_zero (σ τ : Setting) : TemplatesAgree σ τ 0 where
  nodesFrom _ _ _ _ _ _ := by
    rw [Parser.nodesFrom, Parser.nodesFrom]
    exact Agrees.throw
  tag _ := by
    rw [Parser.tag, Parser.tag]
    exact Agrees.throw
  statement _ _ := by
    rw [Parser.statement, Parser.statement]
    exact Agrees.throw
  body _ _ _ _ := by
    rw [Parser.body, Parser.body]
    exact Agrees.throw
  branch _ _ := by
    rw [Parser.branch, Parser.branch]
    exact Agrees.throw
  armsFrom _ _ _ _ _ _ := by
    rw [Parser.armsFrom, Parser.armsFrom]
    exact Agrees.throw
  loop _ _ := by
    rw [Parser.loop, Parser.loop]
    exact Agrees.throw
  definition _ _ := by
    rw [Parser.definition, Parser.definition]
    exact Agrees.throw
  callBlock _ _ := by
    rw [Parser.callBlock, Parser.callBlock]
    exact Agrees.throw

section

variable {σ τ : Setting} {fuel : Nat} (hunit : τ.unit = σ.unit) (ih : TemplatesAgree σ τ fuel)

include ih

theorem nodesFrom_agrees (closers : List String) {ns ms : List Node} {us : List Token} (s : State)
    (h : Alike σ τ ns.reverse ms.reverse us) :
    Agrees s (nodesFrom σ closers (fuel + 1) ns) (nodesFrom τ closers (fuel + 1) ms)
      fun r r' ts => r'.2 = r.2 ∧ Alike σ τ r.1 r'.1 (us ++ ts) := by
  -- what is kept of a tag or a text stands behind the nodes before it
  have hkept : ∀ {o o' : Option Node} {ts : List Token}, AlikeNode σ τ o o' ts →
      Alike σ τ (o.toList ++ ns).reverse (o'.toList ++ ms).reverse (us ++ ts) := by
    intro o o' ts ho
    have hone : ∀ o : Option Node, o.toList.reverse = o.toList := by
      intro o
      cases o <;> rfl
    rw [List.reverse_append, List.reverse_append, hone, hone]
    exact h.append ho
  rw [nodesFrom, nodesFrom]
  refine Agrees.peek fun t rest hs => ?_
  split
  · exact Agrees.pure ⟨rfl, by rwa [List.append_nil]⟩
  · next ht =>
      refine Agrees.bind (text_agrees hs ht) fun o o' ts s' ho => ?_
      have hrest := ih.nodesFrom closers _ _ _ s' (hkept ho)
      exact hrest.imp fun _ _ vs hr => List.append_assoc us ts vs ▸ hr
  · refine Agrees.seq (comment_reads s) fun _ ts s' _ => ?_
    exact (ih.nodesFrom closers ns ms us s' h).imp fun _ _ vs hr => ⟨hr.1, hr.2.mono (by grind)⟩
  · refine Agrees.seq (closingWord?_reads closers hs) ?_
    rintro word _ s' rfl
    cases word with
    | some word => exact Agrees.pure ⟨rfl, by simpa using h⟩
    | none =>
        refine Agrees.bind (Agrees.recovering (ih.tag s')) fun o o' ts s'' ho => ?_
        have hnode : AlikeNode σ τ o.join o'.join ts := by
          rcases ho with ⟨rfl, rfl⟩ | ⟨n, n', rfl, rfl, ho⟩
          · exact .none
          · exact ho
        exact (ih.nodesFrom closers _ _ _ s'' (hkept hnode)).imp
          fun _ _ vs hr => List.append_assoc us ts vs ▸ hr

include hunit

theorem tag_agrees (s : State) :
    Agrees s (tag σ (fuel + 1)) (tag τ (fuel + 1)) (AlikeNode σ τ) := by
  have houtput : output τ = output σ := by
    unfold output
    rw [hunit]
  rw [tag, tag, houtput]
  refine Agrees.peek fun t rest hs => ?_
  split
  · exact leaf_agrees (output_leaf σ s)
  · refine Agrees.seq (Q := fun _ _ => True)
      (Reads.of_bind (Reads.advance fun _ _ => Reads.pure trivial)) fun opening ts s' _ => ?_
    exact (ih.statement opening s').behind ts
  · refine Agrees.seq (Q := fun _ _ => True)
      (Reads.of_bind (Reads.advance fun _ _ => Reads.pure trivial)) fun _ _ _ _ => ?_
    exact Agrees.complain

theorem statement_agrees (opening : Token) (s : State) :
    Agrees s (statement σ opening (fuel + 1)) (statement τ opening (fuel + 1)) (AlikeNode σ τ) := by
  have hinclusion : inclusion τ opening = inclusion σ opening := by
    unfold inclusion
    rw [hunit]
  have hassignment : assignment τ opening = assignment σ opening := by
    unfold assignment
    rw [hunit]
  rw [statement, statement, hinclusion, hassignment]
  refine Agrees.peek fun t rest hs => ?_
  split
  · split
    · exact ih.branch opening s
    · exact ih.loop opening s
    · exact ih.definition opening s
    · exact ih.callBlock opening s
    · exact leaf_agrees (inclusion_leaf σ opening s)
    · exact leaf_agrees (assignment_leaf σ opening s)
    · exact leaf_agrees (assignment_leaf σ opening s)
    · split <;> exact Agrees.complain
  · exact Agrees.complain
  · exact Agrees.complain

omit hunit in
theorem body_agrees (opening : Token) (construct : String) (closers : List String) (s : State) :
    Agrees s (body σ opening construct closers (fuel + 1))
      (body τ opening construct closers (fuel + 1))
      fun r r' ts => r'.2 = r.2 ∧ Alike σ τ r.1 r'.1 ts := by
  rw [body, body]
  refine Agrees.bind (ih.nodesFrom closers [] [] [] s Alike.nil) ?_
  rintro ⟨ns, word⟩ ⟨ms, word'⟩ ts s' ⟨rfl, h⟩
  cases word' with
  | none => exact Agrees.complain
  | some word => exact Agrees.pure ⟨rfl, by rwa [List.append_nil]⟩

omit hunit in
theorem branch_agrees (opening : Token) (s : State) :
    Agrees s (branch σ opening (fuel + 1)) (branch τ opening (fuel + 1)) (AlikeNode σ τ) := by
  rw [branch, branch]
  refine Agrees.seq (Reads.recovering (condition_reads s)) fun header ts s' _ => ?_
  exact (ih.armsFrom opening _ [] [] s' ⟨rfl, Fill.nil⟩).behind ts

theorem armsFrom_agrees (opening : Token) (b : BranchSoFar) (arms : List (Arm Node))
    {us : List Token} (s : State) (h : AlikeArms σ τ b.arms arms us) :
    Agrees s (armsFrom σ opening (fuel + 1) b)
      (armsFrom τ opening (fuel + 1) { b with arms := arms })
      fun o o' ts => AlikeNode σ τ o o' (us ++ ts) := by
  rw [armsFrom, armsFrom, hunit]
  refine Agrees.bind (ih.body opening "if" _ s) ?_
  rintro ⟨ns, word⟩ ⟨ms, word'⟩ ts s' ⟨rfl, hbody⟩
  refine Agrees.spanFrom fun span s' => ?_
  have harms : AlikeArms σ τ (b.arms ++ [⟨b.condition, ns, span⟩])
      (arms ++ [⟨b.condition, ms, span⟩]) (us ++ ts) := h.concat hbody
  dsimp only
  split
  · refine Agrees.seq (endTag_reads "endif" s') fun _ vs s₂ _ => ?_
    split
    · exact Agrees.pure .none
    · refine Agrees.spanFrom fun span' s₃ => Agrees.pure ?_
      exact Alike.branch (harms.mono (by grind))
  · refine Agrees.seq (Q := fun _ _ => True)
      (Reads.of_bind (Reads.advance fun _ _ => Reads.pure trivial)) fun next vs s₂ _ => ?_
    refine Agrees.bind (nextArm_agrees _ _ s₂) ?_
    rintro c c' ws s₃ ⟨hc, rfl⟩
    refine (ih.armsFrom opening c _ (us ++ ts) s₃ (by rw [hc]; exact harms)).imp ?_
    exact fun _ _ xs ho => ho.mono (by grind)

omit ih in
theorem loopEnd_agrees (opening : Token) (header : Option (List String × Expr))
    {ns ms ns' ms' : List Node} {ts us : List Token} (s : State) (h : Alike σ τ ns ms ts)
    (h' : Alike σ τ ns' ms' us) :
    Agrees s (loopEnd σ opening header ns ns') (loopEnd τ opening header ms ms')
      fun o o' vs => AlikeNode σ τ o o' (ts ++ us ++ vs) := by
  unfold loopEnd
  rw [hunit]
  refine Agrees.seq (endTag_reads "endfor" s) fun _ vs s' _ => ?_
  split
  · exact Agrees.pure .none
  · exact Agrees.spanFrom fun span s₂ => Agrees.pure ((Alike.loop h h').mono (by grind))

theorem loop_agrees (opening : Token) (s : State) :
    Agrees s (loop σ opening (fuel + 1)) (loop τ opening (fuel + 1)) (AlikeNode σ τ) := by
  rw [loop_succ, loop_succ]
  refine Agrees.seq (Reads.recovering (loopHeader_reads s)) fun header ts s₁ _ => ?_
  refine Agrees.bind (ih.body opening "for" _ s₁) ?_
  rintro ⟨ns, word⟩ ⟨ms, word'⟩ us s₂ ⟨rfl, hbody⟩
  dsimp only
  split
  · refine Agrees.seq (endTag_reads "else" s₂) fun _ vs s₃ _ => ?_
    refine Agrees.bind (ih.body opening "for" _ s₃) ?_
    rintro ⟨ns', word'⟩ ⟨ms', word''⟩ ws s₄ ⟨-, helse⟩
    rw [pure_bind, pure_bind]
    have hend := loopEnd_agrees hunit opening header s₄ hbody helse
    exact hend.imp fun _ _ xs ho => ho.mono (by grind)
  · rw [pure_bind, pure_bind]
    have hnone : Alike σ τ [] [] [] := Alike.nil
    exact (loopEnd_agrees hunit opening header s₂ hbody hnone).imp
      fun _ _ xs ho => ho.mono (by grind)

theorem definition_agrees (opening : Token) (s : State) :
    Agrees s (definition σ opening (fuel + 1)) (definition τ opening (fuel + 1))
      (AlikeNode σ τ) := by
  have hheader : definitionHeader τ = definitionHeader σ := by
    unfold definitionHeader
    rw [hunit]
  rw [definition, definition, hheader, hunit]
  refine Agrees.seq (Reads.recovering (definitionHeader_reads σ s)) fun header ts s₁ _ => ?_
  refine Agrees.bind (ih.body opening "macro" _ s₁) ?_
  rintro ⟨ns, word⟩ ⟨ms, word'⟩ us s₂ ⟨-, hbody⟩
  refine Agrees.seq (endTag_reads "endmacro" s₂) fun _ vs s₃ _ => ?_
  cases header with
  | none => exact Agrees.pure .none
  | some h =>
      exact Agrees.spanFrom fun span s₄ =>
        Agrees.pure ((Alike.definition hbody).mono (by grind))

theorem callBlock_agrees (opening : Token) (s : State) :
    Agrees s (callBlock σ opening (fuel + 1)) (callBlock τ opening (fuel + 1)) (AlikeNode σ τ) := by
  rw [callBlock, callBlock, hunit]
  refine Agrees.seq (Reads.recovering (callHeader_reads s)) fun header ts s₁ _ => ?_
  refine Agrees.bind (ih.body opening "call" _ s₁) ?_
  rintro ⟨ns, word⟩ ⟨ms, word'⟩ us s₂ ⟨-, hbody⟩
  refine Agrees.seq (endTag_reads "endcall" s₂) fun _ vs s₃ _ => ?_
  cases header with
  | none => exact Agrees.pure .none
  | some call =>
      exact Agrees.spanFrom fun span s₄ =>
        Agrees.pure ((Alike.callBlock hbody).mono (by grind))

end

/-! ## Every amount of fuel -/

theorem templatesAgree {σ τ : Setting} (hunit : τ.unit = σ.unit) : ∀ fuel, TemplatesAgree σ τ fuel
  | 0 => templatesAgree_zero σ τ
  | fuel + 1 =>
      have ih := templatesAgree hunit fuel
      { nodesFrom := fun closers _ _ _ s h => nodesFrom_agrees ih closers s h
        tag := tag_agrees hunit ih
        statement := statement_agrees hunit ih
        body := body_agrees ih
        branch := branch_agrees ih
        armsFrom := fun opening b arms _ s h => armsFrom_agrees hunit ih opening b arms s h
        loop := loop_agrees hunit ih
        definition := definition_agrees hunit ih
        callBlock := callBlock_agrees hunit ih }

theorem templateBody_agrees {σ τ : Setting} (hunit : τ.unit = σ.unit) (s : State) :
    Agrees s (templateBody σ) (templateBody τ) (Alike σ τ) := by
  have h := (templatesAgree hunit (templateFuel s.unread.length)).nodesFrom [] [] [] [] s Alike.nil
  cases h with
  | ok hp hq hts h =>
      exact .ok (by rw [templateBody, hp]) (by rw [templateBody, hq]) hts h.2
  | @stop e s' ts hp hq hts =>
      cases e with
      | lexical f =>
          have hlost : ∀ setting : Setting,
              nodesFrom setting [] (templateFuel s.unread.length) [] s = .error (.lexical f) s' →
              templateBody setting s = .ok [] { s' with
                fault := none
                complaints := s'.complaints ++ [⟨.lexical f.problem, f.span⟩] } :=
            fun setting h => by rw [templateBody, h]
          exact .ok (hlost σ hp) (hlost τ hq) hts Alike.nil
      | _ => exact .stop (by rw [templateBody, hp]) (by rw [templateBody, hq]) hts

theorem template_agrees {σ τ : Setting} (hunit : τ.unit = σ.unit) (s : State) :
    Agrees s (template σ) (template τ) fun t t' ts =>
      t'.span = t.span ∧ Alike σ τ t.body t'.body ts := by
  unfold template
  rw [hunit]
  refine Agrees.bind (templateBody_agrees hunit s) fun ns ms ts s' h => ?_
  exact Agrees.spanFrom fun span s'' => Agrees.pure ⟨rfl, by rwa [List.append_nil]⟩

end Parser

/-! ## Sources -/

namespace Parser

theorem TextSite.span_eq {setting : Setting} {site : TextSite} {n : Template.Node}
    (h : site.node setting = some n) : n.span = site.token.span := by
  unfold node Setting.textNode at h
  dsimp only at h
  split at h
  · cases h
  · rw [← Option.some.inj h]
    rfl

end Parser

open TemplateCompiler.Parser (Setting TextSite)

/-- Two readings of the same tokens that differ in what is left of the texts. -/
structure Parsed.SameButTexts (σ τ : Setting) (ts : List Token) (p q : Parsed) : Prop where
  complaints : q.complaints = p.complaints
  span : q.template.span = p.template.span
  others : Template.nodesWithoutTexts q.template.body = Template.nodesWithoutTexts p.template.body
  /-- The text nodes of both are made of the same text tokens. Each stands where its token does. -/
  texts : ∃ sites : List TextSite,
    (sites.map TextSite.token).Sublist (ts.filter (·.kind = .text)) ∧
      Template.texts p.template.body = sites.filterMap (TextSite.node σ) ∧
      Template.texts q.template.body = sites.filterMap (TextSite.node τ) ∧
      ∀ site ∈ sites, ∀ n ∈ site.node σ, ∀ m ∈ site.node τ,
        n.span = site.token.span ∧ m.span = n.span

/-- Two whitespace modes give the same outcome up to the texts that are left. -/
theorem parse_sameButTexts (unit : String) (w w' : Whitespace) (d : Delimiters) (source : String) :
    match parse ⟨unit, w⟩ d source, parse ⟨unit, w'⟩ d source with
    | .ok p, .ok q => p.SameButTexts ⟨unit, w⟩ ⟨unit, w'⟩ (tokenize source unit d).1 q
    | .error e, .error e' => e' = e
    | _, _ => False := by
  have h := @Parser.template_agrees ⟨unit, w⟩ ⟨unit, w'⟩ rfl
    { unread := (tokenize source unit d).1, fault := (tokenize source unit d).2 }
  unfold parse parseTokens
  cases h with
  | stop hp hq hts => simp only [hp, hq]
  | @ok t t' s' ts hp hq hts h =>
      obtain ⟨hspan, hothers, sites, hsites, hns, hms⟩ := h
      simp only [hp, hq]
      refine ⟨rfl, hspan, hothers, sites, ?_, hns, hms, fun site _ n hn m hm => ?_⟩
      · have hts : (tokenize source unit d).1 = ts ++ s'.unread := hts
        rw [hts, List.filter_append]
        exact hsites.trans (List.sublist_append_left _ _)
      · rw [Parser.TextSite.span_eq hn, Parser.TextSite.span_eq hm]
        exact ⟨rfl, rfl⟩

end TemplateCompiler
