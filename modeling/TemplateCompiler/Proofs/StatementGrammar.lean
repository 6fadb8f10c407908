import TemplateCompiler.Proofs.ExpressionGrammar
import TemplateCompiler.Proofs.Nesting

/-!
# The grammar of statements

What the tokens of a template stand for, if nothing is wrong with them. Like the grammar of
expressions that it builds on, `Describes` is about the kinds and values of tokens alone, and the
trees in it have no spans.

An `else` belongs to the block that is open where it stands, since a body is a whole list of nodes
and no node starts with the keyword of a tag that closes a block.
-/

namespace TemplateCompiler

open Template (Expr Node)

/-! ## Headers -/

/-- A block tag with that keyword, and `us` behind it. -/
structure Tag.Holds (g : Tag) (word : String) (us : List Token) : Prop where
  opening : g.opening.kind = .blockStart
  inside : ∃ w : Token, g.inside = w :: us ∧ w.lexeme = (.keyword, word)
  closing : g.closing.kind = .blockEnd

theorem Tag.Holds.tokens_eq {g : Tag} {word : String} {us : List Token} (hg : g.Holds word us) :
    ∃ w : Token, w.kind = .keyword ∧ w.value = word ∧
      g.tokens = g.opening :: w :: (us ++ [g.closing]) := by
  obtain ⟨w, hinside, hw⟩ := hg.inside
  exact ⟨w, congrArg Prod.fst hw, congrArg Prod.snd hw, by rw [Tag.tokens, hinside]; rfl⟩

/-- Names with commas between them. -/
inductive Names : List Token → List String → Prop
  | last {t : Token} (ht : t.kind = .identifier) : Names [t] [t.value]
  | more {t comma : Token} {ts : List Token} {names : List String} (ht : t.kind = .identifier)
      (hcomma : comma.kind = .comma) (h : Names ts names) :
      Names (t :: comma :: ts) (t.value :: names)

theorem Names.head {ts : List Token} {names : List String} (h : Names ts names) :
    ∃ t us, ts = t :: us ∧ t.kind = .identifier := by
  cases h with
  | last ht => exact ⟨_, _, rfl, ht⟩
  | more ht _ _ => exact ⟨_, _, rfl, ht⟩

/-- A parameter, and its default behind an equals sign if it has one. -/
inductive DeclaresOne : List Token → Parameter Expr → Prop
  | required {t : Token} (ht : t.kind = .identifier) : DeclaresOne [t] ⟨t.value, none, .blank⟩
  | optional {t equals : Token} {ts : List Token} {e : Expr} (ht : t.kind = .identifier)
      (hequals : equals.kind = .equals) (he : Denotes ts (.expr .disjunction e)) :
      DeclaresOne (t :: equals :: ts) ⟨t.value, some e, .blank⟩

/-- Parameters of different names. A comma may follow the last. -/
inductive Declares : List Token → List (Parameter Expr) → Prop
  | none : Declares [] []
  | last {ts : List Token} {p : Parameter Expr} (hp : DeclaresOne ts p) : Declares ts [p]
  | more {ts us : List Token} {comma : Token} {p : Parameter Expr} {ps : List (Parameter Expr)}
      (hp : DeclaresOne ts p) (hcomma : comma.kind = .comma) (h : Declares us ps)
      (hnew : p.name ∉ ps.map (·.name)) : Declares (ts ++ comma :: us) (p :: ps)

/-! ## Nodes -/

/-- What a sequence of tokens describes. -/
inductive Passage where
  | nodes (ns : List Node)
  /-- What follows a header with that condition, through the end of the branch. -/
  | arms (condition : Option Expr) (arms : List (Arm Node))

inductive Describes : List Token → Passage → Prop
  | done : Describes [] (.nodes [])
  | text {t : Token} {ts : List Token} {ns : List Node} (ht : t.kind = .text) (hne : t.value ≠ "")
      (h : Describes ts (.nodes ns)) : Describes (t :: ts) (.nodes (.text t.value .blank :: ns))
  | comment {opening body closing : Token} {ts : List Token} {ns : List Node}
      (hopen : opening.kind = .commentStart) (hbody : body.kind = .comment)
      (hclose : closing.kind = .commentEnd) (h : Describes ts (.nodes ns)) :
      Describes (opening :: body :: closing :: ts) (.nodes ns)
  | output {opening closing : Token} {us ts : List Token} {e : Expr} {ns : List Node}
      (hopen : opening.kind = .exprStart) (he : Denotes us (.expr .disjunction e))
      (hclose : closing.kind = .exprEnd) (h : Describes ts (.nodes ns)) :
      Describes (opening :: (us ++ closing :: ts)) (.nodes (.output e .blank :: ns))
  | inclusion {g : Tag} {path : Token} {ts : List Token} {ns : List Node}
      (hg : g.Holds "include" [path]) (hpath : path.kind = .string)
      (h : Describes ts (.nodes ns)) :
      Describes (g.tokens ++ ts) (.nodes (.inclusion path.value .blank :: ns))
  | assignment {g : Tag} {word : String} {name equals : Token} {us ts : List Token} {e : Expr}
      {ns : List Node} (hword : word = "set" ∨ word = "let")
      (hg : g.Holds word (name :: equals :: us)) (hname : name.kind = .identifier)
      (hequals : equals.kind = .equals)
      (he : Denotes us (.expr .disjunction e)) (h : Describes ts (.nodes ns)) :
      Describes (g.tokens ++ ts) (.nodes (.assignment name.value e .blank :: ns))
  | branch {g : Tag} {us vs ts : List Token} {c : Expr} {arms : List (Arm Node)} {ns : List Node}
      (hg : g.Holds "if" us) (hc : Denotes us (.expr .disjunction c))
      (ha : Describes vs (.arms (some c) arms)) (h : Describes ts (.nodes ns)) :
      Describes (g.tokens ++ (vs ++ ts)) (.nodes (.branch arms .blank :: ns))
  | loop {g last : Tag} {us vs ws ts : List Token} {into : Token} {targets : List String} {e : Expr}
      {body ns : List Node} (hg : g.Holds "for" (us ++ into :: vs)) (ht : Names us targets)
      (hinto : into.lexeme = (.keyword, "in")) (he : Denotes vs (.expr .disjunction e))
      (hb : Describes ws (.nodes body)) (hlast : last.Holds "endfor" [])
      (h : Describes ts (.nodes ns)) :
      Describes (g.tokens ++ (ws ++ (last.tokens ++ ts)))
        (.nodes (.loop targets e body [] .blank :: ns))
  | loopElse {g middle last : Tag} {us vs ws os ts : List Token} {into : Token}
      {targets : List String} {e : Expr} {body otherwise ns : List Node}
      (hg : g.Holds "for" (us ++ into :: vs)) (ht : Names us targets)
      (hinto : into.lexeme = (.keyword, "in")) (he : Denotes vs (.expr .disjunction e))
      (hb : Describes ws (.nodes body)) (hmiddle : middle.Holds "else" [])
      (ho : Describes os (.nodes otherwise)) (hlast : last.Holds "endfor" [])
      (h : Describes ts (.nodes ns)) :
      Describes (g.tokens ++ (ws ++ (middle.tokens ++ (os ++ (last.tokens ++ ts)))))
        (.nodes (.loop targets e body otherwise .blank :: ns))
  | definition {g last : Tag} {us ws ts : List Token} {name opening closing : Token}
      {params : List (Parameter Expr)} {body ns : List Node}
      (hg : g.Holds "macro" (name :: opening :: (us ++ [closing])))
      (hname : name.kind = .identifier) (hopen : opening.kind = .leftParen)
      (hp : Declares us params) (hclose : closing.kind = .rightParen)
      (hb : Describes ws (.nodes body)) (hlast : last.Holds "endmacro" [])
      (h : Describes ts (.nodes ns)) :
      Describes (g.tokens ++ (ws ++ (last.tokens ++ ts)))
        (.nodes (.definition ⟨name.value, params, body, .blank, .blank⟩ :: ns))
  | callBlock {g last : Tag} {us ws ts : List Token} {name opening closing : Token}
      {args : List Expr} {named : List (NamedArgument Expr)} {body ns : List Node}
      (hg : g.Holds "call" (name :: opening :: (us ++ [closing])))
      (hname : name.kind = .identifier) (hopen : opening.kind = .leftParen)
      (ha : Denotes us (.arguments args named)) (hclose : closing.kind = .rightParen)
      (hb : Describes ws (.nodes body)) (hlast : last.Holds "endcall" [])
      (h : Describes ts (.nodes ns)) :
      Describes (g.tokens ++ (ws ++ (last.tokens ++ ts)))
        (.nodes (.callBlock ⟨name.value, args, named, .blank, .blank⟩ body .blank :: ns))
  | endBranch {last : Tag} {ws : List Token} {condition : Option Expr} {body : List Node}
      (hb : Describes ws (.nodes body)) (hlast : last.Holds "endif" []) :
      Describes (ws ++ last.tokens) (.arms condition [⟨condition, body, .blank⟩])
  | nextArm {middle : Tag} {us vs ws : List Token} {condition : Option Expr} {c : Expr}
      {body : List Node} {arms : List (Arm Node)} (hb : Describes ws (.nodes body))
      (hmiddle : middle.Holds "elif" us) (hc : Denotes us (.expr .disjunction c))
      (ha : Describes vs (.arms (some c) arms)) :
      Describes (ws ++ (middle.tokens ++ vs)) (.arms condition (⟨condition, body, .blank⟩ :: arms))
  | lastArm {middle last : Tag} {ws os : List Token} {condition : Option Expr}
      {body otherwise : List Node} (hb : Describes ws (.nodes body))
      (hmiddle : middle.Holds "else" []) (ho : Describes os (.nodes otherwise))
      (hlast : last.Holds "endif" []) :
      Describes (ws ++ (middle.tokens ++ (os ++ last.tokens)))
        (.arms condition [⟨condition, body, .blank⟩, ⟨none, otherwise, .blank⟩])

end TemplateCompiler
