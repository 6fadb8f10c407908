import TemplateCompiler.Template.Parser.Statement

/-!
# The grammar

What token sequences mean, as relations that no parser stands behind. `Derives ts x` says that `ts`
spells the phrase `x`: an expression of some level, or arguments of a call or a filter. All infix
levels are left-associative: the left operand is of the level itself, the right one of the next
tighter level.

`Composes ts x` says the same of nodes, but only that the tokens of their parts stand among `ts`, in
order and apart. What else is there is left open: the words and delimiters of tags, comments, and
tags that were skipped because something was wrong in them.

The phrases are one inductive type, and so are the pieces of a template, so that a fact about all of
them is one induction on the derivation.
-/

namespace TemplateCompiler

open TemplateCompiler.Parser (Level)
open Template (Expr Node)

/-! ## Operators -/

/-- The tokens spell an infix operator of the level. Only `not in` has two. -/
inductive SpellsOperator : Level → List Token → BinaryOperator → Prop
  | single {level t op} (h : level.operator? t = some op) : SpellsOperator level [t] op
  | notIn {t u} (ht : t.isKeyword "not") (hu : u.isKeyword "in") :
      SpellsOperator .comparison [t, u] .notIn

/-! ## Phrases -/

/-- The tokens end in the name of a filter. A parenthesis behind them opens the arguments of the
filter, so what they spell is not called. -/
def EndsInFilterName (ts : List Token) : Prop :=
  ∃ us pipe name, ts = us ++ [pipe, name] ∧ pipe.kind = .pipe ∧ name.kind = .identifier

theorem not_endsInFilterName_single (t : Token) : ¬ EndsInFilterName [t] := by
  rintro ⟨us, pipe, name, hus, -⟩
  have hlength := congrArg List.length hus
  simp at hlength

theorem not_endsInFilterName_append {ts : List Token} {t : Token} (ht : t.kind ≠ .identifier) :
    ¬ EndsInFilterName (ts ++ [t]) := by
  rintro ⟨us, pipe, name, hus, -, hname⟩
  rw [show us ++ [pipe, name] = us ++ [pipe] ++ [name] by simp] at hus
  obtain ⟨-, hlast⟩ := List.append_inj' hus rfl
  obtain ⟨rfl, -⟩ := List.cons.inj hlast
  exact ht hname

theorem not_endsInFilterName_member {ts : List Token} {dot name : Token} (hdot : dot.kind ≠ .pipe) :
    ¬ EndsInFilterName (ts ++ [dot] ++ [name]) := by
  rintro ⟨us, pipe, name', hus, hpipe, -⟩
  rw [List.append_assoc] at hus
  obtain ⟨-, hlast⟩ := List.append_inj' hus rfl
  obtain ⟨rfl, -⟩ := List.cons.inj hlast
  exact hdot hpipe

inductive Phrase where
  | expr (level : Level) (e : Expr)
  /-- One argument, so one of the lists has one element and the other none. -/
  | argument (positional : List Expr) (named : List (NamedArgument Expr))
  /-- Arguments with a comma behind each. -/
  | leading (positional : List Expr) (named : List (NamedArgument Expr))
  /-- What may stand between the parentheses of a call. -/
  | arguments (positional : List Expr) (named : List (NamedArgument Expr))

inductive Derives : List Token → Phrase → Prop
  | tighter {ts level e} (h : Derives ts (.expr level.tighter e)) : Derives ts (.expr level e)
  | binary {ts os us level op left right span}
      (hl : Derives ts (.expr level left)) (ho : SpellsOperator level os op)
      (hr : Derives us (.expr level.tighter right))
      (hspan : left.span.upTo right.span = .ok span) :
      Derives (ts ++ os ++ us) (.expr level (.binary op left right span))
  | negation {t ts e span} (ht : t.isKeyword "not") (he : Derives ts (.expr .negation e))
      (hspan : t.span.upTo e.span = .ok span) :
      Derives (t :: ts) (.expr .negation (.unary .not e span))
  | sign {t ts op e span} (ht : Parser.signOperator? t = some op)
      (he : Derives ts (.expr .sign e)) (hspan : t.span.upTo e.span = .ok span) :
      Derives (t :: ts) (.expr .sign (.unary op e span))
  | member {ts e dot name span} (he : Derives ts (.expr .application e))
      (hdot : dot.kind = .dot) (hname : name.kind = .identifier)
      (hspan : e.span.upTo name.span = .ok span) :
      Derives (ts ++ [dot, name]) (.expr .application (.attribute e name.value span))
  | index {ts us e position opening closing span} (he : Derives ts (.expr .application e))
      (hopen : opening.kind = .leftBracket) (hp : Derives us (.expr .disjunction position))
      (hclose : closing.kind = .rightBracket) (hspan : e.span.upTo closing.span = .ok span) :
      Derives (ts ++ opening :: (us ++ [closing]))
        (.expr .application (.index e position span))
  | call {ts us e args named opening closing argsSpan span}
      (he : Derives ts (.expr .application e)) (hcallee : ¬ EndsInFilterName ts)
      (hopen : opening.kind = .leftParen)
      (ha : Derives us (.arguments args named)) (hclose : closing.kind = .rightParen)
      (hargs : opening.span.upTo closing.span = .ok argsSpan)
      (hspan : e.span.upTo closing.span = .ok span) :
      Derives (ts ++ opening :: (us ++ [closing]))
        (.expr .application (.call e args named argsSpan span))
  | filter {ts e pipe name span} (he : Derives ts (.expr .application e))
      (hpipe : pipe.kind = .pipe) (hname : name.kind = .identifier)
      (hspan : e.span.upTo name.span = .ok span) :
      Derives (ts ++ [pipe, name]) (.expr .application (.filter name.value e [] span))
  | filterWith {ts us e args pipe name opening closing span}
      (he : Derives ts (.expr .application e)) (hpipe : pipe.kind = .pipe)
      (hname : name.kind = .identifier) (hopen : opening.kind = .leftParen)
      (ha : Derives us (.arguments args [])) (hclose : closing.kind = .rightParen)
      (hspan : e.span.upTo closing.span = .ok span) :
      Derives (ts ++ pipe :: name :: opening :: (us ++ [closing]))
        (.expr .application (.filter name.value e args span))
  | name {t} (ht : t.kind = .identifier) :
      Derives [t] (.expr .application (.var t.value t.span))
  | string {t} (ht : t.kind = .string) :
      Derives [t] (.expr .application (.literal (.string t.value) t.span))
  | number {t value} (ht : t.kind = .number) (hv : Parser.readNumber t.value = .ok value) :
      Derives [t] (.expr .application (.literal value t.span))
  | constant {t value} (hv : Parser.constant? t = some value) :
      Derives [t] (.expr .application (.literal value t.span))
  | paren {ts opening closing e} (hopen : opening.kind = .leftParen)
      (he : Derives ts (.expr .disjunction e)) (hclose : closing.kind = .rightParen) :
      Derives (opening :: (ts ++ [closing])) (.expr .application e)
  | positional {ts e} (he : Derives ts (.expr .disjunction e)) : Derives ts (.argument [e] [])
  | named {ts name equals e span} (hname : name.kind = .identifier)
      (hequals : equals.kind = .equals) (he : Derives ts (.expr .disjunction e))
      (hspan : name.span.upTo e.span = .ok span) :
      Derives (name :: equals :: ts) (.argument [] [⟨name.value, e, name.span, span⟩])
  | start : Derives [] (.leading [] [])
  | comma {ts us args named args' named' comma} (hl : Derives ts (.leading args named))
      (ha : Derives us (.argument args' named')) (hcomma : comma.kind = .comma) :
      Derives (ts ++ us ++ [comma]) (.leading (args ++ args') (named ++ named'))
  | closed {ts args named} (hl : Derives ts (.leading args named)) :
      Derives ts (.arguments args named)
  | last {ts us args named args' named'} (hl : Derives ts (.leading args named))
      (ha : Derives us (.argument args' named')) :
      Derives (ts ++ us) (.arguments (args ++ args') (named ++ named'))

/-! ## Headers -/

section

variable {ts us vs ws : List Token}

theorem sublist_of_left (h : List.Sublist (ts ++ us) ws) : List.Sublist ts ws :=
  (List.sublist_append_left ts us).trans h

theorem sublist_of_right (h : List.Sublist (ts ++ us) ws) : List.Sublist us ws :=
  (List.sublist_append_right ts us).trans h

theorem sublist_of_middle (h : List.Sublist (ts ++ us ++ vs) ws) : List.Sublist us ws :=
  sublist_of_right (sublist_of_left h)

end

/-- The tokens of an expression stand among `ts`, in order. -/
def Spells (ts : List Token) (e : Expr) : Prop :=
  ∃ us, List.Sublist us ts ∧ Derives us (.expr .disjunction e)

theorem Spells.mono {ts us : List Token} {e : Expr} (h : Spells ts e) (hs : List.Sublist ts us) :
    Spells us e := by
  obtain ⟨vs, hvs, he⟩ := h
  exact ⟨vs, hvs.trans hs, he⟩

/-- Parameters of different names, with the tokens of their defaults among `ts`. -/
inductive SpellsParameters : List Token → List (Parameter Expr) → Prop
  | none {ts} : SpellsParameters ts []
  | more {ts us ws ps p} (hps : SpellsParameters ts ps) (hnew : p.name ∉ ps.map (·.name))
      (hd : ∀ e, p.default = some e → Spells us e) (hs : List.Sublist (ts ++ us) ws) :
      SpellsParameters ws (ps ++ [p])

theorem SpellsParameters.mono {ts us : List Token} {ps : List (Parameter Expr)}
    (h : SpellsParameters ts ps) (hs : List.Sublist ts us) : SpellsParameters us ps := by
  cases h with
  | none => exact .none
  | more hps hnew hd hts => exact .more hps hnew hd (hts.trans hs)

/-- The name of a definition and parameters behind it. -/
inductive SpellsSignature : List Token → Token → List (Parameter Expr) → Prop
  | signature {ts ws name params} (hname : name.kind = .identifier)
      (hp : SpellsParameters ts params) (hs : List.Sublist (name :: ts) ws) :
      SpellsSignature ws name params

theorem SpellsSignature.parameters {ts : List Token} {name : Token} {ps : List (Parameter Expr)}
    (h : SpellsSignature ts name ps) : SpellsParameters ts ps := by
  obtain ⟨-, hp, hs⟩ := h
  exact hp.mono ((List.sublist_cons_self _ _).trans hs)

/-- A name and arguments behind it, between parentheses. -/
inductive SpellsCall : List Token → MacroCall → Prop
  | call {ts ws name opening closing args named argsSpan span} (hname : name.kind = .identifier)
      (ha : Derives ts (.arguments args named))
      (hargs : opening.span.upTo closing.span = .ok argsSpan)
      (hspan : name.span.upTo closing.span = .ok span)
      (hs : List.Sublist (name :: opening :: (ts ++ [closing])) ws) :
      SpellsCall ws ⟨name.value, args, named, argsSpan, span⟩

/-! ## Nodes -/

inductive Piece where
  | node (n : Node)
  | nodes (ns : List Node)
  | arms (arms : List (Arm Node))

inductive Composes : List Token → Piece → Prop
  | output {ts e span} (he : Spells ts e) : Composes ts (.node (.output e span))
  | branch {ts arms span} (ha : Composes ts (.arms arms)) : Composes ts (.node (.branch arms span))
  | loop {ts us vs ws targets e body otherwise span} (he : Spells ts e)
      (hb : Composes us (.nodes body)) (ho : Composes vs (.nodes otherwise))
      (hs : List.Sublist (ts ++ us ++ vs) ws) :
      Composes ws (.node (.loop targets e body otherwise span))
  | definition {ts us ws name params body span} (hp : SpellsSignature ts name params)
      (hb : Composes us (.nodes body)) (hs : List.Sublist (ts ++ us) ws) :
      Composes ws (.node (.definition ⟨name.value, params, body, name.span, span⟩))
  | callBlock {ts us ws call body span} (hc : SpellsCall ts call)
      (hb : Composes us (.nodes body)) (hs : List.Sublist (ts ++ us) ws) :
      Composes ws (.node (.callBlock call body span))
  | inclusion {ts word closing path span} (hword : word.kind = .keyword)
      (hstop : span.stop = closing.span.stop) (hs : List.Sublist [word, closing] ts) :
      Composes ts (.node (.inclusion path span))
  | assignment {ts name e span} (he : Spells ts e) :
      Composes ts (.node (.assignment name e span))
  | empty {ts} : Composes ts (.nodes [])
  | text {ts ws ns t value} (hns : Composes ts (.nodes ns)) (ht : t.kind = .text)
      (hs : List.Sublist (ts ++ [t]) ws) : Composes ws (.nodes (ns ++ [.text value t.span]))
  | append {ts us ws ns n} (hns : Composes ts (.nodes ns)) (hn : Composes us (.node n))
      (hs : List.Sublist (ts ++ us) ws) : Composes ws (.nodes (ns ++ [n]))
  | noArms {ts} : Composes ts (.arms [])
  | arm {ts us vs ws arms condition body span} (ha : Composes ts (.arms arms))
      (hc : ∀ e, condition = some e → Spells us e) (hb : Composes vs (.nodes body))
      (hs : List.Sublist (ts ++ us ++ vs) ws) :
      Composes ws (.arms (arms ++ [⟨condition, body, span⟩]))

theorem Composes.mono {ts us : List Token} {x : Piece} (h : Composes ts x)
    (hs : List.Sublist ts us) : Composes us x := by
  induction h with
  | output he => exact .output (he.mono hs)
  | branch _ ih => exact .branch (ih hs)
  | loop he hb ho hts => exact .loop he hb ho (hts.trans hs)
  | definition hp hb hts => exact .definition hp hb (hts.trans hs)
  | callBlock hc hb hts => exact .callBlock hc hb (hts.trans hs)
  | inclusion hword hstop hts => exact .inclusion hword hstop (hts.trans hs)
  | assignment he => exact .assignment (he.mono hs)
  | empty => exact .empty
  | text hns ht hts => exact .text hns ht (hts.trans hs)
  | append hns hn hts => exact .append hns hn (hts.trans hs)
  | noArms => exact .noArms
  | arm ha hc hb hts => exact .arm ha hc hb (hts.trans hs)

end TemplateCompiler
