import TemplateCompiler.Proofs.Spelling

/-!
# What is spelled follows the grammar of expressions

Tokens with the lexemes that an expression is spelled by denote that expression, up to spans. There
is one rule for each way to spell something, so that an expression is followed through its tree.
-/

namespace TemplateCompiler

open Template (Expr bareExprs bareNamed)
open TemplateCompiler.Parser (Level)

/-- The lexemes write the phrase: it is what all tokens with these lexemes denote. -/
def Writes (ls : List Lexeme) (x : Phrase) : Prop :=
  ∀ ts : List Token, ts.map Token.lexeme = ls → Denotes ts x

/-! ## Tokens of lexemes -/

section

variable {ts : List Token} {l : Lexeme} {ls ls' : List Lexeme}

theorem tokens_of_parenthesized (h : ts.map Token.lexeme = parenthesized ls) :
    ∃ opening us closing, ts = opening :: (us ++ [closing]) ∧ opening.kind = .leftParen ∧
      us.map Token.lexeme = ls ∧ closing.kind = .rightParen := by
  obtain ⟨opening, vs, rfl, hopen, hvs⟩ := List.map_eq_cons_iff.mp h
  obtain ⟨us, ws, rfl, hus, hws⟩ := List.map_eq_append_iff.mp hvs
  obtain ⟨closing, rfl, hclose⟩ := List.map_eq_singleton_iff.mp hws
  exact ⟨opening, us, closing, rfl, congrArg Prod.fst hopen, hus, congrArg Prod.fst hclose⟩

/-- Only a name ends the name of a filter. -/
theorem not_endsInFilterName_of_last (h : ts.map Token.lexeme = ls ++ [l])
    (hl : l.1 ≠ .identifier) : ¬ EndsInFilterName ts := by
  obtain ⟨us, vs, rfl, -, hvs⟩ := List.map_eq_append_iff.mp h
  obtain ⟨t, rfl, rfl⟩ := List.map_eq_singleton_iff.mp hvs
  exact not_endsInFilterName_append hl

/-- A name behind a point is the name of a member. -/
theorem not_endsInFilterName_of_member {name : Lexeme}
    (h : ts.map Token.lexeme = ls ++ [(.dot, "."), name]) : ¬ EndsInFilterName ts := by
  obtain ⟨us, vs, rfl, -, hvs⟩ := List.map_eq_append_iff.mp h
  obtain ⟨dot, ws, rfl, hdot, hws⟩ := List.map_eq_cons_iff.mp hvs
  obtain ⟨t, rfl, -⟩ := List.map_eq_singleton_iff.mp hws
  have hkind : dot.kind = .dot := congrArg Prod.fst hdot
  simpa using @not_endsInFilterName_member us dot t (by simp [hkind])

theorem not_endsInFilterName_parenthesized (h : ts.map Token.lexeme = ls ++ parenthesized ls') :
    ¬ EndsInFilterName ts := by
  have hlast : ts.map Token.lexeme = (ls ++ (.leftParen, "(") :: ls') ++ [(.rightParen, ")")] := by
    rw [h]
    simp [parenthesized]
  exact not_endsInFilterName_of_last hlast (by simp)

end

/-! ## Literals -/

theorem Numeral.isDigit_of_mem_toDigits {n : Nat} {c : Char} (h : c ∈ Nat.toDigits 10 n) :
    isDigit c = true := by
  have hdigit := Nat.isDigit_of_mem_toDigits (by decide) (by decide) h
  simpa [isDigit, Char.isDigit, Char.le_def] using hdigit

/-- The digits of a number are a text for it. -/
theorem NumberText.of_nat {n : Nat} (h : (toString n).length ≤ Numeral.digitLimit) :
    NumberText (toString n) (.integer n) := by
  rw [Nat.toString_eq_ofList_toDigits] at h ⊢
  rw [String.length_ofList] at h
  have hvalue : Numeral.digitsValue (Nat.toDigits 10 n) = n := by
    have h := @Nat.ofDigitChars_ten_toDigits n
    rw [Nat.ofDigitChars_eq_foldl] at h
    exact h
  have htext := NumberText.integer (List.ne_nil_of_length_pos Nat.length_toDigits_pos) h
    fun c => Numeral.isDigit_of_mem_toDigits
  rwa [hvalue] at htext

theorem Literal.Writable.spells {value : Literal} (h : value.Writable) :
    Writes [value.lexeme] (.expr .application (.literal value .blank)) := by
  intro ts hts
  obtain ⟨t, rfl, ht⟩ := List.map_eq_singleton_iff.mp hts
  have hkind := congrArg Prod.fst ht
  have hvalue : t.value = _ := congrArg Prod.snd ht
  cases h with
  | @string value _ =>
      have hliteral := Denotes.string hkind
      rwa [hvalue] at hliteral
  | integer h => exact .number hkind (hvalue ▸ .of_nat h)
  | @boolean b =>
      exact .constant hkind (by rw [hvalue]; cases b <;> simp [Literal.lexeme, constants])
  | none => exact .constant hkind (by rw [hvalue]; simp [Literal.lexeme, constants])

/-! ## Levels -/

namespace Writes

variable {ls ls' : List Lexeme} {e e' : Expr} {level : Level}

theorem loosen {loose tight : Level} (h : Writes ls (.expr tight e))
    (hle : loose.rank ≤ tight.rank) : Writes ls (.expr loose e) :=
  fun ts hts => (h ts hts).loosen hle

/-- What may stand at any place is an expression of the loosest level. -/
theorem disjunction (h : Writes ls (.expr level e)) : Writes ls (.expr .disjunction e) :=
  h.loosen (Nat.zero_le _)

theorem parenthesized (h : Writes ls (.expr level e)) (wanted : Level) :
    Writes (parenthesized ls) (.expr wanted e) := by
  intro ts hts
  obtain ⟨opening, us, closing, rfl, hopen, hus, hclose⟩ := tokens_of_parenthesized hts
  exact (Denotes.paren hopen (h.disjunction us hus) hclose).loosen wanted.rank_le

theorem enclosed (h : Writes ls (.expr level e)) (wanted : Level) :
    Writes (enclosed wanted level ls) (.expr wanted e) := by
  unfold TemplateCompiler.enclosed
  split
  · next hle => exact h.loosen hle
  · exact h.parenthesized wanted

/-! ## Operators -/

theorem binary {op : BinaryOperator} (hl : Writes ls (.expr op.level e))
    (hr : Writes ls' (.expr op.level.tighter e')) :
    Writes (ls ++ op.lexemes ++ ls') (.expr op.level (.binary op e e' .blank)) := by
  intro ts hts
  obtain ⟨xs, ws, rfl, hxs, hws⟩ := List.map_eq_append_iff.mp hts
  obtain ⟨us, vs, rfl, hus, hvs⟩ := List.map_eq_append_iff.mp hxs
  exact .binary (hl us hus) hvs op.before_tighter (hr ws hws)

theorem unary {op : UnaryOperator} (h : Writes ls (.expr op.level e)) :
    Writes (op.lexeme :: ls) (.expr op.level (.unary op e .blank)) := by
  intro ts hts
  obtain ⟨t, us, rfl, ht, hus⟩ := List.map_eq_cons_iff.mp hts
  exact .unary ht (h us hus)

/-! ## What follows an expression -/

theorem member (h : Writes ls (.expr .application e)) (name : String) :
    Writes (ls ++ [(.dot, "."), (.identifier, name)])
      (.expr .application (.attribute e name .blank)) := by
  intro ts hts
  obtain ⟨us, vs, rfl, hus, hvs⟩ := List.map_eq_append_iff.mp hts
  obtain ⟨dot, ws, rfl, hdot, hws⟩ := List.map_eq_cons_iff.mp hvs
  obtain ⟨t, rfl, ht⟩ := List.map_eq_singleton_iff.mp hws
  obtain ⟨hkind, rfl⟩ := Prod.mk.inj ht
  exact .member (h us hus) (congrArg Prod.fst hdot) hkind

theorem index (h : Writes ls (.expr .application e)) (h' : Writes ls' (.expr .disjunction e')) :
    Writes (ls ++ (.leftBracket, "[") :: (ls' ++ [(.rightBracket, "]")]))
      (.expr .application (.index e e' .blank)) := by
  intro ts hts
  obtain ⟨us, vs, rfl, hus, hvs⟩ := List.map_eq_append_iff.mp hts
  obtain ⟨opening, xs, rfl, hopen, hxs⟩ := List.map_eq_cons_iff.mp hvs
  obtain ⟨ws, ys, rfl, hws, hys⟩ := List.map_eq_append_iff.mp hxs
  obtain ⟨closing, rfl, hclose⟩ := List.map_eq_singleton_iff.mp hys
  exact .index (h us hus) (congrArg Prod.fst hopen) (h' ws hws) (congrArg Prod.fst hclose)

theorem filter (h : Writes ls (.expr .application e)) (name : String) :
    Writes (ls ++ [(.pipe, "|"), (.identifier, name)])
      (.expr .application (.filter name e [] .blank)) := by
  intro ts hts
  obtain ⟨us, vs, rfl, hus, hvs⟩ := List.map_eq_append_iff.mp hts
  obtain ⟨pipe, ws, rfl, hpipe, hws⟩ := List.map_eq_cons_iff.mp hvs
  obtain ⟨t, rfl, ht⟩ := List.map_eq_singleton_iff.mp hws
  obtain ⟨hkind, rfl⟩ := Prod.mk.inj ht
  exact .filter (h us hus) (congrArg Prod.fst hpipe) hkind

theorem filterWith {args : List Expr} (h : Writes ls (.expr .application e)) (name : String)
    (ha : Writes ls' (.arguments args [])) :
    Writes (ls ++ (.pipe, "|") :: (.identifier, name) :: TemplateCompiler.parenthesized ls')
      (.expr .application (.filter name e args .blank)) := by
  intro ts hts
  obtain ⟨us, vs, rfl, hus, hvs⟩ := List.map_eq_append_iff.mp hts
  obtain ⟨pipe, xs, rfl, hpipe, hxs⟩ := List.map_eq_cons_iff.mp hvs
  obtain ⟨t, ys, rfl, ht, hys⟩ := List.map_eq_cons_iff.mp hxs
  obtain ⟨hkind, rfl⟩ := Prod.mk.inj ht
  obtain ⟨opening, ws, closing, rfl, hopen, hws, hclose⟩ := tokens_of_parenthesized hys
  exact .filterWith (h us hus) (congrArg Prod.fst hpipe) hkind hopen (ha ws hws) hclose

end Writes

/-! ## Arguments -/

/-- Each item is spelled as an argument. -/
inductive SpellArguments : List (List Lexeme) → List Expr → List (NamedArgument Expr) → Prop
  | none : SpellArguments [] [] []
  | more {item items args named args' named'} (hitem : Writes item (.argument args named))
      (h : SpellArguments items args' named') :
      SpellArguments (item :: items) (args ++ args') (named ++ named')

theorem SpellArguments.spells {items : List (List Lexeme)} {args : List Expr}
    {named : List (NamedArgument Expr)} (h : SpellArguments items args named) :
    Writes (commaSeparatedLexemes items) (.arguments args named) := by
  induction h with
  | none =>
      intro ts hts
      rw [List.map_eq_nil_iff.mp hts]
      exact .none
  | @more item items args named args' named' hitem h ih =>
      intro ts hts
      cases items with
      | nil =>
          cases h
          simpa using Denotes.last (hitem ts hts)
      | cons next items =>
          obtain ⟨us, vs, rfl, hus, hvs⟩ := List.map_eq_append_iff.mp hts
          obtain ⟨comma, ws, rfl, hcomma, hws⟩ := List.map_eq_cons_iff.mp hvs
          exact .more (hitem us hus) (congrArg Prod.fst hcomma) (ih ws hws)

/-- However the values of arguments are written, the arguments are written by them. -/
theorem SpellArguments.of_map {write : Expr → List Lexeme} {args : List Expr}
    {named : List (NamedArgument Expr)}
    (hargs : ∀ e ∈ args, Writes (write e) (.expr .disjunction e.bare))
    (hnamed : ∀ a ∈ named, Writes (write a.value) (.expr .disjunction a.value.bare)) :
    SpellArguments (args.map write ++
        named.map fun a => (.identifier, a.name) :: (.equals, "=") :: write a.value)
      (bareExprs args) (bareNamed named) := by
  induction args with
  | nil =>
      induction named with
      | nil => exact .none
      | cons a named ih =>
          obtain ⟨ha, hnamed⟩ := List.forall_mem_cons.mp hnamed
          have hitem : Writes ((.identifier, a.name) :: (.equals, "=") :: write a.value)
              (.argument [] [⟨a.name, a.value.bare, .blank, .blank⟩]) := by
            intro ts hts
            obtain ⟨name, us, rfl, hname, hus⟩ := List.map_eq_cons_iff.mp hts
            obtain ⟨equals, vs, rfl, hequals, hvs⟩ := List.map_eq_cons_iff.mp hus
            have hvalue : name.value = a.name := congrArg Prod.snd hname
            rw [← hvalue]
            exact .named (congrArg Prod.fst hname) (congrArg Prod.fst hequals) (ha vs hvs)
          exact .more hitem (ih hnamed)
  | cons e args ih =>
      obtain ⟨he, hargs⟩ := List.forall_mem_cons.mp hargs
      have hitem : Writes (write e) (.argument [e.bare] []) := fun ts hts => .positional (he ts hts)
      exact .more hitem (ih hargs)

/-- The expression is denoted by what it is spelled by. -/
abbrev Template.Expr.IsSpelled (e : Expr) : Prop :=
  Writes e.spelling (.expr e.level e.bare)

theorem Template.spellings_eq_map (es : List Expr) : spellings es = es.map Expr.spelling := by
  induction es with
  | nil => rfl
  | cons e es ih => rw [spellings, ih, List.map_cons]

theorem Template.namedSpellings_eq_map (as : List (NamedArgument Expr)) :
    namedSpellings as =
      as.map fun a => (.identifier, a.name) :: (.equals, "=") :: a.value.spelling := by
  induction as with
  | nil => rfl
  | cons a as ih => rw [namedSpellings, ih, List.map_cons]

theorem spellings_spell {args : List Expr} {named : List (NamedArgument Expr)}
    (hargs : ∀ e ∈ args, e.IsSpelled) (hnamed : ∀ a ∈ named, a.value.IsSpelled) :
    SpellArguments (Template.spellings args ++ Template.namedSpellings named) (bareExprs args)
      (bareNamed named) := by
  rw [Template.spellings_eq_map, Template.namedSpellings_eq_map]
  exact .of_map (fun e he => (hargs e he).disjunction) fun a ha => (hnamed a ha).disjunction

/-! ## Expressions -/

theorem BinaryOperator.rank_lt (op : BinaryOperator) :
    op.level.rank < Level.application.rank := by
  cases op <;> decide

theorem UnaryOperator.rank_lt (op : UnaryOperator) :
    op.level.rank < Level.application.rank := by
  cases op <;> decide

/-- What is called does not end in the name of a filter. -/
theorem enclosedCallee_not_endsInFilterName (func : Expr) {ts : List Token}
    (hts : ts.map Token.lexeme = enclosedCallee func func.spelling) : ¬ EndsInFilterName ts := by
  have hself (ls : List Lexeme) : enclosed .application .application ls = ls :=
    if_pos (Nat.le_refl _)
  have htight {level : Level} (hlevel : level.rank < Level.application.rank) (ls : List Lexeme) :
      enclosed .application level ls = parenthesized ls := if_neg (Nat.not_le_of_lt hlevel)
  cases func with
  | literal value span | var name span =>
      change ts.map Token.lexeme = enclosed .application .application _ at hts
      rw [hself] at hts
      obtain ⟨t, rfl, -⟩ := List.map_eq_singleton_iff.mp hts
      exact not_endsInFilterName_single t
  | binary op left right span =>
      change ts.map Token.lexeme = enclosed .application op.level _ at hts
      rw [htight op.rank_lt] at hts
      exact @not_endsInFilterName_parenthesized ts [] _ hts
  | unary op operand span =>
      change ts.map Token.lexeme = enclosed .application op.level _ at hts
      rw [htight op.rank_lt] at hts
      exact @not_endsInFilterName_parenthesized ts [] _ hts
  | filter name value args span =>
      cases args with
      | nil => exact @not_endsInFilterName_parenthesized ts [] _ hts
      | cons e args =>
          change ts.map Token.lexeme = enclosed .application .application _ at hts
          rw [hself, Expr.spelling, if_neg (by simp), List.append_cons, List.append_cons] at hts
          exact not_endsInFilterName_parenthesized hts
  | index value position span =>
      change ts.map Token.lexeme = enclosed .application .application _ at hts
      rw [hself, Expr.spelling, ← List.cons_append, ← List.append_assoc] at hts
      exact not_endsInFilterName_of_last hts (by simp)
  | «attribute» value name span =>
      change ts.map Token.lexeme = enclosed .application .application _ at hts
      rw [hself, Expr.spelling] at hts
      exact not_endsInFilterName_of_member hts
  | call func args named argsSpan span =>
      change ts.map Token.lexeme = enclosed .application .application _ at hts
      rw [hself, Expr.spelling] at hts
      exact not_endsInFilterName_parenthesized hts

theorem Template.Expr.IsSpelled.callee {func : Expr} (h : func.IsSpelled) :
    Writes (enclosedCallee func func.spelling) (.expr .application func.bare) := by
  unfold enclosedCallee
  split
  · exact h.parenthesized _
  · exact h.enclosed _

theorem Template.Expr.Writable.isSpelled {e : Expr} (h : e.Writable) : e.IsSpelled := by
  induction h with
  | literal h => exact h.spells
  | var h =>
      intro ts hts
      obtain ⟨t, rfl, ht⟩ := List.map_eq_singleton_iff.mp hts
      obtain ⟨hkind, rfl⟩ := Prod.mk.inj ht
      exact .name hkind
  | binary _ _ ihl ihr => exact (ihl.enclosed _).binary (ihr.enclosed _)
  | unary _ ih => exact (ih.enclosed _).unary
  | @filter name value args span _ _ _ ih ihargs =>
      cases args with
      | nil => exact (ih.enclosed _).filter name
      | cons e args =>
          have hargs := @spellings_spell (e :: args) [] ihargs (by simp)
          rw [Template.namedSpellings, List.append_nil] at hargs
          exact (ih.enclosed _).filterWith name hargs.spells
  | index _ _ ih ihp => exact (ih.enclosed _).index ihp.disjunction
  | «attribute» _ _ ih => exact (ih.enclosed _).member _
  | @call func args named argsSpan span _ _ _ _ ih ihargs ihnamed =>
      intro ts hts
      obtain ⟨us, vs, rfl, hus, hvs⟩ := List.map_eq_append_iff.mp hts
      obtain ⟨opening, ws, closing, rfl, hopen, hws, hclose⟩ := tokens_of_parenthesized hvs
      exact .call (ih.callee us hus) (enclosedCallee_not_endsInFilterName func hus) hopen
        ((spellings_spell ihargs ihnamed).spells ws hws) hclose

end TemplateCompiler
