import TemplateCompiler.Proofs.Outputs
import TemplateCompiler.Proofs.Parentheses
import TemplateCompiler.Proofs.ParseTotal
import TemplateCompiler.Proofs.ReadExpressions

/-!
# Which expressions survive being printed

Parentheses are printed around infix operators and around nothing else. So what is printed for an
operand of a prefix operator, or for what is called, indexed, filtered or asked for a member, may be
read as something else: `(-x).y` is printed as `-x.y`. An expression `Fits` if no operand in it is
printed without the parentheses it needs, and exactly then the grammar gives what is printed for the
expression back to it.

That those expressions are denoted by what is printed for them is one rule for each way to build
one. The converse is about tokens that denote the expression and are printed for it: the grammar
cuts them into the same parts as the printer does, by their balance and their bulk.
-/

namespace TemplateCompiler

open Template (Expr Node bareExprs bareNamed printedAll printedNamed walkAll)
open TemplateCompiler.Parser (Level)

variable {ts : List Token} {level : Level} {e : Expr} {args : List Expr}
  {named : List (NamedArgument Expr)}

/-! ## What fits -/

namespace Template.Expr

/-- The level that what is printed for the expression has, where it is read as that expression. Only
a prefix operator is not enclosed by what is printed. -/
def printLevel : Expr → Level
  | .unary op _ _ => op.level
  | _ => .application

/-- The level that stands at a place takes what is printed for the expression. -/
def FitsIn (e : Expr) (level : Level) : Prop :=
  level.rank ≤ e.printLevel.rank

/-- A filter without arguments. Where it is called, the arguments of the call are its own. -/
def IsBareFilter : Expr → Prop
  | .filter _ _ args _ => args = []
  | _ => False

/-- The parts of the expression need no parentheses but those that are printed. -/
def FitsHere : Expr → Prop
  | .binary op left right _ => left.FitsIn op.level ∧ right.FitsIn op.level.tighter
  | .unary op operand _ => operand.FitsIn op.level
  | .filter _ value _ _ | .index value _ _ | .attribute value _ _ => value.FitsIn .application
  | .call func _ _ _ _ => func.FitsIn .application ∧ ¬ func.IsBareFilter
  | .literal _ _ | .var _ _ => True

/-- Nothing in the expression needs parentheses that are not printed. -/
def Fits (e : Expr) : Prop :=
  e.Throughout FitsHere

instance (e : Expr) (level : Level) : Decidable (e.FitsIn level) :=
  inferInstanceAs (Decidable (_ ≤ _))

instance : DecidablePred IsBareFilter
  | .filter _ _ args _ => inferInstanceAs (Decidable (args = []))
  | .literal .. | .var .. | .binary .. | .unary .. | .index .. | .attribute .. | .call .. =>
    inferInstanceAs (Decidable False)

instance : DecidablePred FitsHere
  | .binary .. | .call .. => inferInstanceAs (Decidable (_ ∧ _))
  | .unary .. | .filter .. | .index .. | .attribute .. => inferInstanceAs (Decidable (FitsIn ..))
  | .literal .. | .var .. => inferInstanceAs (Decidable True)

instance (e : Expr) : Decidable e.Fits :=
  inferInstanceAs (Decidable (e.Throughout FitsHere))

theorem fits_iff : e.Fits ↔ e.FitsHere ∧ ∀ x ∈ e.children, x.Fits :=
  throughout_iff

end Template.Expr

/-! ## What fits is denoted by what is printed -/

/-- The expression is denoted by what is printed for it. -/
abbrev Template.Expr.IsPrinted (e : Expr) : Prop :=
  Writes e.printed (.expr e.printLevel e.bare)

theorem printed_spells (hargs : ∀ e ∈ args, e.IsPrinted) (hnamed : ∀ a ∈ named, a.value.IsPrinted) :
    Writes (commaSeparatedLexemes (printedAll args ++ printedNamed named))
      (.arguments (bareExprs args) (bareNamed named)) := by
  rw [Template.printedAll_eq_map, Template.printedNamed_eq_map]
  exact (SpellArguments.of_map (fun e he => (hargs e he).disjunction)
    fun a ha => (hnamed a ha).disjunction).spells

/-- What is printed for what is called ends in the name of a filter only if it is a filter without
arguments. -/
theorem printed_not_endsInFilterName {func : Expr} (hfunc : ¬ func.IsBareFilter)
    (hts : ts.map Token.lexeme = func.printed) (hfits : func.FitsIn .application) :
    ¬ EndsInFilterName ts := by
  cases func with
  | literal value span | var name span =>
      obtain ⟨t, rfl, -⟩ := List.map_eq_singleton_iff.mp hts
      exact not_endsInFilterName_single t
  | binary op left right span => exact @not_endsInFilterName_parenthesized ts [] _ hts
  | unary op operand span => exact absurd hfits (Nat.not_le_of_lt op.rank_lt)
  | filter name value args span =>
      rw [Template.Expr.printed, if_neg (by simpa [Template.Expr.IsBareFilter] using hfunc),
        List.append_cons, List.append_cons] at hts
      exact not_endsInFilterName_parenthesized hts
  | index value position span =>
      rw [Template.Expr.printed, ← List.cons_append, ← List.append_assoc] at hts
      exact not_endsInFilterName_of_last hts (by simp)
  | «attribute» value name span => exact not_endsInFilterName_of_member hts
  | call func args named argsSpan span => exact not_endsInFilterName_parenthesized hts

theorem Template.Expr.Writable.isPrinted (h : e.Writable) (hfits : e.Fits) : e.IsPrinted := by
  induction h with
  | literal h => exact h.spells
  | var h =>
      intro ts hts
      obtain ⟨t, rfl, ht⟩ := List.map_eq_singleton_iff.mp hts
      obtain ⟨hkind, rfl⟩ := Prod.mk.inj ht
      exact .name hkind
  | binary _ _ ihl ihr =>
      obtain ⟨⟨hl, hr⟩, hparts⟩ := fits_iff.mp hfits
      have hleft := ihl (hparts _ (by simp [children]))
      have hright := ihr (hparts _ (by simp [children]))
      exact ((hleft.loosen hl).binary (hright.loosen hr)).parenthesized _
  | unary _ ih =>
      obtain ⟨hoperand, hparts⟩ := fits_iff.mp hfits
      exact ((ih (hparts _ (by simp [children]))).loosen hoperand).unary
  | @filter name value args span _ _ _ ih ihargs =>
      obtain ⟨hvalue, hparts⟩ := fits_iff.mp hfits
      have hwrites := (ih (hparts _ (by simp [children]))).loosen hvalue
      cases args with
      | nil => exact hwrites.filter name
      | cons e args =>
          have hargs := @printed_spells (e :: args) []
            (fun x hx => ihargs x hx (hparts x (by simp only [children]; grind)))
            (List.forall_mem_nil _)
          rw [printedNamed, List.append_nil] at hargs
          exact hwrites.filterWith name hargs
  | index _ _ ih ihp =>
      obtain ⟨hvalue, hparts⟩ := fits_iff.mp hfits
      exact ((ih (hparts _ (by simp [children]))).loosen hvalue).index
        (ihp (hparts _ (by simp [children]))).disjunction
  | «attribute» _ _ ih =>
      obtain ⟨hvalue, hparts⟩ := fits_iff.mp hfits
      exact ((ih (hparts _ (by simp [children]))).loosen hvalue).member _
  | @call func args named argsSpan span _ _ _ _ ih ihargs ihnamed =>
      obtain ⟨⟨hfunc, hname⟩, hparts⟩ := fits_iff.mp hfits
      intro ts hts
      obtain ⟨us, vs, rfl, hus, hvs⟩ := List.map_eq_append_iff.mp hts
      obtain ⟨opening, ws, closing, rfl, hopen, hws, hclose⟩ := tokens_of_parenthesized hvs
      have harguments := printed_spells
        (fun e he => ihargs e he (hparts e (by simp only [children]; grind)))
        (fun a ha => ihnamed a ha (hparts a.value (by simp only [children]; grind)))
      exact .call ((ih (hparts _ (by simp [children]))).loosen hfunc us hus)
        (printed_not_endsInFilterName hname hus hfunc) hopen (harguments ws hws) hclose

/-! ## What tokens denote an expression -/

/-- The tokens are those of a rule for the expression, with no parentheses around them. -/
def Template.Expr.Formed (ts : List Token) : Expr → Prop
  | .binary op left right _ => ∃ us os vs, ts = us ++ os ++ vs ∧
      Denotes us (.expr op.level left) ∧ os.map Token.lexeme = op.lexemes ∧
      Denotes vs (.expr op.level.tighter right)
  | .unary op operand _ => ∃ t us, ts = t :: us ∧ Denotes us (.expr op.level operand)
  | .filter _ value args _ => ∃ us pipe name vs, ts = us ++ pipe :: name :: vs ∧
      Denotes us (.expr .application value) ∧ pipe.kind = .pipe ∧ name.kind = .identifier ∧
      (vs = [] ∧ args = [] ∨ ∃ opening ws closing, vs = opening :: (ws ++ [closing]) ∧
        opening.kind = .leftParen ∧ Denotes ws (.arguments args []) ∧ closing.kind = .rightParen)
  | .index value position _ => ∃ us opening vs closing, ts = us ++ opening :: (vs ++ [closing]) ∧
      Denotes us (.expr .application value) ∧ opening.kind = .leftBracket ∧
      Denotes vs (.expr .disjunction position) ∧ closing.kind = .rightBracket
  | .attribute value _ _ => ∃ us dot name, ts = us ++ [dot, name] ∧
      Denotes us (.expr .application value)
  | .call func args named _ _ => ∃ us opening vs closing,
      ts = us ++ opening :: (vs ++ [closing]) ∧ Denotes us (.expr .application func) ∧
      ¬ EndsInFilterName us ∧ opening.kind = .leftParen ∧ Denotes vs (.arguments args named)
  | .literal _ _ | .var _ _ => True

/-- Parentheses with the expression between them. -/
def Template.Expr.Enclosed (ts : List Token) (e : Expr) : Prop :=
  ∃ opening us closing, ts = opening :: (us ++ [closing]) ∧ opening.kind = .leftParen ∧
    Denotes us (.expr .disjunction e)

def Phrase.Formed (ts : List Token) : Phrase → Prop
  | .expr level e => level.rank ≤ e.level.rank ∧ e.Formed ts ∨ e.Enclosed ts
  | _ => True

theorem Denotes.phrase_formed {x : Phrase} (h : Denotes ts x) : x.Formed ts := by
  induction h with
  | tighter hlevel _ ih =>
      have hrank := hlevel.rank_eq
      exact ih.imp_left (And.imp_left fun h => by omega)
  | binary hl ho hlevel hr =>
      obtain ⟨-, rfl⟩ := Level.before_iff.mp hlevel
      exact .inl ⟨Nat.le_refl _, _, _, _, rfl, hl, ho, hr⟩
  | unary _ he => exact .inl ⟨Nat.le_refl _, _, _, rfl, he⟩
  | member he _ _ => exact .inl ⟨Nat.le_refl _, _, _, _, rfl, he⟩
  | index he hopen hp hclose =>
      exact .inl ⟨Nat.le_refl _, _, _, _, _, rfl, he, hopen, hp, hclose⟩
  | call he hcallee hopen ha _ =>
      exact .inl ⟨Nat.le_refl _, _, _, _, _, rfl, he, hcallee, hopen, ha⟩
  | filter he hpipe hname =>
      exact .inl ⟨Nat.le_refl _, _, _, _, [], rfl, he, hpipe, hname, .inl ⟨rfl, rfl⟩⟩
  | filterWith he hpipe hname hopen ha hclose =>
      exact .inl ⟨Nat.le_refl _, _, _, _, _, rfl, he, hpipe, hname,
        .inr ⟨_, _, _, rfl, hopen, ha, hclose⟩⟩
  | name | string | number | constant => exact .inl ⟨Nat.le_refl _, trivial⟩
  | paren hopen he _ => exact .inr ⟨_, _, _, rfl, hopen, he⟩
  | positional | named | none | last | more => trivial

/-- What denotes an expression is built by its rule, or it stands in parentheses. -/
theorem Denotes.formed (h : Denotes ts (.expr level e)) :
    level.rank ≤ e.level.rank ∧ e.Formed ts ∨ e.Enclosed ts :=
  h.phrase_formed

/-- The first argument is positional, or a named one comes first. -/
theorem Denotes.arguments_cons (h : Denotes ts (.arguments (e :: args) named)) :
    (Denotes ts (.expr .disjunction e) ∧ args = [] ∧ named = []) ∨
      (∃ us comma vs, ts = us ++ comma :: vs ∧ Denotes us (.expr .disjunction e) ∧
        comma.kind = .comma ∧ Denotes vs (.arguments args named)) ∨
      ∃ name equals us, ts = name :: equals :: us ∧ equals.kind = .equals := by
  generalize hall : e :: args = all at h
  cases h with
  | none => cases hall
  | last ha =>
      cases ha with
      | positional he =>
          obtain ⟨rfl, rfl⟩ := List.cons.inj hall
          exact .inl ⟨he, rfl, rfl⟩
      | named _ _ _ => cases hall
  | more ha hcomma hmore =>
      cases ha with
      | positional he =>
          obtain ⟨rfl, rfl⟩ := List.cons.inj hall
          exact .inr (.inl ⟨_, _, _, rfl, he, hcomma, hmore⟩)
      | named _ hequals _ => exact .inr (.inr ⟨_, _, _, rfl, hequals⟩)

theorem Denotes.arguments_named {a : NamedArgument Expr}
    (h : Denotes ts (.arguments [] (a :: named))) :
    (Denotes ts (.argument [] [a]) ∧ named = []) ∨
      ∃ us comma vs, ts = us ++ comma :: vs ∧ Denotes us (.argument [] [a]) ∧
        comma.kind = .comma ∧ Denotes vs (.arguments [] named) := by
  generalize hnone : ([] : List Expr) = none at h
  generalize hall : a :: named = all at h
  cases h with
  | none => cases hall
  | last ha =>
      cases ha with
      | positional he => cases hnone
      | named hname hequals he =>
          obtain ⟨rfl, rfl⟩ := List.cons.inj hall
          exact .inl ⟨.named hname hequals he, rfl⟩
  | @more _ us comma _ _ args' _ ha hcomma hmore =>
      cases ha with
      | positional he => cases hnone
      | named hname hequals he =>
          obtain ⟨rfl, rfl⟩ := List.cons.inj hall
          obtain rfl : [] = args' := hnone
          exact .inr ⟨_, _, _, rfl, .named hname hequals he, hcomma, hmore⟩

/-! ## What is denoted by what is printed fits -/

/-- Lexemes that no named argument starts with: there are some, and no equals sign is the first or
the second. -/
def Unnamed (ls : List Lexeme) : Prop :=
  ∃ l rest, ls = l :: rest ∧ l.1 ≠ .equals ∧ ∀ m more, rest = m :: more → m.1 ≠ .equals

namespace Unnamed

variable {l m : Lexeme} {ls ms : List Lexeme}

theorem ne_nil (h : Unnamed ls) : ls ≠ [] := by
  obtain ⟨l, rest, rfl, -⟩ := h
  exact List.cons_ne_nil _ _

theorem append (h : Unnamed ls) (hm : m.1 ≠ .equals) : Unnamed (ls ++ m :: ms) := by
  obtain ⟨l, rest, rfl, hl, hrest⟩ := h
  refine ⟨l, rest ++ m :: ms, rfl, hl, fun n more hn => ?_⟩
  cases rest with
  | nil =>
      obtain ⟨rfl, -⟩ := List.cons.inj hn
      exact hm
  | cons k rest =>
      obtain ⟨rfl, -⟩ := List.cons.inj hn
      exact hrest _ _ rfl

theorem cons (h : Unnamed ls) (hl : l.1 ≠ .equals) : Unnamed (l :: ls) := by
  obtain ⟨m, rest, rfl, hm, -⟩ := h
  refine ⟨l, m :: rest, rfl, hl, fun n more hn => ?_⟩
  obtain ⟨rfl, -⟩ := List.cons.inj hn
  exact hm

theorem single (hl : l.1 ≠ .equals) : Unnamed [l] :=
  ⟨l, [], rfl, hl, nofun⟩

theorem commaSeparated (h : Unnamed ls) (items : List (List Lexeme)) :
    Unnamed (commaSeparatedLexemes (ls :: items)) := by
  cases items with
  | nil => exact h
  | cons item items => exact h.append (by simp)

theorem second (h : Unnamed (l :: m :: ls)) : m.1 ≠ .equals := by
  obtain ⟨_, _, heq, -, hrest⟩ := h
  obtain ⟨rfl, rfl⟩ := List.cons.inj heq
  exact hrest _ _ rfl

end Unnamed

theorem BinaryOperator.lexemes_eq_cons (op : BinaryOperator) :
    ∃ o os, op.lexemes = o :: os ∧ o.1 ≠ .equals ∧ Lexeme.turn o = 0 := by
  cases op <;> exact ⟨_, _, rfl, by decide, rfl⟩

theorem Template.Expr.printed_unnamed (e : Expr) : Unnamed e.printed := by
  induction e using Expr.parts_induction with
  | literal value s =>
      refine .single ?_
      cases value <;> simp [Literal.lexeme]
  | var name s => exact .single (by simp)
  | binary op l r s ihl ihr =>
      obtain ⟨o, os, hop, ho, -⟩ := op.lexemes_eq_cons
      rw [printed, parenthesized, hop, List.append_assoc, List.append_assoc]
      exact (ihl.append ho).cons (by simp)
  | unary op e s ih =>
      refine ih.cons ?_
      cases op <;> decide
  | filter name e args s ihe _ => exact ihe.append (by simp)
  | index e p s ihe _ => exact ihe.append (by simp)
  | member e name s ih => exact ih.append (by simp)
  | call f args named as s ihf _ _ => exact ihf.append (by simp)

/-- Parentheses around all of the tokens are not printed in front of something else. -/
theorem Template.Expr.Enclosed.false_of_append {ls : List Lexeme} {x : Expr} (h : e.Enclosed ts)
    (hts : ts.map Token.lexeme = x.printed ++ ls) (hls : ls ≠ []) : False := by
  obtain ⟨opening, us, closing, rfl, hopen, he⟩ := h
  rw [List.map_cons, List.map_append] at hts
  exact x.printed_unnamed.ne_nil
    (eq_nil_of_enclosed hts (congrArg TokenKind.turn hopen) x.printed_balanced he.balanced hls)

/-- Tokens that are printed for the expression and denote it are taken apart as they are put
together, so nothing in it needs other parentheses. -/
def Template.Expr.Rereads (e : Expr) : Prop :=
  ∀ {ts level}, Denotes ts (.expr level e.bare) → ts.map Token.lexeme = e.printed →
    e.Fits ∧ e.FitsIn level

theorem fits_of_named {a : NamedArgument Expr} (ha : a.value.Rereads)
    (h : Denotes ts (.argument [] (bareNamed [a])))
    (hts : ts.map Token.lexeme = commaSeparatedLexemes (printedNamed [a])) : a.value.Fits := by
  generalize hone : bareNamed [a] = one at h
  cases h with
  | named _ _ hvalue =>
      obtain ⟨hbare, -⟩ := List.cons.inj hone
      obtain ⟨-, rfl, -, -⟩ := NamedArgument.mk.inj hbare
      obtain ⟨-, hrest⟩ := List.cons.inj hts
      obtain ⟨-, hprinted⟩ := List.cons.inj hrest
      exact (ha hvalue hprinted).1

theorem fits_of_arguments (hargs : ∀ e ∈ args, e.Rereads) (hnamed : ∀ a ∈ named, a.value.Rereads)
    (h : Denotes ts (.arguments (bareExprs args) (bareNamed named)))
    (hts : ts.map Token.lexeme = commaSeparatedLexemes (printedAll args ++ printedNamed named)) :
    (∀ e ∈ args, e.Fits) ∧ ∀ a ∈ named, a.value.Fits := by
  induction args generalizing ts with
  | nil =>
      refine ⟨List.forall_mem_nil _, ?_⟩
      induction named generalizing ts with
      | nil => exact List.forall_mem_nil _
      | cons a named ih =>
          obtain ⟨ha, hnamed⟩ := List.forall_mem_cons.mp hnamed
          rcases h.arguments_named with ⟨hone, hnil⟩ | ⟨us, comma, vs, rfl, hone, hcomma, hmore⟩
          · obtain rfl : named = [] := by cases named <;> first | rfl | cases hnil
            exact List.forall_mem_singleton.mpr (fits_of_named ha hone hts)
          · rw [List.map_append, List.map_cons] at hts
            obtain ⟨hitem, hitems⟩ := cut_of_comma hts (congrArg TokenKind.turn hcomma)
              (@Denotes.bulk_arguments_le us [] [a] (.last hone))
              (@Denotes.bulk_arguments_le vs [] named hmore)
            exact List.forall_mem_cons.mpr ⟨fits_of_named ha hone hitem, ih hnamed hmore hitems⟩
  | cons e args ih =>
      obtain ⟨he, hargs⟩ := List.forall_mem_cons.mp hargs
      rcases h.arguments_cons with ⟨hvalue, hnil, hnone⟩ |
        ⟨us, comma, vs, rfl, hvalue, hcomma, hmore⟩ | ⟨name, equals, us, rfl, hequals⟩
      · obtain rfl : args = [] := by cases args <;> first | rfl | cases hnil
        obtain rfl : named = [] := by cases named <;> first | rfl | cases hnone
        exact ⟨List.forall_mem_singleton.mpr (he hvalue hts).1, List.forall_mem_nil _⟩
      · rw [List.map_append, List.map_cons] at hts
        obtain ⟨hitem, hitems⟩ := cut_of_comma hts (congrArg TokenKind.turn hcomma)
          hvalue.bulk_expr_le hmore.bulk_arguments_le
        obtain ⟨hfits, hfitsNamed⟩ := ih hargs hmore hitems
        exact ⟨List.forall_mem_cons.mpr ⟨(he hvalue hitem).1, hfits⟩, hfitsNamed⟩
      · have hunnamed := e.printed_unnamed.commaSeparated (printedAll args ++ printedNamed named)
        rw [← List.cons_append, ← printedAll, ← hts] at hunnamed
        exact absurd hequals hunnamed.second

theorem endsInFilterName_of_printed {func : Expr} (h : func.IsBareFilter)
    (hts : ts.map Token.lexeme = func.printed) : EndsInFilterName ts := by
  cases func with
  | filter name value args span =>
      obtain rfl : args = [] := h
      obtain ⟨us, vs, rfl, -, hvs⟩ := List.map_eq_append_iff.mp hts
      obtain ⟨pipe, ws, rfl, hpipe, hws⟩ := List.map_eq_cons_iff.mp hvs
      obtain ⟨t, rfl, ht⟩ := List.map_eq_singleton_iff.mp hws
      exact ⟨us, pipe, t, rfl, congrArg Prod.fst hpipe, congrArg Prod.fst ht⟩
  | _ => exact h.elim

namespace Template.Expr.Rereads

variable {op : BinaryOperator} {sign : UnaryOperator} {l r p : Expr} {name : String} {s s' : Span}

/-- The printed parentheses are read first, and the operator between them is in the same place. -/
theorem binary (hl : l.Rereads) (hr : r.Rereads) : (Expr.binary op l r s).Rereads := by
  intro ts level h hts
  obtain ⟨o, os, hop, -, ho⟩ := op.lexemes_eq_cons
  rcases h.formed with ⟨-, us, ws, vs, rfl, hleft, hws, -⟩ | ⟨opening, ts, closing, rfl, -, h⟩
  · -- a left operand would start with a parenthesis that is closed behind the right one
    rw [List.map_append, List.map_append, hws, List.append_assoc] at hts
    have hempty := eq_nil_of_enclosed hts.symm rfl hleft.balanced
      ((l.printed_balanced.append (.of_plain op.turn_eq_zero)).append r.printed_balanced)
      (by simp [hop])
    obtain ⟨t, rest, ht⟩ := hleft.heads
    rw [ht.eq] at hempty
    cases hempty
  · have hinside : ts.map Token.lexeme = l.printed ++ op.lexemes ++ r.printed := by
      rw [List.map_cons, List.map_append] at hts
      exact (List.append_inj' (List.cons.inj hts).2 rfl).1
    rcases h.formed with ⟨-, us, ws, vs, rfl, hleft, hws, hright⟩ | henclosed
    · rw [List.map_append, List.map_append, hws, hop, List.append_assoc, List.append_assoc,
        List.cons_append, List.cons_append] at hinside
      obtain ⟨hus, hrest⟩ := cut_of_bulk_le hinside ho hleft.bulk_expr_le <| by
        rw [bulk_append, bulk_append]
        exact Nat.add_le_add_left hright.bulk_expr_le _
      obtain ⟨hfits, hlevel⟩ := hl hleft hus
      obtain ⟨hfits', hlevel'⟩ := hr hright (List.append_cancel_left hrest)
      refine ⟨fits_iff.mpr ⟨⟨hlevel, hlevel'⟩, ?_⟩, level.rank_le⟩
      exact List.forall_mem_cons.mpr ⟨hfits, List.forall_mem_singleton.mpr hfits'⟩
    · rw [List.append_assoc] at hinside
      exact (henclosed.false_of_append hinside (by simp [hop])).elim

theorem unary (h : e.Rereads) : (Expr.unary sign e s).Rereads := by
  intro ts level hd hts
  rcases hd.formed with ⟨hle, t, us, rfl, he⟩ | ⟨opening, us, closing, rfl, hopen, -⟩
  · obtain ⟨hfits, hlevel⟩ := h he (List.cons.inj hts).2
    exact ⟨fits_iff.mpr ⟨hlevel, List.forall_mem_singleton.mpr hfits⟩, hle⟩
  · have hturn := congrArg Lexeme.turn (List.cons.inj hts).1
    rw [sign.turn_eq_zero, Token.turn_lexeme, hopen] at hturn
    cases hturn

theorem filter (h : e.Rereads) : (Expr.filter name e [] s).Rereads := by
  intro ts level hd hts
  rcases hd.formed with ⟨-, us, pipe, name', vs, rfl, he, hpipe, hname, -⟩ | henclosed
  · rw [List.map_append, List.map_cons, List.map_cons, printed] at hts
    obtain ⟨hus, -⟩ := cut_of_bulk_le hts (congrArg TokenKind.turn hpipe) he.bulk_expr_le
      (by simp [TokenKind.turn, hname])
    obtain ⟨hfits, hlevel⟩ := h he hus
    exact ⟨fits_iff.mpr ⟨hlevel, List.forall_mem_singleton.mpr hfits⟩, level.rank_le⟩
  · exact (henclosed.false_of_append hts (by simp)).elim

theorem filterWith (h : e.Rereads) (hne : args ≠ []) (hargs : ∀ a ∈ args, a.Rereads) :
    (Expr.filter name e args s).Rereads := by
  intro ts level hd hts
  rw [printed, if_neg (by simpa using hne)] at hts
  rcases hd.formed with ⟨-, us, pipe, name', vs, rfl, he, hpipe, hname, hvs⟩ | henclosed
  · rcases hvs with ⟨-, hnil⟩ | ⟨opening, ws, closing, rfl, hopen, ha, hclose⟩
    · cases args with
      | nil => exact absurd rfl hne
      | cons a args => cases hnil
    · have hbulk := @Denotes.bulk_arguments_le ws args [] ha
      rw [printedNamed, List.append_nil] at hbulk
      rw [List.map_append, List.map_cons, List.map_cons, List.map_cons, List.map_append] at hts
      obtain ⟨hus, hrest⟩ := cut_of_bulk_le hts (congrArg TokenKind.turn hpipe) he.bulk_expr_le
        (by simpa [TokenKind.turn, hname, hopen, hclose] using hbulk)
      have harguments : ws.map Token.lexeme = commaSeparatedLexemes (printedAll args) :=
        (List.append_inj' (List.cons.inj (List.cons.inj hrest).2).2 rfl).1
      obtain ⟨hfits, hlevel⟩ := h he hus
      refine ⟨fits_iff.mpr ⟨hlevel, List.forall_mem_cons.mpr ⟨hfits, ?_⟩⟩, level.rank_le⟩
      exact (@fits_of_arguments ws args [] hargs (List.forall_mem_nil _) ha
        (by rw [harguments, printedNamed, List.append_nil])).1
  · exact (henclosed.false_of_append hts (by simp)).elim

theorem index (h : e.Rereads) (hp : p.Rereads) : (Expr.index e p s).Rereads := by
  intro ts level hd hts
  rcases hd.formed with ⟨-, us, opening, vs, closing, rfl, he, hopen, hposition, hclose⟩ | henclosed
  · rw [List.map_append, List.map_cons, List.map_append] at hts
    obtain ⟨hus, hrest⟩ := cut_of_bulk_le hts (congrArg TokenKind.turn hopen) he.bulk_expr_le
      (by simpa [TokenKind.turn, hclose] using hposition.bulk_expr_le)
    obtain ⟨hfits, hlevel⟩ := h he hus
    obtain ⟨hfits', -⟩ := hp hposition (List.append_inj' hrest rfl).1
    refine ⟨fits_iff.mpr ⟨hlevel, ?_⟩, level.rank_le⟩
    exact List.forall_mem_cons.mpr ⟨hfits, List.forall_mem_singleton.mpr hfits'⟩
  · exact (henclosed.false_of_append hts (by simp)).elim

theorem member (h : e.Rereads) : (Expr.attribute e name s).Rereads := by
  intro ts level hd hts
  rcases hd.formed with ⟨-, us, dot, name', rfl, he⟩ | henclosed
  · rw [List.map_append] at hts
    obtain ⟨hfits, hlevel⟩ := h he (List.append_inj' hts rfl).1
    exact ⟨fits_iff.mpr ⟨hlevel, List.forall_mem_singleton.mpr hfits⟩, level.rank_le⟩
  · exact (henclosed.false_of_append hts (by simp)).elim

/-- The parentheses around the arguments are found from behind. -/
theorem call (h : e.Rereads) (hargs : ∀ a ∈ args, a.Rereads)
    (hnamed : ∀ a ∈ named, a.value.Rereads) : (Expr.call e args named s' s).Rereads := by
  intro ts level hd hts
  rcases hd.formed with ⟨-, us, opening, vs, closing, rfl, he, hcallee, hopen, ha⟩ | henclosed
  · rw [List.map_append, List.map_cons, List.map_append] at hts
    obtain ⟨hus, hvs⟩ := cut_of_balanced hts (congrArg TokenKind.turn hopen) rfl he.balanced
      e.printed_balanced ha.balanced
      (balanced_arguments (fun a _ => a.printed_balanced) fun a _ => a.value.printed_balanced)
    obtain ⟨hfits, hlevel⟩ := h he hus
    have hbare : ¬ e.IsBareFilter := fun hbare => hcallee (endsInFilterName_of_printed hbare hus)
    refine ⟨fits_iff.mpr ⟨⟨hlevel, hbare⟩, ?_⟩, level.rank_le⟩
    rw [children, List.forall_mem_cons, List.forall_mem_append, List.forall_mem_map]
    exact ⟨hfits, fits_of_arguments hargs hnamed ha hvs⟩
  · exact (henclosed.false_of_append hts (by simp [parenthesized])).elim

end Template.Expr.Rereads

theorem Template.Expr.rereads (e : Expr) : e.Rereads := by
  induction e using Expr.parts_induction with
  | literal value s | var name s =>
      exact fun _ _ => ⟨fits_iff.mpr ⟨trivial, List.forall_mem_nil _⟩, Level.rank_le _⟩
  | binary op l r s ihl ihr => exact ihl.binary ihr
  | unary op e s ih => exact ih.unary
  | filter name e args s ih iha =>
      by_cases hnil : args = []
      · exact hnil ▸ ih.filter
      · exact ih.filterWith hnil iha
  | index e p s ih ihp => exact ih.index ihp
  | member e name s ih => exact ih.member
  | call f args named as s ihf iha ihn => exact ihf.call iha ihn

/-- Exactly what fits is denoted by what is printed for it. -/
theorem Template.Expr.Writable.denotes_iff (h : e.Writable)
    (hts : ts.map Token.lexeme = e.printed) :
    Denotes ts (.expr .disjunction e.bare) ↔ e.Fits :=
  ⟨fun hd => (e.rereads hd hts).1, fun hfits => (h.isPrinted hfits).disjunction ts hts⟩

/-! ## Lexemes of what is printed -/

/-- What a token in a tag has: no delimiter's kind, and if it is a number, a value. -/
def Lexeme.InTag (l : Lexeme) : Prop :=
  l.1.isInner ∧ (l.1 = .number → ∃ value, NumberText l.2 value)

theorem Lexeme.InTag.plain {l : Lexeme} (h : (l.1.isInner && decide (l.1 ≠ .number)) = true) :
    l.InTag := by
  rw [Bool.and_eq_true, decide_eq_true_eq] at h
  exact ⟨h.1, fun hnumber => absurd hnumber h.2⟩

theorem Lexeme.inTag_parenthesized {ls : List Lexeme} (h : ∀ l ∈ ls, InTag l) :
    ∀ l ∈ parenthesized ls, InTag l := by
  rw [parenthesized, List.forall_mem_cons, List.forall_mem_append, List.forall_mem_singleton]
  exact ⟨.plain rfl, h, .plain rfl⟩

theorem Lexeme.inTag_arguments (hargs : ∀ e ∈ args, ∀ l ∈ e.printed, InTag l)
    (hnamed : ∀ a ∈ named, ∀ l ∈ a.value.printed, InTag l) :
    ∀ l ∈ parenthesized (commaSeparatedLexemes (printedAll args ++ printedNamed named)),
      InTag l := by
  refine inTag_parenthesized (forall_mem_commaSeparated (InTag.plain rfl) ?_)
  rw [Template.printedAll_eq_map, Template.printedNamed_eq_map, List.forall_mem_append,
    List.forall_mem_map, List.forall_mem_map]
  refine ⟨hargs, fun a ha => ?_⟩
  rw [List.forall_mem_cons, List.forall_mem_cons]
  exact ⟨.plain rfl, .plain rfl, hnamed a ha⟩

theorem Template.Expr.Writable.printed_inTag (h : e.Writable) :
    ∀ l ∈ e.printed, Lexeme.InTag l := by
  induction h with
  | literal h =>
      refine List.forall_mem_singleton.mpr ?_
      cases h with
      | string _ => exact .plain rfl
      | integer h => exact ⟨rfl, fun _ => ⟨_, .of_nat h⟩⟩
      | boolean => exact .plain rfl
      | none => exact .plain rfl
  | var h => exact List.forall_mem_singleton.mpr (Lexeme.InTag.plain rfl)
  | @binary op left right span _ _ ihl ihr =>
      refine Lexeme.inTag_parenthesized ?_
      rw [List.forall_mem_append, List.forall_mem_append]
      refine ⟨⟨ihl, ?_⟩, ihr⟩
      cases op <;> simp [BinaryOperator.lexemes, Lexeme.InTag, TokenKind.isInner]
  | @unary op operand span _ ih =>
      refine List.forall_mem_cons.mpr ⟨?_, ih⟩
      cases op <;> exact .plain rfl
  | @filter name value args span _ _ _ ih ihargs =>
      rw [printed, List.forall_mem_append, List.forall_mem_cons, List.forall_mem_cons]
      refine ⟨ih, .plain rfl, .plain rfl, ?_⟩
      split
      · exact List.forall_mem_nil _
      · have hargs := @Lexeme.inTag_arguments args [] ihargs (List.forall_mem_nil _)
        rwa [printedNamed, List.append_nil] at hargs
  | index _ _ ih ihp =>
      rw [printed, List.forall_mem_append, List.forall_mem_cons, List.forall_mem_append,
        List.forall_mem_singleton]
      exact ⟨ih, .plain rfl, ihp, .plain rfl⟩
  | «attribute» _ _ ih =>
      rw [printed, List.forall_mem_append, List.forall_mem_cons, List.forall_mem_singleton]
      exact ⟨ih, .plain rfl, .plain rfl⟩
  | call _ _ _ _ ih ihargs ihnamed =>
      rw [printed, List.forall_mem_append]
      exact ⟨ih, Lexeme.inTag_arguments ihargs ihnamed⟩

/-! ## Reading what is printed -/

/-- What a source that outputs the expression is read as: that expression, up to spans, with nothing
to complain about. -/
def Template.Expr.ReadsBack (setting : Parser.Setting) (e : Expr) : Prop :=
  ∃ p e' span, parse setting .standard e.outputSource = .ok p ∧ p.complaints = [] ∧
    p.template.body = [.output e' span] ∧ e'.bare = e.bare

theorem Template.Expr.Writable.readsBack_iff (h : e.Writable) (setting : Parser.Setting) :
    e.ReadsBack setting ↔ e.Shown ∧ e.Fits := by
  obtain ⟨hshown, hhidden⟩ := h.tokenize_output setting.unit
  by_cases hs : e.Shown
  · obtain ⟨all, htokens, hall⟩ := hshown hs
    obtain ⟨opening, rest, rfl, hopen, hrest⟩ := List.map_eq_cons_iff.mp hall
    obtain ⟨us, ends, rfl, hus, hends⟩ := List.map_eq_append_iff.mp hrest
    obtain ⟨closing, finals, rfl, hclose, hfinals⟩ := List.map_eq_cons_iff.mp hends
    obtain ⟨final, rfl, hfinal⟩ := List.map_eq_singleton_iff.mp hfinals
    have horder := tokenize_inOrder e.outputSource setting.unit .standard
    rw [htokens] at horder
    have hkind : final.kind = .eof := congrArg Prod.fst hfinal
    have hended : Parser.Ended (opening :: (us ++ [closing, final])) :=
      ⟨horder.apart, horder.forward, final, by simp, hkind⟩
    have hparse : parse setting .standard e.outputSource =
        parseTokens setting (opening :: (us ++ [closing, final])) none := by
      rw [parse, htokens]
    have hts : ∀ t ∈ us, t.InTag := by
      intro t ht
      have hmem : t.lexeme ∈ e.printed := hus ▸ List.mem_map_of_mem ht
      exact ⟨(h.printed_inTag _ hmem).1, (h.printed_inTag _ hmem).2⟩
    rw [and_iff_right hs, ← h.denotes_iff hus, ReadsBack, hparse]
    constructor
    · rintro ⟨⟨t, complaints⟩, e', span, hp, rfl, hbody, he⟩
      rw [← he]
      exact denotes_of_parseTokens (congrArg Prod.fst hopen) (congrArg Prod.fst hclose) hkind hts
        hended hp hbody
    · intro hd
      obtain ⟨t, e', span, hp, hbody, he⟩ := @parseTokens_of_denotes setting opening closing final
        us (congrArg Prod.fst hopen) (congrArg Prod.fst hclose) hkind hended _ hd
      exact ⟨⟨t, []⟩, e', span, hp, rfl, hbody, he⟩
  · refine iff_of_false ?_ fun h => hs h.1
    rintro ⟨p, e', span, hp, hnone, -⟩
    obtain ⟨ts, fault, htokens⟩ := hhidden hs
    exact complaints_ne_nil_of_fault Delimiters.check_standard (congrArg Prod.snd htokens) hp hnone

/-- A node of a parsed source holds the expression. -/
def Template.Expr.IsRead (e : Expr) : Prop :=
  ∃ setting delimiters source p, parse setting delimiters source = .ok p ∧
    e ∈ (walkAll p.template.body).flatMap Node.exprs

theorem Template.Expr.IsRead.writable (h : e.IsRead) (hreals : e.NoReals) : e.Writable := by
  obtain ⟨setting, delimiters, source, p, hp, he⟩ := h
  obtain ⟨n, hn, he⟩ := List.mem_flatMap.mp he
  exact parse_writable hp hn he hreals

/-- What is read back from one text is one expression. -/
theorem Template.Expr.ReadsBack.bare_eq {setting : Parser.Setting} {e' : Expr}
    (h : e.ReadsBack setting) (h' : e'.ReadsBack setting) (hprint : e'.print = e.print) :
    e'.bare = e.bare := by
  obtain ⟨p, f, span, hp, -, hbody, hf⟩ := h
  obtain ⟨p', f', span', hp', -, hbody', hf'⟩ := h'
  rw [outputSource, hprint, ← outputSource, hp] at hp'
  obtain rfl := Except.ok.inj hp'
  obtain ⟨rfl, -⟩ := Node.output.inj (List.singleton_inj.mp (hbody.symm.trans hbody'))
  rw [← hf, ← hf']

/-- An expression without real numbers that was read from a source is read back from what is printed
for it exactly if all strings in it can be shown and no operand needs parentheses that are not
printed. Those expressions are told apart by what is printed for them. -/
theorem print_readsBack_iff (he : e.IsRead) (hreals : e.NoReals) (setting : Parser.Setting) :
    (e.ReadsBack setting ↔ e.Shown ∧ e.Fits) ∧
      (e.Shown ∧ e.Fits → ∀ e' : Expr, e'.IsRead → e'.NoReals → e'.Shown ∧ e'.Fits →
        e'.print = e.print → e'.bare = e.bare) := by
  have hiff := (he.writable hreals).readsBack_iff setting
  refine ⟨hiff, fun hgood e' he' hreals' hgood' hprint => ?_⟩
  have hiff' := (he'.writable hreals').readsBack_iff setting
  exact (hiff.mpr hgood).bare_eq (hiff'.mpr hgood') hprint

/-- A member of a negative and the negative of a member: what is printed for both is the second. -/
theorem not_readsBack_of_negative_member :
    let source := "\x7b\x7b (-x).y \x7d\x7d\x7b\x7b -x.y \x7d\x7d"
    ∃ p e e', parse ⟨"page", .preserve⟩ .standard source = .ok p ∧ p.complaints = [] ∧
      (walkAll p.template.body).flatMap Node.exprs = [e, e'] ∧ e.print = e'.print ∧
      e.NoReals ∧ ¬ e.ReadsBack ⟨"page", .preserve⟩ ∧
      e'.NoReals ∧ e'.ReadsBack ⟨"page", .preserve⟩ := by
  intro source
  obtain ⟨p, hp, hfacts⟩ := Except.exists_of_toOption_map
    (x := parse ⟨"page", .preserve⟩ .standard source)
    (f := fun p => (p.complaints.length,
      ((walkAll p.template.body).flatMap Node.exprs).map fun e : Expr =>
        (e.print, decide e.NoReals, decide (e.Shown ∧ e.Fits))))
    (b := (0, [("-x.y", true, false), ("-x.y", true, true)])) (by decide +kernel)
  obtain ⟨hnone, hexprs⟩ := Prod.mk.inj hfacts
  obtain ⟨e, rest, hsplit, he, hrest⟩ := List.map_eq_cons_iff.mp hexprs
  obtain ⟨e', rfl, he'⟩ := List.map_eq_singleton_iff.mp hrest
  simp only [Prod.mk.injEq, decide_eq_true_eq, decide_eq_false_iff_not] at he he'
  have hread : ∀ x ∈ [e, e'], x.IsRead := fun x hx => ⟨_, _, _, p, hp, hsplit ▸ hx⟩
  refine ⟨p, e, e', hp, List.eq_nil_of_length_eq_zero hnone, hsplit, he.1.trans he'.1.symm, he.2.1,
    fun h => he.2.2 ?_, he'.2.1, ?_⟩
  · exact (print_readsBack_iff (hread e (by simp)) he.2.1 _).1.mp h
  · exact (print_readsBack_iff (hread e' (by simp)) he'.2.1 _).1.mpr he'.2.2

end TemplateCompiler
