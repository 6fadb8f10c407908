import TemplateCompiler.Proofs.Bare
import TemplateCompiler.Proofs.Grammar
import TemplateCompiler.Proofs.Lookup
import TemplateCompiler.Proofs.Numerals

/-!
# The grammar of expressions

The grammar as it is documented, with a table for its levels and one for its operators. `Denotes` is
about the kinds and values of tokens alone: the expressions have no spans, and no function of the
parser stands behind the rules.

An operator level is left-associative, since the left operand is of the level itself and the right
one of the next tighter level. A parenthesis directly behind the name of a filter opens arguments of
the filter, so the grammar is unambiguous.
-/

namespace TemplateCompiler

open TemplateCompiler.Parser (Level)
open Template (Expr bareExprs bareNamed)

/-! ## Levels and operators -/

/-- What the grammar sees of a token. -/
def Token.lexeme (t : Token) : TokenKind × String :=
  (t.kind, t.value)

/-- The levels, loosest first. -/
def precedence : List Level :=
  [.disjunction, .conjunction, .negation, .comparison, .concatenation, .sum, .product, .sign,
    .application]

/-- `tight` is the next level behind `loose`. -/
def Parser.Level.Before (loose tight : Level) : Prop :=
  (loose, tight) ∈ precedence.zip precedence.tail

instance (loose tight : Level) : Decidable (loose.Before tight) :=
  inferInstanceAs (Decidable (_ ∈ _))

def BinaryOperator.level : BinaryOperator → Level
  | .or => .disjunction
  | .and => .conjunction
  | .eq | .ne | .lt | .le | .gt | .ge | .isIn | .notIn => .comparison
  | .concat => .concatenation
  | .add | .sub => .sum
  | .mul | .div | .floorDiv | .mod => .product

def BinaryOperator.lexemes : BinaryOperator → List (TokenKind × String)
  | .or => [(.keyword, "or")]
  | .and => [(.keyword, "and")]
  | .isIn => [(.keyword, "in")]
  | .notIn => [(.keyword, "not"), (.keyword, "in")]
  | op => [(.operator, op.sign)]

def UnaryOperator.level : UnaryOperator → Level
  | .not => .negation
  | .minus | .plus => .sign

def UnaryOperator.lexeme : UnaryOperator → TokenKind × String
  | .not => (.keyword, "not")
  | op => (.operator, op.sign)

/-- The words that stand for a value. -/
def constants : List (String × Literal) :=
  [("true", .boolean true), ("True", .boolean true), ("false", .boolean false),
    ("False", .boolean false), ("none", .none), ("None", .none)]

/-! ## Phrases -/

/-- The tokens denote an expression of a level, one argument, or what may stand between the
parentheses of a call. -/
inductive Denotes : List Token → Phrase → Prop
  | tighter {ts loose tight e} (hlevel : loose.Before tight) (h : Denotes ts (.expr tight e)) :
      Denotes ts (.expr loose e)
  | binary {ts os us op tight left right} (hl : Denotes ts (.expr op.level left))
      (ho : os.map Token.lexeme = op.lexemes) (hlevel : op.level.Before tight)
      (hr : Denotes us (.expr tight right)) :
      Denotes (ts ++ os ++ us) (.expr op.level (.binary op left right .blank))
  | unary {t ts op e} (ht : t.lexeme = op.lexeme) (he : Denotes ts (.expr op.level e)) :
      Denotes (t :: ts) (.expr op.level (.unary op e .blank))
  | member {ts e dot name} (he : Denotes ts (.expr .application e)) (hdot : dot.kind = .dot)
      (hname : name.kind = .identifier) :
      Denotes (ts ++ [dot, name]) (.expr .application (.attribute e name.value .blank))
  | index {ts us e position opening closing} (he : Denotes ts (.expr .application e))
      (hopen : opening.kind = .leftBracket) (hp : Denotes us (.expr .disjunction position))
      (hclose : closing.kind = .rightBracket) :
      Denotes (ts ++ opening :: (us ++ [closing])) (.expr .application (.index e position .blank))
  | call {ts us e args named opening closing} (he : Denotes ts (.expr .application e))
      (hcallee : ¬ EndsInFilterName ts) (hopen : opening.kind = .leftParen)
      (ha : Denotes us (.arguments args named)) (hclose : closing.kind = .rightParen) :
      Denotes (ts ++ opening :: (us ++ [closing]))
        (.expr .application (.call e args named .blank .blank))
  | filter {ts e pipe name} (he : Denotes ts (.expr .application e)) (hpipe : pipe.kind = .pipe)
      (hname : name.kind = .identifier) :
      Denotes (ts ++ [pipe, name]) (.expr .application (.filter name.value e [] .blank))
  | filterWith {ts us e args pipe name opening closing} (he : Denotes ts (.expr .application e))
      (hpipe : pipe.kind = .pipe) (hname : name.kind = .identifier)
      (hopen : opening.kind = .leftParen) (ha : Denotes us (.arguments args []))
      (hclose : closing.kind = .rightParen) :
      Denotes (ts ++ pipe :: name :: opening :: (us ++ [closing]))
        (.expr .application (.filter name.value e args .blank))
  | name {t} (ht : t.kind = .identifier) :
      Denotes [t] (.expr .application (.var t.value .blank))
  | string {t} (ht : t.kind = .string) :
      Denotes [t] (.expr .application (.literal (.string t.value) .blank))
  | number {t value} (ht : t.kind = .number) (hv : NumberText t.value value) :
      Denotes [t] (.expr .application (.literal value .blank))
  | constant {t value} (ht : t.kind = .keyword) (hv : (t.value, value) ∈ constants) :
      Denotes [t] (.expr .application (.literal value .blank))
  | paren {ts opening closing e} (hopen : opening.kind = .leftParen)
      (he : Denotes ts (.expr .disjunction e)) (hclose : closing.kind = .rightParen) :
      Denotes (opening :: (ts ++ [closing])) (.expr .application e)
  | positional {ts e} (he : Denotes ts (.expr .disjunction e)) : Denotes ts (.argument [e] [])
  | named {ts name equals e} (hname : name.kind = .identifier) (hequals : equals.kind = .equals)
      (he : Denotes ts (.expr .disjunction e)) :
      Denotes (name :: equals :: ts) (.argument [] [⟨name.value, e, .blank, .blank⟩])
  | none : Denotes [] (.arguments [] [])
  | last {ts args named} (ha : Denotes ts (.argument args named)) :
      Denotes ts (.arguments args named)
  | more {ts us comma args named args' named'} (ha : Denotes ts (.argument args named))
      (hcomma : comma.kind = .comma) (hmore : Denotes us (.arguments args' named')) :
      Denotes (ts ++ comma :: us) (.arguments (args ++ args') (named ++ named'))

/-! ## The tables of the parser -/

theorem Parser.Level.before_iff {loose tight : Level} :
    loose.Before tight ↔ loose ≠ .application ∧ tight = loose.tighter := by
  cases loose <;> cases tight <;> decide

theorem Parser.Level.operator?_eq_some_iff {level : Level} {t : Token} {op : BinaryOperator} :
    level.operator? t = some op ↔ level = op.level ∧ [t.lexeme] = op.lexemes := by
  have hwords : ∀ w ∈ level.words, level = w.2.level ∧ [(.keyword, w.1)] = w.2.lexemes := by
    cases level <;> decide
  have hsigns : ∀ w ∈ level.signs, level = w.2.level ∧ [(.operator, w.1)] = w.2.lexemes := by
    cases level <;> decide
  unfold operator?
  constructor
  · intro h
    split at h
    · next hkind =>
        rw [Token.lexeme, hkind]
        exact hwords _ (mem_of_lookup h)
    · next hkind =>
        rw [Token.lexeme, hkind]
        exact hsigns _ (mem_of_lookup h)
    · cases h
  · rintro ⟨rfl, h⟩
    obtain ⟨kind, value, raw, span⟩ := t
    cases op <;> cases h <;> rfl

theorem mem_constants_iff {t : Token} {value : Literal} (ht : t.kind = .keyword) :
    (t.value, value) ∈ constants ↔ Parser.constant? t = some value := by
  rw [Parser.constant?, if_pos ht]
  constructor
  · intro h
    simp only [constants, List.mem_cons, Prod.mk.injEq, List.not_mem_nil, or_false] at h
    rcases h with ⟨h, rfl⟩ | ⟨h, rfl⟩ | ⟨h, rfl⟩ | ⟨h, rfl⟩ | ⟨h, rfl⟩ | ⟨h, rfl⟩ <;> rw [h] <;> rfl
  · exact fun h => mem_of_lookup h

theorem UnaryOperator.lexeme_iff_sign {t : Token} {op : UnaryOperator} (h : op.level = .sign) :
    t.lexeme = op.lexeme ↔ Parser.signOperator? t = some op := by
  obtain ⟨kind, value, raw, span⟩ := t
  unfold Parser.signOperator?
  cases op with
  | not => cases h
  | minus => grind [Token.lexeme, UnaryOperator.lexeme, UnaryOperator.sign]
  | plus => grind [Token.lexeme, UnaryOperator.lexeme, UnaryOperator.sign]

theorem Token.isKeyword_iff {t : Token} {word : String} :
    t.isKeyword word ↔ t.lexeme = (.keyword, word) := by
  simp [Token.isKeyword, Token.lexeme]

theorem BinaryOperator.before_tighter (op : BinaryOperator) : op.level.Before op.level.tighter := by
  cases op <;> decide

theorem SpellsOperator.lexemes {level : Level} {os : List Token} {op : BinaryOperator}
    (h : SpellsOperator level os op) : level = op.level ∧ os.map Token.lexeme = op.lexemes := by
  cases h with
  | single h => exact Parser.Level.operator?_eq_some_iff.mp h
  | notIn ht hu => exact ⟨rfl, by simp [Token.isKeyword_iff.mp ht, Token.isKeyword_iff.mp hu,
      BinaryOperator.lexemes]⟩

/-! ## What a phrase starts with -/

/-- The position of a level in the order of levels. -/
def Parser.Level.rank (level : Level) : Nat :=
  precedence.idxOf level

theorem Parser.Level.Before.rank_eq {loose tight : Level} (h : loose.Before tight) :
    tight.rank = loose.rank + 1 := by
  obtain ⟨hne, rfl⟩ := before_iff.mp h
  cases loose <;> first | decide | exact absurd rfl hne

theorem Parser.Level.rank_inj {level level' : Level} (h : level.rank = level'.rank) :
    level = level' := by
  cases level <;> cases level' <;> first | rfl | exact absurd h (by decide)

theorem Parser.Level.rank_le (level : Level) : level.rank ≤ 8 := by
  cases level <;> decide

/-- An expression of a level is one of all looser levels. -/
theorem Denotes.loosen {ts : List Token} {loose tight : Level} {e : Expr}
    (h : Denotes ts (.expr tight e)) (hle : loose.rank ≤ tight.rank) :
    Denotes ts (.expr loose e) := by
  obtain ⟨n, hn⟩ : ∃ n, tight.rank = loose.rank + n := Nat.exists_eq_add_of_le hle
  induction n generalizing loose with
  | zero =>
      rw [Parser.Level.rank_inj hn] at h
      exact h
  | succ n ih =>
      have hne : loose ≠ .application := by
        rintro rfl
        have hmax := tight.rank_le
        have happlication : Parser.Level.application.rank = 8 := by decide
        omega
      have hbefore := Parser.Level.before_iff.mpr ⟨hne, rfl⟩
      have hrank := hbefore.rank_eq
      exact .tighter hbefore (ih (by omega) (by omega))

/-- How the tokens of an expression start: with a token that may, with a prefix operator only if the
level is loose enough for it, and never with a name and an equals sign behind it. -/
structure Heads (ts : List Token) (level : Level) (t : Token) (rest : List Token) : Prop where
  eq : ts = t :: rest
  starts : Parser.startsExpression t = true
  loose : ∀ op : UnaryOperator, t.lexeme = op.lexeme → level.rank ≤ op.level.rank
  second : ∀ u more, rest = u :: more → u.kind ≠ .equals

theorem Heads.append {ts us : List Token} {t u : Token} {rest : List Token} {level : Level}
    (h : Heads ts level t rest) (hu : u.kind ≠ .equals) :
    Heads (ts ++ u :: us) level t (rest ++ u :: us) where
  eq := by rw [h.eq, List.cons_append]
  starts := h.starts
  loose := h.loose
  second v more heq := by
    cases rest with
    | nil =>
        obtain ⟨rfl, -⟩ := List.cons.inj heq
        exact hu
    | cons w rest =>
        obtain ⟨rfl, -⟩ := List.cons.inj heq
        exact h.second _ _ rfl

theorem Heads.atom {t : Token} {rest : List Token} {level : Level}
    (hstarts : Parser.startsExpression t = true)
    (hbegins : ∀ op : UnaryOperator, t.lexeme ≠ op.lexeme)
    (hsecond : ∀ u more, rest = u :: more → u.kind ≠ .equals) :
    Heads (t :: rest) level t rest :=
  ⟨rfl, hstarts, fun op h => absurd h (hbegins op), hsecond⟩

theorem Parser.ne_equals_of_starts {t : Token} (h : startsExpression t = true) :
    t.kind ≠ .equals := by
  intro hkind
  simp [startsExpression, hkind] at h

theorem UnaryOperator.starts {t : Token} {op : UnaryOperator} (h : t.lexeme = op.lexeme) :
    Parser.startsExpression t = true := by
  obtain ⟨kind, value, raw, span⟩ := t
  cases op <;> cases h <;> rfl

theorem UnaryOperator.lexeme_inj {op op' : UnaryOperator} (h : op.lexeme = op'.lexeme) :
    op = op' := by
  cases op <;> cases op' <;> first | rfl | exact absurd h (by decide)

def Phrase.HasHead (ts : List Token) : Phrase → Prop
  | .expr level _ => ∃ t rest, Heads ts level t rest
  | _ => True

theorem Denotes.hasHead {ts : List Token} {x : Phrase} (h : Denotes ts x) : x.HasHead ts := by
  induction h with
  | tighter hlevel _ ih =>
      obtain ⟨t, rest, ht⟩ := ih
      have hrank := hlevel.rank_eq
      exact ⟨t, rest, { ht with loose := fun op h => by have := ht.loose op h; omega }⟩
  | @binary ts os us op tight left right _ ho _ _ ihl _ =>
      obtain ⟨t, rest, ht⟩ := ihl
      obtain ⟨o, os', rfl, hne⟩ : ∃ o os', os = o :: os' ∧ o.kind ≠ .equals := by
        cases os with
        | nil => cases op <;> cases ho
        | cons o os' =>
            refine ⟨o, os', rfl, fun heq => ?_⟩
            cases op <;> simp [BinaryOperator.lexemes, Token.lexeme, heq] at ho
      rw [List.append_assoc, List.cons_append]
      exact ⟨t, _, ht.append hne⟩
  | @unary t ts op e hop _ ih =>
      obtain ⟨u, rest, hu⟩ := ih
      refine ⟨t, ts, rfl, UnaryOperator.starts hop, fun op' hop' => ?_, ?_⟩
      · obtain rfl := UnaryOperator.lexeme_inj (hop.symm.trans hop')
        exact Nat.le_refl _
      · rintro v more rfl
        obtain ⟨rfl, -⟩ := List.cons.inj hu.eq
        exact Parser.ne_equals_of_starts hu.starts
  | member _ hnext _ ih | filter _ hnext _ ih | filterWith _ hnext _ _ _ _ ih _
  | index _ hnext _ _ ih _ | call _ _ hnext _ _ ih _ =>
      obtain ⟨t, rest, ht⟩ := ih
      exact ⟨t, _, ht.append (by simp [hnext])⟩
  | name ht | string ht | number ht _ =>
      refine ⟨_, _, .atom (by simp [Parser.startsExpression, ht]) (fun op hop => ?_) nofun⟩
      have hkind := congrArg Prod.fst hop
      rw [Token.lexeme, ht] at hkind
      cases op <;> cases hkind
  | @constant t value ht hv =>
      have hsome := (mem_constants_iff ht).mp hv
      refine ⟨_, _, .atom (by simp [Parser.startsExpression, ht, hsome]) (fun op hop => ?_) nofun⟩
      cases op with
      | not =>
          rw [show t.value = "not" from congrArg Prod.snd hop] at hv
          exact absurd hv (by simp [constants])
      | minus | plus => cases ht.symm.trans (congrArg Prod.fst hop)
  | @paren ts opening closing e hopen _ hclose ih =>
      obtain ⟨t, rest, ht⟩ := ih
      refine ⟨_, _, .atom (by simp [Parser.startsExpression, hopen]) (fun op hop => ?_) ?_⟩
      · have hkind := congrArg Prod.fst hop
        rw [Token.lexeme, hopen] at hkind
        cases op <;> cases hkind
      · rintro u more heq
        rw [ht.eq, List.cons_append] at heq
        obtain ⟨rfl, -⟩ := List.cons.inj heq
        exact Parser.ne_equals_of_starts ht.starts
  | positional | named | none | last | more => trivial

/-- What an expression of a level starts with. -/
theorem Denotes.heads {ts : List Token} {level : Level} {e : Expr}
    (h : Denotes ts (.expr level e)) : ∃ t rest, Heads ts level t rest :=
  h.hasHead

/-! ## What is derived is denoted -/

/-- Up to their spans, the tokens denote the phrase. Leading arguments are denoted together with any
that follow them. -/
def DenotesBare (ts : List Token) : Phrase → Prop
  | .expr level e => Denotes ts (.expr level e.bare)
  | .argument args named => Denotes ts (.argument (bareExprs args) (bareNamed named))
  | .leading args named => ∀ us args' named', Denotes us (.arguments args' named') →
      Denotes (ts ++ us) (.arguments (bareExprs args ++ args') (bareNamed named ++ named'))
  | .arguments args named => Denotes ts (.arguments (bareExprs args) (bareNamed named))

theorem Derives.denotes {ts : List Token} {x : Phrase} (h : Derives ts x)
    (hnumbers : ∀ t ∈ ts, t.kind = .number → ∃ value, NumberText t.value value) :
    DenotesBare ts x := by
  induction h with
  | @tighter ts level e _ ih =>
      by_cases hlevel : level = .application
      · subst hlevel
        exact ih hnumbers
      · exact .tighter (Parser.Level.before_iff.mpr ⟨hlevel, rfl⟩) (ih hnumbers)
  | binary _ ho _ _ ihl ihr =>
      obtain ⟨rfl, hos⟩ := ho.lexemes
      exact .binary (ihl (by grind)) hos (BinaryOperator.before_tighter _) (ihr (by grind))
  | negation ht _ _ ih =>
      exact @Denotes.unary _ _ .not _ (Token.isKeyword_iff.mp ht) (ih (by grind))
  | @sign t ts op e span hop _ _ ih =>
      have hlevel : op.level = .sign := by
        unfold Parser.signOperator? at hop
        grind [UnaryOperator.level]
      have he : Denotes ts (.expr op.level e.bare) := hlevel ▸ ih (by grind)
      have h := Denotes.unary ((UnaryOperator.lexeme_iff_sign hlevel).mpr hop) he
      rwa [hlevel] at h
  | member _ hdot hname _ ih => exact .member (ih (by grind)) hdot hname
  | index _ hopen _ hclose _ ihe ihp =>
      exact .index (ihe (by grind)) hopen (ihp (by grind)) hclose
  | call _ hcallee hopen _ hclose _ _ ihe iha =>
      exact .call (ihe (by grind)) hcallee hopen (iha (by grind)) hclose
  | filter _ hpipe hname _ ih => exact .filter (ih (by grind)) hpipe hname
  | filterWith _ hpipe hname hopen _ hclose _ ihe iha =>
      exact .filterWith (ihe (by grind)) hpipe hname hopen (iha (by grind)) hclose
  | name ht => exact .name ht
  | string ht => exact .string ht
  | number ht hv =>
      obtain ⟨value, hvalue⟩ := hnumbers _ (by simp) ht
      obtain rfl := Except.ok.inj (hvalue.readNumber_eq.symm.trans hv)
      exact .number ht hvalue
  | @constant t value hv =>
      have ht : t.kind = .keyword := by
        unfold Parser.constant? at hv
        split at hv
        · assumption
        · cases hv
      exact .constant ht ((mem_constants_iff ht).mpr hv)
  | paren hopen _ hclose ih => exact .paren hopen (ih (by grind)) hclose
  | positional _ ih => exact .positional (ih hnumbers)
  | named hname hequals _ _ ih => exact .named hname hequals (ih (by grind))
  | start => exact fun us args' named' h => h
  | comma _ _ hcomma ihl iha =>
      intro us args' named' h
      simpa using ihl (by grind) _ _ _ (.more (iha (by grind)) hcomma h)
  | closed _ ih => simpa [DenotesBare] using ih hnumbers _ _ _ .none
  | last _ _ ihl iha =>
      simpa [DenotesBare] using ihl (by grind) _ _ _ (.last (iha (by grind)))

end TemplateCompiler
