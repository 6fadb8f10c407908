import TemplateCompiler.Proofs.ExpressionGrammar
import TemplateCompiler.Proofs.Yielding

/-!
# Expressions of the grammar are read

What the grammar gives to tokens is what the parser reads from them. A level of the parser is a
first operand and a loop behind it, while the grammar ends an expression with its last operator. So
the statement about an expression, `Completes`, is about what follows it: whatever the loop of its
level yields behind the expression is yielded from the start of it.

A loop stops at the first token that does not go on its level. One token decides, except that `not`
goes on a comparison only before `in`; but nothing else of the grammar puts a `not` behind an
expression, so it counts as going on.
-/

namespace TemplateCompiler.Parser

open Template (Expr bareExprs bareNamed)

/-! ## What follows an expression -/

namespace Level

/-- May an expression of the level go on with this token? -/
def goesOn : Level → Token → Bool
  | .application, t => [.dot, .leftBracket, .leftParen, .pipe].contains t.kind
  | .comparison, t => (comparison.operator? t).isSome || t.isKeyword "not"
  | level, t => (level.operator? t).isSome

/-- The operators and operands of a level behind an expression of it. -/
def further (fuel : Nat) : Level → Expr → Parser Expr
  | .negation, e | .sign, e => pure e
  | .application, e => applications fuel e
  | level, e => infixes fuel level e

theorem operator?_eq_none {level : Level} {t : Token} (h : level.goesOn t = false) :
    level.operator? t = none := by
  cases level with
  | application =>
      unfold operator?
      split <;> rfl
  | comparison =>
      rw [goesOn, Bool.or_eq_false_iff] at h
      exact Option.isSome_eq_false_iff.mp h.1 |> Option.isNone_iff_eq_none.mp
  | _ => exact Option.isSome_eq_false_iff.mp h |> Option.isNone_iff_eq_none.mp

/-- Only words, signs and the openings of applications go on an expression. -/
theorem goesOn_eq_false {level : Level} {t : Token}
    (h : t.kind ∉ [.keyword, .operator, .dot, .leftBracket, .leftParen, .pipe]) :
    level.goesOn t = false := by
  have hnone : level.operator? t = none := by
    unfold operator?
    split <;> simp_all
  cases level <;> simp_all [goesOn, Token.isKeyword]

end Level

/-- The token may stand behind `ts`, an expression of the level: no tighter level takes it up. -/
structure Follows (level : Level) (ts : List Token) (next : Token) : Prop where
  stops : ∀ tight : Level, level.rank < tight.rank → tight.goesOn next = false
  callee : next.kind = .leftParen → ¬ EndsInFilterName ts

theorem Follows.tighter {loose tight : Level} {ts : List Token} {next : Token}
    (h : Follows loose ts next) (hlevel : loose.Before tight) :
    Follows tight ts next ∧ tight.goesOn next = false := by
  have hrank := hlevel.rank_eq
  exact ⟨⟨fun tight' hlt => h.stops tight' (by omega), h.callee⟩, h.stops tight (by omega)⟩

/-- An operator stops all levels of its operands. -/
theorem Follows.operator {op : BinaryOperator} {ts os : List Token}
    (ho : os.map Token.lexeme = op.lexemes) : ∃ o more, os = o :: more ∧ Follows op.level ts o := by
  cases os with
  | nil => cases op <;> cases ho
  | cons o more =>
      obtain ⟨kind, value, raw, span⟩ := o
      have hfirst : (kind, value) = op.lexemes.headD (.eof, "") := by
        rw [← ho]
        rfl
      refine ⟨_, more, rfl, fun tight hlt => ?_, fun hparen => ?_⟩
      · cases op <;> cases hfirst <;> cases tight <;> first | rfl | exact absurd hlt (by decide)
      · cases op <;> cases hfirst <;> cases hparen

/-- A token that goes on nothing stops all levels. -/
theorem Follows.closing {level : Level} {ts : List Token} {next : Token}
    (h : next.kind ∉ [.keyword, .operator, .dot, .leftBracket, .leftParen, .pipe]) :
    Follows level ts next where
  stops _ _ := Level.goesOn_eq_false h
  callee hparen := absurd (by simp [hparen]) h

/-! ## Operators -/

theorem nextOperator?_eq_none {level : Level} {s : State} {t : Token} {rest : List Token}
    (hs : s.unread = t :: rest) (h : level.goesOn t = false) :
    Yields s (nextOperator? level) fun o s' => o = none ∧ s' = s := by
  refine Yields.peek hs ?_
  rw [Level.operator?_eq_none h]
  dsimp only
  rw [if_neg]
  · exact Yields.pure ⟨rfl, rfl⟩
  · intro hnot
    rw [Bool.and_eq_true, decide_eq_true_eq] at hnot
    obtain ⟨rfl, hnot⟩ := hnot
    simp [Level.goesOn, hnot] at h

theorem nextOperator?_eq_some {op : BinaryOperator} {s : State} {os rest : List Token}
    (hs : s.unread = os ++ rest) (ho : os.map Token.lexeme = op.lexemes) :
    Yields s (nextOperator? op.level) fun o s' => o = some op ∧ s.Past os s' := by
  by_cases hop : op = .notIn
  · subst hop
    obtain ⟨t, u, rfl, ht, hu⟩ : ∃ t u, os = [t, u] ∧ t.lexeme = (.keyword, "not") ∧
        u.lexeme = (.keyword, "in") := by
      obtain ⟨t, more, rfl, ht, hmore⟩ := List.map_eq_cons_iff.mp ho
      obtain ⟨u, more', rfl, hu, hnil⟩ := List.map_eq_cons_iff.mp hmore
      obtain rfl := List.map_eq_nil_iff.mp hnil
      exact ⟨t, u, rfl, ht, hu⟩
    have hkind : t.kind = .keyword := congrArg Prod.fst ht
    have hnone : BinaryOperator.notIn.level.operator? t = none := by
      obtain ⟨kind, value, raw, span⟩ := t
      cases ht
      rfl
    refine Yields.peek hs ?_
    rw [hnone]
    dsimp only
    rw [if_pos (by simp [BinaryOperator.level, Token.isKeyword_iff.mpr ht])]
    refine Yields.peekSecond hs (by simp [hkind]) ?_
    rw [if_pos (Token.isKeyword_iff.mpr hu)]
    refine Yields.advance hs (by simp [hkind]) fun s' hp => ?_
    have hkind' : u.kind = .keyword := congrArg Prod.fst hu
    refine Yields.advance (hp.rest_eq hs) (by simp [hkind']) fun s'' hp' => ?_
    exact Yields.pure ⟨rfl, hp.trans hp'⟩
  · obtain ⟨t, rfl, ht⟩ : ∃ t, os = [t] ∧ [t.lexeme] = op.lexemes := by
      obtain ⟨lexeme, hlexeme⟩ : ∃ lexeme, op.lexemes = [lexeme] := by
        cases op <;> first | exact ⟨_, rfl⟩ | exact absurd rfl hop
      obtain ⟨t, more, rfl, ht, hmore⟩ := List.map_eq_cons_iff.mp (ho.trans hlexeme)
      obtain rfl := List.map_eq_nil_iff.mp hmore
      exact ⟨t, rfl, ho⟩
    have hkind : t.kind ≠ .eof := by
      intro heof
      cases op <;> simp [Token.lexeme, heof, BinaryOperator.lexemes] at ht
    refine Yields.peek hs ?_
    rw [Level.operator?_eq_some_iff.mpr ⟨rfl, ht⟩]
    exact Yields.advance hs hkind fun s' hp => Yields.pure ⟨rfl, hp⟩

/-- A level that does not go on leaves an expression as it is. -/
theorem further_of_stops {level : Level} {fuel : Nat} {e : Expr} {s : State} {t : Token}
    {rest : List Token} (hs : s.unread = t :: rest) (h : level.goesOn t = false) :
    Yields s (level.further fuel e) fun e' s' => e' = e ∧ s' = s := by
  have hinfixes : Yields s (infixes fuel level e) fun e' s' => e' = e ∧ s' = s := by
    cases fuel with
    | zero =>
        rw [infixes]
        exact Yields.outOfFuel
    | succ fuel =>
        rw [infixes]
        refine Yields.bind (nextOperator?_eq_none hs h) ?_
        rintro _ _ ⟨rfl, rfl⟩
        exact Yields.pure ⟨rfl, rfl⟩
  cases level with
  | negation | sign => exact Yields.pure ⟨rfl, rfl⟩
  | application =>
      rw [Level.further]
      cases fuel with
      | zero =>
          rw [applications]
          exact Yields.outOfFuel
      | succ fuel =>
          rw [applications]
          refine Yields.peek hs ?_
          split
          case h_5 => exact Yields.pure ⟨rfl, rfl⟩
          all_goals next hkind => simp [Level.goesOn, hkind] at h
  | _ => exact hinfixes

/-! ## The statement -/

/-- Behind an argument: a comma and further arguments, or the parenthesis that ends them. -/
def afterArgument (fuel : Nat) (args : List Expr) (named : List (NamedArgument Expr)) :
    Parser Arguments := do
  let sep ← argumentEnd
  if sep.kind = .comma then argumentsFrom fuel args named else return ⟨args, named, sep⟩

def afterFilterArgument (fuel : Nat) (args : List Expr) : Parser (List Expr × Token) := do
  let sep ← argumentEnd
  if sep.kind = .comma then filterArguments fuel args else return (args, sep)

/-- Whatever is yielded behind a phrase is yielded from its start, and the whole arguments of a call
or a filter are yielded together with the parenthesis that ends them. -/
def Completes (ts : List Token) : Phrase → Prop
  | .expr level e => ∀ (fuel : Nat) (s : State) (next : Token) (rest : List Token)
      (Q : Expr → State → Prop), s.unread = ts ++ next :: rest → Follows level ts next →
      (∀ fuel' e' s', s.Past ts s' → e'.bare = e → Yields s' (level.further fuel' e') Q) →
      Yields s (expressionAt fuel level) Q
  | .argument args named => ∀ (fuel : Nat) (s : State) (next : Token) (rest : List Token)
      (done : List Expr) (doneNamed : List (NamedArgument Expr)),
      s.unread = ts ++ next :: rest → (next.kind = .comma ∨ next.kind = .rightParen) →
      (∀ Q : Arguments → State → Prop,
        (∀ fuel' args' named' s', s.Past ts s' → bareExprs args' = bareExprs done ++ args →
          bareNamed named' = bareNamed doneNamed ++ named →
          Yields s' (afterArgument fuel' args' named') Q) →
        Yields s (argumentsFrom fuel done doneNamed) Q) ∧
      (named = [] → ∀ Q : List Expr × Token → State → Prop,
        (∀ fuel' args' s', s.Past ts s' → bareExprs args' = bareExprs done ++ args →
          Yields s' (afterFilterArgument fuel' args') Q) →
        Yields s (filterArguments fuel done) Q)
  | .leading _ _ => True
  | .arguments args named => ∀ (fuel : Nat) (s : State) (close : Token) (rest : List Token)
      (done : List Expr) (doneNamed : List (NamedArgument Expr)),
      s.unread = ts ++ close :: rest → close.kind = .rightParen →
      Yields s (argumentsFrom fuel done doneNamed) (fun a s' => s.Past (ts ++ [close]) s' ∧
        bareExprs a.positional = bareExprs done ++ args ∧
        bareNamed a.named = bareNamed doneNamed ++ named ∧ a.close = close) ∧
      (named = [] → Yields s (filterArguments fuel done) fun r s' => s.Past (ts ++ [close]) s' ∧
        bareExprs r.1 = bareExprs done ++ args ∧ r.2 = close)

/-- An expression that nothing goes on is read as it is. -/
theorem Completes.yields {ts rest : List Token} {level : Level} {e : Expr} {next : Token}
    {s : State} (h : Completes ts (.expr level e)) (hs : s.unread = ts ++ next :: rest)
    (hfollows : Follows level ts next) (hstop : level.goesOn next = false) (fuel : Nat) :
    Yields s (expressionAt fuel level) fun e' s' => s.Past ts s' ∧ e'.bare = e := by
  refine h fuel s next rest _ hs hfollows fun fuel' e' s' hp he => ?_
  refine (further_of_stops (hp.unread_eq hs) hstop).imp ?_
  rintro _ _ ⟨rfl, rfl⟩
  exact ⟨hp, he⟩

theorem Completes.yields_closing {ts rest : List Token} {level : Level} {e : Expr} {next : Token}
    {s : State} (h : Completes ts (.expr level e)) (hs : s.unread = ts ++ next :: rest)
    (hnext : next.kind ∉ [.keyword, .operator, .dot, .leftBracket, .leftParen, .pipe])
    (fuel : Nat) :
    Yields s (expressionAt fuel level) fun e' s' => s.Past ts s' ∧ e'.bare = e :=
  h.yields hs (.closing hnext) (Level.goesOn_eq_false hnext) fuel

/-! ## Levels -/

theorem completes_tighter {ts : List Token} {loose tight : Level} {e : Expr}
    (hlevel : loose.Before tight) (hd : Denotes ts (.expr tight e))
    (ih : Completes ts (.expr tight e)) : Completes ts (.expr loose e) := by
  intro fuel s next rest Q hs hfollows hQ
  obtain ⟨htight, hstop⟩ := hfollows.tighter hlevel
  have hoperand := ih.yields hs htight hstop
  have hrank := hlevel.rank_eq
  obtain ⟨hne, rfl⟩ := Level.before_iff.mp hlevel
  obtain ⟨t, more, hhead⟩ := hd.heads
  have hs' : s.unread = t :: (more ++ next :: rest) := by rw [hs, hhead.eq, List.cons_append]
  cases fuel with
  | zero =>
      rw [expressionAt]
      exact Yields.outOfFuel
  | succ fuel =>
      cases loose with
      | negation =>
          rw [expressionAt]
          refine Yields.peek hs' ?_
          rw [if_neg]
          · exact (hoperand fuel).imp fun e' s' h => hQ fuel e' s' h.1 h.2
          · intro hnot
            have hle := hhead.loose .not (Token.isKeyword_iff.mp hnot)
            rw [hrank] at hle
            exact absurd hle (by decide)
      | sign =>
          rw [expressionAt]
          refine Yields.peek hs' ?_
          split
          · next op hop =>
              have hsign : op.level = .sign := by
                unfold signOperator? at hop
                grind [UnaryOperator.level]
              have hle := hhead.loose op ((UnaryOperator.lexeme_iff_sign hsign).mpr hop)
              rw [hrank, hsign] at hle
              exact absurd hle (by decide)
          · exact (hoperand fuel).imp fun e' s' h => hQ fuel e' s' h.1 h.2
      | application => exact absurd rfl hne
      | _ =>
          rw [expressionAt]
          · exact Yields.bind (hoperand fuel) fun e' s' h => hQ fuel e' s' h.1 h.2
          all_goals
            intro h
            cases h

theorem further_eq_infixes (op : BinaryOperator) (fuel : Nat) (e : Expr) :
    op.level.further fuel e = infixes fuel op.level e := by
  cases op <;> rfl

theorem completes_binary {ts os us : List Token} {op : BinaryOperator} {tight : Level}
    {left right : Expr} (ihl : Completes ts (.expr op.level left))
    (ho : os.map Token.lexeme = op.lexemes) (hlevel : op.level.Before tight)
    (ihr : Completes us (.expr tight right)) :
    Completes (ts ++ os ++ us) (.expr op.level (.binary op left right .blank)) := by
  intro fuel s next rest Q hs hfollows hQ
  obtain ⟨-, rfl⟩ := Level.before_iff.mp hlevel
  have hs : s.unread = ts ++ (os ++ (us ++ next :: rest)) := by simpa using hs
  have hright : Follows op.level us next :=
    ⟨hfollows.stops, fun hparen => by
      have h := hfollows.stops .application (by cases op <;> decide)
      simp [Level.goesOn, hparen] at h⟩
  obtain ⟨htight, hstop⟩ := hright.tighter hlevel
  obtain ⟨o, more, hos, hleft⟩ : ∃ o more, os = o :: more ∧ Follows op.level ts o :=
    Follows.operator ho
  refine ihl fuel s o (more ++ (us ++ next :: rest)) Q (by rw [hs, hos]; rfl) hleft ?_
  rintro fuel' left' s₁ hp rfl
  rw [further_eq_infixes]
  cases fuel' with
  | zero =>
      rw [infixes]
      exact Yields.outOfFuel
  | succ fuel' =>
      rw [infixes]
      have hs₁ := hp.unread_eq hs
      refine Yields.bind (nextOperator?_eq_some hs₁ ho) ?_
      rintro _ s₂ ⟨rfl, hp₂⟩
      dsimp only
      refine Yields.bind (ihr.yields (hp₂.unread_eq hs₁) htight hstop fuel') ?_
      rintro right' s₃ ⟨hp₃, rfl⟩
      refine Yields.join fun span => ?_
      rw [← further_eq_infixes]
      exact hQ fuel' _ s₃ ((hp.trans hp₂).trans hp₃) rfl

theorem completes_unary {t : Token} {ts : List Token} {op : UnaryOperator} {e : Expr}
    (ht : t.lexeme = op.lexeme) (ih : Completes ts (.expr op.level e)) :
    Completes (t :: ts) (.expr op.level (.unary op e .blank)) := by
  intro fuel s next rest Q hs hfollows hQ
  have hkind : t.kind ≠ .eof := by
    intro heof
    cases op <;> simp [Token.lexeme, heof, UnaryOperator.lexeme] at ht
  have hfollows' : Follows op.level ts next := by
    refine ⟨hfollows.stops, fun hparen => ?_⟩
    have h := hfollows.stops .application (by cases op <;> decide)
    simp [Level.goesOn, hparen] at h
  -- the operand is read at the same level, and nothing is read behind it there
  have hoperand : ∀ fuel, Yields s (do
      let _ ← advance
      let operand ← expressionAt fuel op.level
      return .unary op operand (← join t.span operand.span)) Q := by
    intro fuel
    refine Yields.advance hs hkind fun s₁ hp => ?_
    have hread := ih fuel s₁ next rest (fun e' s' => s₁.Past ts s' ∧ e'.bare = e)
      (hp.rest_eq hs) hfollows' fun fuel' e' s' hp' he => by
        cases op <;> exact Yields.pure ⟨hp', he⟩
    refine Yields.bind hread ?_
    rintro operand s₂ ⟨hp₂, rfl⟩
    refine Yields.join fun span => ?_
    have h := hQ 0 (.unary op operand span) s₂ (hp.trans hp₂) rfl
    cases op <;> exact h
  cases fuel with
  | zero =>
      rw [expressionAt]
      exact Yields.outOfFuel
  | succ fuel =>
      cases op with
      | not =>
          rw [UnaryOperator.level, expressionAt]
          refine Yields.peek hs ?_
          rw [if_pos (Token.isKeyword_iff.mpr ht)]
          exact hoperand fuel
      | minus | plus =>
          rw [UnaryOperator.level, expressionAt]
          refine Yields.peek hs ?_
          rw [(UnaryOperator.lexeme_iff_sign rfl).mp ht]
          exact hoperand fuel

/-! ## Applications -/

/-- What is read first at the level of applications: an atom. -/
theorem completes_atom {ts : List Token} {e : Expr}
    (h : ∀ (fuel : Nat) (s : State) (rest : List Token), s.unread = ts ++ rest →
      Yields s (atom fuel) fun e' s' => s.Past ts s' ∧ e'.bare = e) :
    Completes ts (.expr .application e) := by
  intro fuel s next rest Q hs hfollows hQ
  cases fuel with
  | zero =>
      rw [expressionAt]
      exact Yields.outOfFuel
  | succ fuel =>
      rw [expressionAt]
      exact Yields.bind (h fuel s _ hs) fun e' s' ⟨hp, he⟩ => hQ fuel e' s' hp he

/-- An application of something that is complete itself. The token that opens the application
follows what is applied to. -/
theorem completes_application {ts us : List Token} {t : Token} {e e' : Expr}
    (ih : Completes ts (.expr .application e)) (ht : t.kind = .leftParen → ¬ EndsInFilterName ts)
    (h : ∀ (fuel : Nat) (f : Expr) (s : State) (next : Token) (rest : List Token)
      (Q : Expr → State → Prop), s.unread = t :: (us ++ next :: rest) →
      Follows .application (ts ++ t :: us) next → f.bare = e →
      (∀ fuel' f' s', s.Past (t :: us) s' → f'.bare = e' → Yields s' (applications fuel' f') Q) →
      Yields s (applications (fuel + 1) f) Q) :
    Completes (ts ++ t :: us) (.expr .application e') := by
  intro fuel s next rest Q hs hfollows hQ
  have hs : s.unread = ts ++ t :: (us ++ next :: rest) := by simpa using hs
  have hcallee : Follows .application ts t :=
    ⟨fun tight hlt => absurd hlt (by cases tight <;> decide), ht⟩
  refine ih fuel s t _ Q hs hcallee fun fuel' f s₁ hp hf => ?_
  rw [Level.further]
  cases fuel' with
  | zero =>
      rw [applications]
      exact Yields.outOfFuel
  | succ fuel' =>
      refine h fuel' f s₁ next rest Q (hp.unread_eq hs) hfollows hf fun fuel'' f' s' hp' hf' => ?_
      exact hQ fuel'' f' s' (hp.trans hp') hf'

theorem completes_member {ts : List Token} {e : Expr} {dot name : Token}
    (ih : Completes ts (.expr .application e)) (hdot : dot.kind = .dot)
    (hname : name.kind = .identifier) :
    Completes (ts ++ [dot, name]) (.expr .application (.attribute e name.value .blank)) := by
  refine completes_application ih (by simp [hdot]) ?_
  rintro fuel f s next rest Q hs - rfl hQ
  rw [applications]
  refine Yields.peek hs ?_
  simp only [hdot]
  refine Yields.advance hs (by simp [hdot]) fun s₁ hp => ?_
  have hs₁ := hp.rest_eq hs
  refine Yields.expect hs₁ hname (by decide) fun s₂ hp₂ => Yields.join fun span => ?_
  exact hQ fuel _ s₂ (hp.trans hp₂) rfl

theorem completes_index {ts us : List Token} {e position : Expr} {opening closing : Token}
    (ih : Completes ts (.expr .application e)) (hopen : opening.kind = .leftBracket)
    (ihp : Completes us (.expr .disjunction position)) (hclose : closing.kind = .rightBracket) :
    Completes (ts ++ opening :: (us ++ [closing]))
      (.expr .application (.index e position .blank)) := by
  refine completes_application ih (by simp [hopen]) ?_
  rintro fuel f s next rest Q hs - rfl hQ
  rw [List.append_assoc] at hs
  rw [applications]
  refine Yields.peek hs ?_
  simp only [hopen]
  refine Yields.advance hs (by simp [hopen]) fun s₁ hp => ?_
  have hs₁ := hp.rest_eq hs
  refine Yields.bind (ihp.yields_closing hs₁ (by simp [hclose]) fuel) ?_
  rintro position' s₂ ⟨hp₂, rfl⟩
  refine Yields.expect (hp₂.unread_eq hs₁) hclose (by decide) fun s₃ hp₃ => ?_
  exact Yields.join fun span => hQ fuel _ s₃ (hp.trans (hp₂.trans hp₃)) rfl

theorem completes_call {ts us : List Token} {e : Expr} {args : List Expr}
    {named : List (NamedArgument Expr)} {opening closing : Token}
    (ih : Completes ts (.expr .application e)) (hcallee : ¬ EndsInFilterName ts)
    (hopen : opening.kind = .leftParen) (iha : Completes us (.arguments args named))
    (hclose : closing.kind = .rightParen) :
    Completes (ts ++ opening :: (us ++ [closing]))
      (.expr .application (.call e args named .blank .blank)) := by
  refine completes_application ih (fun _ => hcallee) ?_
  rintro fuel f s next rest Q hs - rfl hQ
  rw [List.append_assoc] at hs
  rw [applications]
  refine Yields.peek hs ?_
  simp only [hopen]
  refine Yields.advance hs (by simp [hopen]) fun s₁ hp => ?_
  have hs₁ := hp.rest_eq hs
  refine Yields.bind (iha fuel s₁ closing _ [] [] hs₁ hclose).1 ?_
  rintro ⟨args', named', close⟩ s₂ ⟨hp₂, hargs, hnamed, -⟩
  refine Yields.join fun argsSpan => Yields.join fun span => hQ fuel _ s₂ (hp.trans hp₂) ?_
  simp only [Template.bareExprs, Template.bareNamed, List.nil_append] at hargs hnamed
  rw [Expr.bare, hargs, hnamed]

theorem completes_filter {ts : List Token} {e : Expr} {pipe name : Token}
    (ih : Completes ts (.expr .application e)) (hpipe : pipe.kind = .pipe)
    (hname : name.kind = .identifier) :
    Completes (ts ++ [pipe, name]) (.expr .application (.filter name.value e [] .blank)) := by
  refine completes_application ih (by simp [hpipe]) ?_
  rintro fuel f s next rest Q hs hfollows rfl hQ
  rw [applications]
  refine Yields.peek hs ?_
  simp only [hpipe]
  refine Yields.advance hs (by simp [hpipe]) fun s₁ hp => ?_
  have hs₁ := hp.rest_eq hs
  refine Yields.expect hs₁ hname (by decide) fun s₂ hp₂ => ?_
  refine Yields.peek (hp₂.rest_eq hs₁) ?_
  rw [if_neg fun hparen => hfollows.callee hparen ⟨ts, pipe, name, rfl, hpipe, hname⟩]
  exact Yields.join fun span => hQ fuel _ s₂ (hp.trans hp₂) rfl

theorem completes_filterWith {ts us : List Token} {e : Expr} {args : List Expr}
    {pipe name opening closing : Token} (ih : Completes ts (.expr .application e))
    (hpipe : pipe.kind = .pipe) (hname : name.kind = .identifier)
    (hopen : opening.kind = .leftParen) (iha : Completes us (.arguments args []))
    (hclose : closing.kind = .rightParen) :
    Completes (ts ++ pipe :: name :: opening :: (us ++ [closing]))
      (.expr .application (.filter name.value e args .blank)) := by
  refine completes_application ih (by simp [hpipe]) ?_
  rintro fuel f s next rest Q hs - rfl hQ
  have hs : s.unread = pipe :: name :: opening :: (us ++ closing :: next :: rest) := by
    simpa using hs
  rw [applications]
  refine Yields.peek hs ?_
  simp only [hpipe]
  refine Yields.advance hs (by simp [hpipe]) fun s₁ hp => ?_
  have hs₁ := hp.rest_eq hs
  refine Yields.expect hs₁ hname (by decide) fun s₂ hp₂ => ?_
  have hs₂ := hp₂.rest_eq hs₁
  refine Yields.peek hs₂ ?_
  rw [if_pos hopen]
  refine Yields.advance hs₂ (by simp [hopen]) fun s₃ hp₃ => ?_
  have hs₃ := hp₃.rest_eq hs₂
  refine Yields.bind ((iha fuel s₃ closing _ [] [] hs₃ hclose).2 rfl) ?_
  rintro ⟨args', close⟩ s₄ ⟨hp₄, hargs, -⟩
  refine Yields.join fun span => hQ fuel _ s₄ (hp.trans (hp₂.trans (hp₃.trans hp₄))) ?_
  simp only [Template.bareExprs, List.nil_append] at hargs
  rw [Expr.bare, hargs]

/-! ## Atoms -/

/-- A token that is an expression by itself. -/
theorem completes_single {t : Token} {e : Expr}
    (h : ∀ (fuel : Nat) (s : State) (rest : List Token), s.unread = t :: rest →
      Yields s (atom (fuel + 1)) fun e' s' => s.Past [t] s' ∧ e'.bare = e) :
    Completes [t] (.expr .application e) := by
  refine completes_atom fun fuel s rest hs => ?_
  cases fuel with
  | zero =>
      rw [atom]
      exact Yields.outOfFuel
  | succ fuel => exact h fuel s rest hs

theorem completes_paren {ts : List Token} {opening closing : Token} {e : Expr}
    (hopen : opening.kind = .leftParen) (ih : Completes ts (.expr .disjunction e))
    (hclose : closing.kind = .rightParen) :
    Completes (opening :: (ts ++ [closing])) (.expr .application e) := by
  refine completes_atom fun fuel s rest hs => ?_
  have hs : s.unread = opening :: (ts ++ closing :: rest) := by simpa using hs
  cases fuel with
  | zero =>
      rw [atom]
      exact Yields.outOfFuel
  | succ fuel =>
      rw [atom]
      refine Yields.peek hs ?_
      simp only [hopen]
      refine Yields.advance hs (by simp [hopen]) fun s₁ hp => ?_
      have hs₁ := hp.rest_eq hs
      refine Yields.bind (ih.yields_closing hs₁ (by simp [hclose]) fuel) ?_
      rintro e' s₂ ⟨hp₂, rfl⟩
      refine Yields.expect (hp₂.unread_eq hs₁) hclose (by decide) fun s₃ hp₃ => ?_
      exact Yields.pure ⟨hp.trans (hp₂.trans hp₃), rfl⟩

/-! ## Arguments -/

theorem argumentEnd_yields {s : State} {sep : Token} {rest : List Token}
    (hs : s.unread = sep :: rest) (hsep : sep.kind = .comma ∨ sep.kind = .rightParen) :
    Yields s argumentEnd fun t s' => t = sep ∧ s.Past [sep] s' := by
  refine Yields.peek hs ?_
  rw [if_pos (by simpa using hsep)]
  refine Yields.of_bind (Yields.advance hs ?_ fun s' hp => Yields.pure ⟨rfl, hp⟩)
  rcases hsep with h | h <;> simp [h]

theorem completes_positional {ts : List Token} {e : Expr} (hd : Denotes ts (.expr .disjunction e))
    (ih : Completes ts (.expr .disjunction e)) : Completes ts (.argument [e] []) := by
  intro fuel s next rest done doneNamed hs hnext
  obtain ⟨t, more, hhead⟩ := hd.heads
  have hs' : s.unread = t :: (more ++ next :: rest) := by rw [hs, hhead.eq, List.cons_append]
  have hparen : t.kind ≠ .rightParen := by
    intro hkind
    have h := hhead.starts
    simp [startsExpression, hkind] at h
  have hread := ih.yields_closing hs (by rcases hnext with h | h <;> simp [h])
  refine ⟨fun Q hQ => ?_, fun _ Q hQ => ?_⟩
  · cases fuel with
    | zero =>
        rw [argumentsFrom]
        exact Yields.outOfFuel
    | succ fuel =>
        rw [argumentsFrom]
        refine Yields.peek hs' ?_
        rw [if_neg hparen]
        have hahead : Yields s (namedArgumentAhead t) fun b s' => b = false ∧ s' = s := by
          unfold namedArgumentAhead
          split
          · next hid =>
              obtain ⟨u, more', hu⟩ : ∃ u more', more ++ next :: rest = u :: more' :=
                List.exists_cons_of_ne_nil (by simp)
              refine Yields.peekSecond (hs'.trans (by rw [hu])) (by simp [hid]) (Yields.pure ?_)
              cases more with
              | nil =>
                  obtain ⟨rfl, -⟩ := List.cons.inj hu
                  exact ⟨by rcases hnext with h | h <;> simp [h], rfl⟩
              | cons v more =>
                  obtain ⟨rfl, -⟩ := List.cons.inj hu
                  exact ⟨by simp [hhead.second v more rfl], rfl⟩
          · exact Yields.pure ⟨rfl, rfl⟩
        refine Yields.bind hahead ?_
        rintro _ _ ⟨rfl, rfl⟩
        refine Yields.bind (hread fuel) ?_
        rintro e' s' ⟨hp, he⟩
        exact hQ fuel _ doneNamed s' hp (by simp [Template.bareExprs, he]) (by simp)
  · cases fuel with
    | zero =>
        rw [filterArguments]
        exact Yields.outOfFuel
    | succ fuel =>
        rw [filterArguments]
        refine Yields.peek hs' ?_
        rw [if_neg hparen]
        refine Yields.bind (hread fuel) ?_
        rintro e' s' ⟨hp, he⟩
        exact hQ fuel _ s' hp (by simp [Template.bareExprs, he])

theorem completes_named {ts : List Token} {e : Expr} {name equals : Token}
    (hname : name.kind = .identifier) (hequals : equals.kind = .equals)
    (ih : Completes ts (.expr .disjunction e)) :
    Completes (name :: equals :: ts) (.argument [] [⟨name.value, e, .blank, .blank⟩]) := by
  intro fuel s next rest done doneNamed hs hnext
  refine ⟨fun Q hQ => ?_, nofun⟩
  cases fuel with
  | zero =>
      rw [argumentsFrom]
      exact Yields.outOfFuel
  | succ fuel =>
      rw [argumentsFrom]
      refine Yields.peek hs ?_
      rw [if_neg (by simp [hname])]
      have hahead : Yields s (namedArgumentAhead name) fun b s' => b = true ∧ s' = s := by
        unfold namedArgumentAhead
        rw [if_pos hname]
        exact Yields.peekSecond hs (by simp [hname]) (Yields.pure ⟨by simp [hequals], rfl⟩)
      refine Yields.bind hahead ?_
      rintro _ _ ⟨rfl, rfl⟩
      refine Yields.advance hs (by simp [hname]) fun s₁ hp => ?_
      have hs₁ := hp.rest_eq hs
      refine Yields.advance hs₁ (by simp [hequals]) fun s₂ hp₂ => ?_
      have hs₂ := hp₂.rest_eq hs₁
      have hclosing : next.kind ∉
          [.keyword, .operator, .dot, .leftBracket, .leftParen, .pipe] := by
        rcases hnext with h | h <;> simp [h]
      refine Yields.bind (ih.yields_closing hs₂ hclosing fuel) fun e' s₃ ⟨hp₃, he⟩ => ?_
      refine Yields.join fun span => hQ fuel done _ s₃ (hp.trans (hp₂.trans hp₃)) (by simp) ?_
      simp [Template.bareNamed, he]

theorem completes_none : Completes [] (.arguments [] []) := by
  intro fuel s close rest done doneNamed hs hclose
  refine ⟨?_, fun _ => ?_⟩
  · cases fuel with
    | zero =>
        rw [argumentsFrom]
        exact Yields.outOfFuel
    | succ fuel =>
        rw [argumentsFrom]
        refine Yields.peek hs ?_
        rw [if_pos hclose]
        refine Yields.advance hs (by simp [hclose]) fun s' hp => Yields.pure ?_
        exact ⟨hp, by simp, by simp, rfl⟩
  · cases fuel with
    | zero =>
        rw [filterArguments]
        exact Yields.outOfFuel
    | succ fuel =>
        rw [filterArguments]
        refine Yields.peek hs ?_
        rw [if_pos hclose]
        exact Yields.advance hs (by simp [hclose]) fun s' hp => Yields.pure ⟨hp, by simp, rfl⟩

theorem completes_last {ts : List Token} {args : List Expr} {named : List (NamedArgument Expr)}
    (ih : Completes ts (.argument args named)) : Completes ts (.arguments args named) := by
  intro fuel s close rest done doneNamed hs hclose
  obtain ⟨hcall, hfilter⟩ := ih fuel s close rest done doneNamed hs (.inr hclose)
  refine ⟨hcall _ fun fuel' args' named' s' hp hargs hnamed => ?_,
    fun hnone => hfilter hnone _ fun fuel' args' s' hp hargs => ?_⟩
  · refine Yields.bind (argumentEnd_yields (hp.unread_eq hs) (.inr hclose)) ?_
    rintro _ s'' ⟨rfl, hp'⟩
    rw [if_neg (by simp [hclose])]
    exact Yields.pure ⟨hp.trans hp', hargs, hnamed, rfl⟩
  · refine Yields.bind (argumentEnd_yields (hp.unread_eq hs) (.inr hclose)) ?_
    rintro _ s'' ⟨rfl, hp'⟩
    rw [if_neg (by simp [hclose])]
    exact Yields.pure ⟨hp.trans hp', hargs, rfl⟩

theorem completes_more {ts us : List Token} {comma : Token} {args args' : List Expr}
    {named named' : List (NamedArgument Expr)} (ih : Completes ts (.argument args named))
    (hcomma : comma.kind = .comma) (ihmore : Completes us (.arguments args' named')) :
    Completes (ts ++ comma :: us) (.arguments (args ++ args') (named ++ named')) := by
  intro fuel s close rest done doneNamed hs hclose
  have hs : s.unread = ts ++ comma :: (us ++ close :: rest) := by simpa using hs
  obtain ⟨hcall, hfilter⟩ := ih fuel s comma _ done doneNamed hs (.inl hcomma)
  refine ⟨hcall _ fun fuel' done' doneNamed' s₁ hp hargs hnamed => ?_, fun hnone => ?_⟩
  · have hs₁ := hp.unread_eq hs
    refine Yields.bind (argumentEnd_yields hs₁ (.inl hcomma)) ?_
    rintro sep s₂ ⟨hsep, hp₂⟩
    rw [if_pos (by rw [hsep, hcomma])]
    have hs₂ := hp₂.rest_eq hs₁
    refine (ihmore fuel' s₂ close rest done' doneNamed' hs₂ hclose).1.imp ?_
    rintro a s₃ ⟨hp₃, hargs', hnamed', hclose'⟩
    refine ⟨?_, by rw [hargs', hargs, List.append_assoc],
      by rw [hnamed', hnamed, List.append_assoc], hclose'⟩
    simpa using hp.trans (hp₂.trans hp₃)
  · obtain ⟨hnamed, hnamed'⟩ := List.append_eq_nil_iff.mp hnone
    refine hfilter hnamed _ fun fuel' done' s₁ hp hargs => ?_
    have hs₁ := hp.unread_eq hs
    refine Yields.bind (argumentEnd_yields hs₁ (.inl hcomma)) ?_
    rintro sep s₂ ⟨hsep, hp₂⟩
    rw [if_pos (by rw [hsep, hcomma])]
    have hs₂ := hp₂.rest_eq hs₁
    refine ((ihmore fuel' s₂ close rest done' [] hs₂ hclose).2 hnamed').imp ?_
    rintro r s₃ ⟨hp₃, hargs', hclose'⟩
    refine ⟨?_, by rw [hargs', hargs, List.append_assoc], hclose'⟩
    simpa using hp.trans (hp₂.trans hp₃)

/-! ## Completeness -/

theorem completes {ts : List Token} {x : Phrase} (h : Denotes ts x) : Completes ts x := by
  induction h with
  | tighter hlevel hd ih => exact completes_tighter hlevel hd ih
  | binary _ ho hlevel _ ihl ihr => exact completes_binary ihl ho hlevel ihr
  | unary ht _ ih => exact completes_unary ht ih
  | member _ hdot hname ih => exact completes_member ih hdot hname
  | index _ hopen _ hclose ih ihp => exact completes_index ih hopen ihp hclose
  | call _ hcallee hopen _ hclose ih iha => exact completes_call ih hcallee hopen iha hclose
  | filter _ hpipe hname ih => exact completes_filter ih hpipe hname
  | filterWith _ hpipe hname hopen _ hclose ih iha =>
      exact completes_filterWith ih hpipe hname hopen iha hclose
  | name ht | string ht =>
      refine completes_single fun fuel s rest hs => ?_
      rw [atom]
      refine Yields.peek hs ?_
      simp only [ht]
      exact Yields.advance hs (by simp [ht]) fun s' hp => Yields.pure ⟨hp, rfl⟩
  | number ht hv =>
      refine completes_single fun fuel s rest hs => ?_
      rw [atom]
      refine Yields.peek hs ?_
      simp only [ht]
      refine Yields.advance hs (by simp [ht]) fun s' hp => ?_
      rw [hv.readNumber_eq]
      exact Yields.pure ⟨hp, rfl⟩
  | constant ht hv =>
      refine completes_single fun fuel s rest hs => ?_
      rw [atom]
      refine Yields.peek hs ?_
      simp only [ht]
      rw [(mem_constants_iff ht).mp hv]
      exact Yields.advance hs (by simp [ht]) fun s' hp => Yields.pure ⟨hp, rfl⟩
  | paren hopen _ hclose ih => exact completes_paren hopen ih hclose
  | positional hd ih => exact completes_positional hd ih
  | named hname hequals _ ih => exact completes_named hname hequals ih
  | none => exact completes_none
  | last _ ih => exact completes_last ih
  | more _ hcomma _ ih ihmore => exact completes_more ih hcomma ihmore

/-- An expression of the grammar is read up to a token that cannot go on it. -/
theorem expression_yields {ts rest : List Token} {e : Expr} {next : Token} {s : State}
    (h : Denotes ts (.expr .disjunction e)) (hs : s.unread = ts ++ next :: rest)
    (hnext : next.kind ∉ [.keyword, .operator, .dot, .leftBracket, .leftParen, .pipe]) :
    Yields s expression fun e' s' => s.Past ts s' ∧ e'.bare = e := by
  have hread := (completes h).yields_closing hs hnext (expressionFuel s.unread.length)
  unfold Yields Ends at hread ⊢
  rwa [expression]

theorem arguments_yields {ts rest : List Token} {args : List Expr}
    {named : List (NamedArgument Expr)} {close : Token} {s : State}
    (h : Denotes ts (.arguments args named)) (hs : s.unread = ts ++ close :: rest)
    (hclose : close.kind = .rightParen) :
    Yields s arguments fun a s' => s.Past (ts ++ [close]) s' ∧ bareExprs a.positional = args ∧
      bareNamed a.named = named := by
  have hread : Yields s (argumentsFrom (expressionFuel s.unread.length) [] []) fun a s' =>
      s.Past (ts ++ [close]) s' ∧ bareExprs a.positional = args ∧ bareNamed a.named = named := by
    refine (completes h _ s close rest [] [] hs hclose).1.imp ?_
    exact fun a s' ⟨hp, hargs, hnamed, _⟩ => ⟨hp, hargs, hnamed⟩
  unfold Yields Ends at hread ⊢
  rwa [arguments]

end TemplateCompiler.Parser
