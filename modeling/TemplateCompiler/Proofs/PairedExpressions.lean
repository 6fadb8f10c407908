import TemplateCompiler.Proofs.Paired

/-!
# Expressions and headers read side by side

On tokens of the same kinds and values every function of the expressions and every header gives the
same, up to spans. The fuel may differ on the two sides: where one of them runs out of it, nothing
is said.
-/

namespace TemplateCompiler.Parser

open Template (Expr Node bareExprs bareNamed)

namespace Pairing

variable {P : Pairing} {α β : Type}

/-- Results that are related, in states that stand side by side in a tag. -/
def InTag (P : Pairing) (R : α → β → Prop) (a : α) (b : β) (s s' : State) : Prop :=
  R a b ∧ P.Beside .tag True s s'

/-- Results that are related, in states that stand side by side between tags. -/
def BehindTag (P : Pairing) (R : α → β → Prop) (a : α) (b : β) (s s' : State) : Prop :=
  R a b ∧ P.Beside .text True s s'

/-- Expressions that are equal up to their spans. -/
def SameExpr (e e' : Expr) : Prop :=
  e'.bare = e.bare

/-- Arguments that are equal up to their spans. -/
structure SameArguments (a a' : Arguments) : Prop where
  positional : bareExprs a'.positional = bareExprs a.positional
  named : bareNamed a'.named = bareNamed a.named

/-! ## Expressions -/

section

variable {t u : Token}

theorem operator?_eq (h : P.tokens t u) (level : Level) :
    level.operator? u = level.operator? t := by
  unfold Level.operator?
  rw [P.kind h, P.value h]

theorem signOperator?_eq (h : P.tokens t u) : signOperator? u = signOperator? t := by
  unfold signOperator?
  rw [P.kind h, P.value h]

theorem constant?_eq (h : P.tokens t u) : constant? u = constant? t := by
  unfold constant?
  rw [P.kind h, P.value h]

theorem startsExpression_eq (h : P.tokens t u) : startsExpression u = startsExpression t := by
  unfold startsExpression
  rw [P.kind h, P.value h, constant?_eq h, signOperator?_eq h]

end

theorem isInner_of_operator? {level : Level} {t : Token} {op : BinaryOperator}
    (h : level.operator? t = some op) : t.kind.isInner := by
  unfold Level.operator? at h
  split at h
  · next hkind => rw [hkind]; rfl
  · next hkind => rw [hkind]; rfl
  · cases h

theorem isInner_of_isKeyword {t : Token} {word : String} (h : t.isKeyword word) :
    t.kind.isInner := by
  rw [Token.kind_eq_of_isKeyword h]
  rfl

theorem isInner_of_signOperator? {t : Token} {op : UnaryOperator}
    (h : signOperator? t = some op) : t.kind.isInner := by
  unfold signOperator? at h
  split at h
  · next hkind => rw [hkind]; rfl
  · cases h

variable {s s' : State}

theorem nextOperator?_pair (level : Level) (h : P.Beside .tag True s s') :
    P.Pair s s' (nextOperator? level) (nextOperator? level) (P.InTag fun o o' => o' = o) := by
  unfold nextOperator?
  refine Pair.peek h fun t rest u rest' hs hs' htu => ?_
  rw [operator?_eq htu, isKeyword htu]
  split
  · next op hop =>
      exact Pair.advance h hs (isInner_of_operator? hop) fun _ _ _ _ h₁ _ => Pair.pure ⟨rfl, h₁⟩
  · split
    · next hnot =>
        have hinner := isInner_of_isKeyword (Bool.and_eq_true_iff.mp hnot).2
        refine Pair.peekSecond h hs hinner fun v more v' hrest hvv => ?_
        rw [isKeyword hvv]
        split
        · next hin =>
            refine Pair.advance h hs hinner fun _ s₁ s₁' _ h₁ hs₁ => ?_
            exact Pair.advance h₁ (hs₁.trans hrest) (isInner_of_isKeyword hin) fun _ _ _ _ h₂ _ =>
              Pair.pure ⟨rfl, h₂⟩
        · exact Pair.pure ⟨rfl, h⟩
    · exact Pair.pure ⟨rfl, h⟩

/-- What each function of the expressions gives. -/
structure ExpressionsPair (P : Pairing) (fuel : Nat) : Prop where
  expressionAt : ∀ fuel' level s s', P.Beside .tag True s s' →
    P.Pair s s' (expressionAt fuel level) (expressionAt fuel' level) (P.InTag SameExpr)
  infixes : ∀ fuel' level e e' s s', SameExpr e e' → P.Beside .tag True s s' →
    P.Pair s s' (infixes fuel level e) (infixes fuel' level e') (P.InTag SameExpr)
  applications : ∀ fuel' e e' s s', SameExpr e e' → P.Beside .tag True s s' →
    P.Pair s s' (applications fuel e) (applications fuel' e') (P.InTag SameExpr)
  atom : ∀ fuel' s s', P.Beside .tag True s s' →
    P.Pair s s' (atom fuel) (atom fuel') (P.InTag SameExpr)
  argumentsFrom : ∀ fuel' es es' as as' s s', bareExprs es' = bareExprs es →
    bareNamed as' = bareNamed as → P.Beside .tag True s s' →
    P.Pair s s' (argumentsFrom fuel es as) (argumentsFrom fuel' es' as') (P.InTag SameArguments)
  filterArguments : ∀ fuel' es es' s s', bareExprs es' = bareExprs es → P.Beside .tag True s s' →
    P.Pair s s' (filterArguments fuel es) (filterArguments fuel' es')
      (P.InTag fun r r' => bareExprs r'.1 = bareExprs r.1)

theorem expressionsPair_zero (P : Pairing) : ExpressionsPair P 0 where
  expressionAt _ _ _ _ _ := Pair.outOfFuel
  infixes _ _ _ _ _ _ _ _ := Pair.outOfFuel
  applications _ _ _ _ _ _ _ := Pair.outOfFuel
  atom _ _ _ _ := Pair.outOfFuel
  argumentsFrom _ _ _ _ _ _ _ _ _ _ := Pair.outOfFuel
  filterArguments _ _ _ _ _ _ _ := Pair.outOfFuel

section

variable {fuel fuel' : Nat} (ih : ExpressionsPair P fuel)

include ih

/-- A prefix operator and its operand. -/
theorem unary_pair (op : UnaryOperator) {t u : Token} {rest : List Token} (level : Level)
    (h : P.Beside .tag True s s') (hs : s.unread = t :: rest) (ht : t.kind.isInner) :
    P.Pair s s'
      (do
        let _ ← advance
        let operand ← Parser.expressionAt fuel level
        return .unary op operand (← join t.span operand.span))
      (do
        let _ ← advance
        let operand ← Parser.expressionAt fuel' level
        return .unary op operand (← join u.span operand.span)) (P.InTag SameExpr) := by
  refine Pair.advance h hs ht fun _ s₁ s₁' _ h₁ _ => ?_
  refine Pair.bind (ih.expressionAt fuel' level s₁ s₁' h₁) ?_
  rintro e e' s₂ s₂' ⟨he, h₂⟩
  refine Pair.join fun _ _ => Pair.pure ⟨?_, h₂⟩
  show Expr.unary op e'.bare _ = _
  rw [he]
  rfl

theorem expressionAt_pair (level : Level) (h : P.Beside .tag True s s') :
    P.Pair s s' (expressionAt (fuel + 1) level) (expressionAt fuel' level)
      (P.InTag SameExpr) := by
  cases fuel' with
  | zero => exact Pair.outOfFuel_second
  | succ fuel' =>
      have hoperands : ∀ level : Level, P.Pair s s'
          (do
            let left ← Parser.expressionAt fuel level.tighter
            Parser.infixes fuel level left)
          (do
            let left ← Parser.expressionAt fuel' level.tighter
            Parser.infixes fuel' level left) (P.InTag SameExpr) := by
        intro level
        refine Pair.bind (ih.expressionAt fuel' _ s s' h) ?_
        rintro e e' s₁ s₁' ⟨he, h₁⟩
        exact ih.infixes fuel' level e e' s₁ s₁' he h₁
      cases level with
      | negation =>
          rw [expressionAt, expressionAt]
          refine Pair.peek h fun t rest u rest' hs hs' htu => ?_
          rw [isKeyword htu]
          split
          · next hnot => exact unary_pair ih _ _ h hs (isInner_of_isKeyword hnot)
          · exact ih.expressionAt fuel' _ s s' h
      | sign =>
          rw [expressionAt, expressionAt]
          refine Pair.peek h fun t rest u rest' hs hs' htu => ?_
          rw [signOperator?_eq htu]
          split
          · next op hop => exact unary_pair ih op _ h hs (isInner_of_signOperator? hop)
          · exact ih.expressionAt fuel' _ s s' h
      | application =>
          rw [expressionAt, expressionAt]
          refine Pair.bind (ih.atom fuel' s s' h) ?_
          rintro e e' s₁ s₁' ⟨he, h₁⟩
          exact ih.applications fuel' e e' s₁ s₁' he h₁
      | _ =>
          rw [expressionAt, expressionAt]
          · exact hoperands _
          all_goals simp

theorem infixes_pair (level : Level) {e e' : Expr} (he : SameExpr e e')
    (h : P.Beside .tag True s s') :
    P.Pair s s' (infixes (fuel + 1) level e) (infixes fuel' level e') (P.InTag SameExpr) := by
  cases fuel' with
  | zero => exact Pair.outOfFuel_second
  | succ fuel' =>
      rw [infixes, infixes]
      refine Pair.bind (nextOperator?_pair level h) ?_
      rintro _ o s₁ s₁' ⟨rfl, h₁⟩
      cases o with
      | none => exact Pair.pure ⟨he, h₁⟩
      | some op =>
          refine Pair.bind (ih.expressionAt fuel' _ s₁ s₁' h₁) ?_
          rintro r r' s₂ s₂' ⟨hr, h₂⟩
          refine Pair.join fun _ _ => ih.infixes fuel' level _ _ s₂ s₂' ?_ h₂
          show Expr.binary op e'.bare r'.bare _ = _
          rw [he, hr]
          rfl

theorem applications_pair {e e' : Expr} (he : SameExpr e e') (h : P.Beside .tag True s s') :
    P.Pair s s' (applications (fuel + 1) e) (applications fuel' e') (P.InTag SameExpr) := by
  cases fuel' with
  | zero => exact Pair.outOfFuel_second
  | succ fuel' =>
      rw [applications, applications]
      refine Pair.peek h fun t rest u rest' hs hs' htu => ?_
      rw [P.kind htu]
      split
      · next ht =>
          refine Pair.advance h hs (by rw [ht]; rfl) fun _ s₁ s₁' _ h₁ _ => ?_
          refine Pair.expect h₁ rfl (by simp) fun name name' s₂ s₂' hname h₂ => ?_
          refine Pair.join fun _ _ => ih.applications fuel' _ _ s₂ s₂' ?_ h₂
          show Expr.attribute e'.bare name'.value _ = _
          rw [he, P.value hname]
          rfl
      · next ht =>
          refine Pair.advance h hs (by rw [ht]; rfl) fun _ s₁ s₁' _ h₁ _ => ?_
          refine Pair.bind (ih.expressionAt fuel' _ s₁ s₁' h₁) ?_
          rintro i i' s₂ s₂' ⟨hi, h₂⟩
          refine Pair.expect h₂ rfl (by simp) fun _ _ s₃ s₃' _ h₃ => ?_
          refine Pair.join fun _ _ => ih.applications fuel' _ _ s₃ s₃' ?_ h₃
          show Expr.index e'.bare i'.bare _ = _
          rw [he, hi]
          rfl
      · next ht =>
          refine Pair.advance h hs (by rw [ht]; rfl) fun _ s₁ s₁' _ h₁ _ => ?_
          refine Pair.bind (ih.argumentsFrom fuel' [] [] [] [] s₁ s₁' rfl rfl h₁) ?_
          rintro args args' s₂ s₂' ⟨hargs, h₂⟩
          refine Pair.join fun _ _ => Pair.join fun _ _ =>
            ih.applications fuel' _ _ s₂ s₂' ?_ h₂
          show Expr.call e'.bare (bareExprs args'.positional) (bareNamed args'.named) _ _ = _
          rw [he, hargs.positional, hargs.named]
          rfl
      · next ht =>
          refine Pair.advance h hs (by rw [ht]; rfl) fun _ s₁ s₁' _ h₁ _ => ?_
          refine Pair.expect h₁ rfl (by simp) fun name name' s₂ s₂' hname h₂ => ?_
          refine Pair.peek h₂ fun v more v' more' hs₂ hs₂' hvv => ?_
          rw [P.kind hvv]
          split
          · next hv =>
              refine Pair.advance h₂ hs₂ (by rw [hv]; rfl) fun _ s₃ s₃' _ h₃ _ => ?_
              refine Pair.bind (ih.filterArguments fuel' [] [] s₃ s₃' rfl h₃) ?_
              rintro r r' s₄ s₄' ⟨hr, h₄⟩
              refine Pair.join fun _ _ => ih.applications fuel' _ _ s₄ s₄' ?_ h₄
              show Expr.filter name'.value e'.bare (bareExprs r'.1) _ = _
              rw [he, hr, P.value hname]
              rfl
          · refine Pair.join fun _ _ => ih.applications fuel' _ _ s₂ s₂' ?_ h₂
            show Expr.filter name'.value e'.bare [] _ = _
            rw [he, P.value hname]
            rfl
      · exact Pair.pure ⟨he, h⟩

theorem atom_pair (h : P.Beside .tag True s s') :
    P.Pair s s' (atom (fuel + 1)) (atom fuel') (P.InTag SameExpr) := by
  cases fuel' with
  | zero => exact Pair.outOfFuel_second
  | succ fuel' =>
      rw [atom, atom]
      refine Pair.peek h fun t rest u rest' hs hs' htu => ?_
      have hvalue := P.value htu
      rw [P.kind htu]
      split
      · next ht =>
          refine Pair.advance h hs (by rw [ht]; rfl) fun _ _ _ _ h₁ _ => Pair.pure ⟨?_, h₁⟩
          show Expr.var u.value _ = _
          rw [hvalue]
          rfl
      · next ht =>
          refine Pair.advance h hs (by rw [ht]; rfl) fun _ _ _ _ h₁ _ => Pair.pure ⟨?_, h₁⟩
          show Expr.literal (.string u.value) _ = _
          rw [hvalue]
          rfl
      · next ht =>
          refine Pair.advance h hs (by rw [ht]; rfl) fun _ _ _ _ h₁ _ => ?_
          rw [hvalue]
          split
          · exact Pair.pure ⟨rfl, h₁⟩
          · exact .stop rfl rfl .badNumber h₁.complaints
      · next ht =>
          rw [constant?_eq htu]
          split
          · exact Pair.advance h hs (by rw [ht]; rfl) fun _ _ _ _ h₁ _ => Pair.pure ⟨rfl, h₁⟩
          · exact Pair.complain h (Pair.complaints htu (by simp))
      · next ht =>
          refine Pair.advance h hs (by rw [ht]; rfl) fun _ s₁ s₁' _ h₁ _ => ?_
          refine Pair.bind (ih.expressionAt fuel' _ s₁ s₁' h₁) ?_
          rintro e e' s₂ s₂' ⟨he, h₂⟩
          exact Pair.expect h₂ rfl (by simp) fun _ _ _ _ _ h₃ => Pair.pure ⟨he, h₃⟩
      · exact Pair.complain h (Pair.complaints htu (by simp))

omit ih in
theorem argumentEnd_pair (h : P.Beside .tag True s s') :
    P.Pair s s' argumentEnd argumentEnd (P.InTag P.tokens) := by
  refine Pair.peek h fun t rest u rest' hs hs' htu => ?_
  rw [P.kind htu]
  split
  · next ht =>
      have hinner : t.kind.isInner := by
        simp only [Bool.or_eq_true, decide_eq_true_eq] at ht
        rcases ht with ht | ht <;> (rw [ht]; rfl)
      rw [← bind_pure advance]
      exact Pair.advance h hs hinner fun _ _ _ htu h₁ _ => Pair.pure ⟨htu, h₁⟩
  · exact Pair.complain h (Pair.complaints htu (by simp))

omit ih in
/-- Where the next argument is passed by name, two tokens of the tag are ahead. -/
theorem namedArgumentAhead_pair {t u : Token} {rest : List Token} (h : P.Beside .tag True s s')
    (hs : s.unread = t :: rest) (htu : P.tokens t u) :
    P.Pair s s' (namedArgumentAhead t) (namedArgumentAhead u) fun ahead ahead' s₁ s₁' =>
      ahead' = ahead ∧ s₁ = s ∧ s₁' = s' ∧ (ahead = true → t.kind.isInner ∧
        ∃ v more, rest = v :: more ∧ v.kind.isInner) := by
  unfold namedArgumentAhead
  rw [P.kind htu]
  split
  · next ht =>
      have hinner : t.kind.isInner := by
        rw [ht]
        rfl
      refine Pair.peekSecond h hs hinner fun v more v' hrest hvv => ?_
      rw [P.kind hvv]
      refine Pair.pure ⟨rfl, rfl, rfl, fun hequals => ⟨hinner, v, more, hrest, ?_⟩⟩
      rw [of_decide_eq_true hequals]
      rfl
  · exact Pair.pure ⟨rfl, rfl, rfl, (by simp)⟩

theorem argumentsFrom_pair {es es' : List Expr} {as as' : List (NamedArgument Expr)}
    (hes : bareExprs es' = bareExprs es) (has : bareNamed as' = bareNamed as)
    (h : P.Beside .tag True s s') :
    P.Pair s s' (argumentsFrom (fuel + 1) es as) (argumentsFrom fuel' es' as')
      (P.InTag SameArguments) := by
  cases fuel' with
  | zero => exact Pair.outOfFuel_second
  | succ fuel' =>
      -- what stands behind an argument
      have hbehind : ∀ {es es' : List Expr} {as as' : List (NamedArgument Expr)} {s s' : State},
          bareExprs es' = bareExprs es → bareNamed as' = bareNamed as →
          P.Beside .tag True s s' → P.Pair s s'
            (do
              let sep ← argumentEnd
              if sep.kind = .comma then Parser.argumentsFrom fuel es as
              else return ⟨es, as, sep⟩)
            (do
              let sep ← argumentEnd
              if sep.kind = .comma then Parser.argumentsFrom fuel' es' as'
              else return ⟨es', as', sep⟩) (P.InTag SameArguments) := by
        intro es es' as as' s s' hes has h
        refine Pair.bind (argumentEnd_pair h) ?_
        rintro sep sep' s₁ s₁' ⟨hsep, h₁⟩
        rw [P.kind hsep]
        split
        · exact ih.argumentsFrom fuel' _ _ _ _ s₁ s₁' hes has h₁
        · exact Pair.pure ⟨⟨hes, has⟩, h₁⟩
      rw [argumentsFrom, argumentsFrom]
      refine Pair.peek h fun t rest u rest' hs hs' htu => ?_
      rw [P.kind htu]
      split
      · next ht =>
          exact Pair.advance h hs (by rw [ht]; rfl) fun _ _ _ _ h₁ _ =>
            Pair.pure ⟨⟨hes, has⟩, h₁⟩
      · refine Pair.bind (namedArgumentAhead_pair h hs htu) ?_
        rintro _ ahead s₀ s₀' ⟨rfl, hs₀, hs₀', hahead⟩
        rw [hs₀, hs₀']
        split
        · next hnamed =>
            obtain ⟨ht, v, more, hrest, hv⟩ := hahead hnamed
            refine Pair.advance h hs ht fun _ s₁ s₁' _ h₁ hs₁ => ?_
            refine Pair.advance h₁ (hs₁.trans hrest) hv fun _ s₂ s₂' _ h₂ _ => ?_
            refine Pair.bind (ih.expressionAt fuel' _ s₂ s₂' h₂) ?_
            rintro e e' s₃ s₃' ⟨he, h₃⟩
            refine Pair.join fun _ _ => hbehind hes ?_ h₃
            rw [Template.bareNamed_append, Template.bareNamed_append, has]
            show _ ++ [(⟨u.value, e'.bare, _, _⟩ : NamedArgument Expr)] = _
            rw [he, P.value htu]
            rfl
        · refine Pair.bind (ih.expressionAt fuel' _ s s' h) ?_
          rintro e e' s₁ s₁' ⟨he, h₁⟩
          refine hbehind ?_ has h₁
          rw [Template.bareExprs_append, Template.bareExprs_append, hes]
          show _ ++ [e'.bare] = _
          rw [he]
          rfl

theorem filterArguments_pair {es es' : List Expr} (hes : bareExprs es' = bareExprs es)
    (h : P.Beside .tag True s s') :
    P.Pair s s' (filterArguments (fuel + 1) es) (filterArguments fuel' es')
      (P.InTag fun r r' => bareExprs r'.1 = bareExprs r.1) := by
  cases fuel' with
  | zero => exact Pair.outOfFuel_second
  | succ fuel' =>
      rw [filterArguments, filterArguments]
      refine Pair.peek h fun t rest u rest' hs hs' htu => ?_
      rw [P.kind htu]
      split
      · next ht =>
          exact Pair.advance h hs (by rw [ht]; rfl) fun _ _ _ _ h₁ _ => Pair.pure ⟨hes, h₁⟩
      · refine Pair.bind (ih.expressionAt fuel' _ s s' h) ?_
        rintro e e' s₁ s₁' ⟨he, h₁⟩
        have hes' : bareExprs (es' ++ [e']) = bareExprs (es ++ [e]) := by
          rw [Template.bareExprs_append, Template.bareExprs_append, hes]
          show _ ++ [e'.bare] = _
          rw [he]
          rfl
        refine Pair.bind (argumentEnd_pair h₁) ?_
        rintro sep sep' s₂ s₂' ⟨hsep, h₂⟩
        rw [P.kind hsep]
        split
        · exact ih.filterArguments fuel' _ _ s₂ s₂' hes' h₂
        · exact Pair.pure ⟨hes', h₂⟩

end

theorem expressionsPair (P : Pairing) : ∀ fuel, ExpressionsPair P fuel
  | 0 => expressionsPair_zero P
  | fuel + 1 =>
      have ih := expressionsPair P fuel
      { expressionAt := fun _ level _ _ h => expressionAt_pair ih level h
        infixes := fun _ level _ _ _ _ he h => infixes_pair ih level he h
        applications := fun _ _ _ _ _ he h => applications_pair ih he h
        atom := fun _ _ _ h => atom_pair ih h
        argumentsFrom := fun _ _ _ _ _ _ _ hes has h => argumentsFrom_pair ih hes has h
        filterArguments := fun _ _ _ _ _ hes h => filterArguments_pair ih hes h }

theorem expression_pair (h : P.Beside .tag True s s') :
    P.Pair s s' expression expression (P.InTag SameExpr) :=
  ((expressionsPair P _).expressionAt _ .disjunction s s' h).after rfl rfl

theorem arguments_pair (h : P.Beside .tag True s s') :
    P.Pair s s' arguments arguments (P.InTag SameArguments) :=
  ((expressionsPair P _).argumentsFrom _ [] [] [] [] s s' rfl rfl h).after rfl rfl

/-! ## Headers and tags without a body -/

/-- Parameters that are equal up to their spans. -/
def SameParameters (ps ps' : List (Parameter Expr)) : Prop :=
  ps'.map Parameter.bare = ps.map Parameter.bare

theorem SameParameters.any_name {ps ps' : List (Parameter Expr)} (h : SameParameters ps ps')
    (name : String) : (ps'.any fun p => p.name = name) = ps.any fun p => p.name = name := by
  have hnames : ∀ ps : List (Parameter Expr), (ps.any fun p => p.name = name) =
      (ps.map Parameter.bare).any fun p => p.name = name := by
    intro ps
    rw [List.any_map]
    rfl
  rw [hnames ps', h, ← hnames ps]

section

variable {t : Token} {rest : List Token}

theorem blockEnd_pair {R : α → β → Prop} {a : α} {b : β} (h : P.Beside .tag True s s')
    (hR : R a b) :
    P.Pair s s' (do let _ ← expectBlockEnd; return a) (do let _ ← expectBlockEnd; return b)
      (P.BehindTag R) :=
  Pair.close h (.inl rfl) (by simp) fun _ _ _ _ h₁ => Pair.pure ⟨hR, h₁⟩

theorem condition_pair (h : P.Beside .tag True s s') (hs : s.unread = t :: rest)
    (ht : t.kind.isInner) : P.Pair s s' condition condition (P.BehindTag SameExpr) := by
  refine Pair.advance h hs ht fun _ s₁ s₁' _ h₁ _ => ?_
  refine Pair.bind (expression_pair h₁) ?_
  rintro e e' s₂ s₂' ⟨he, h₂⟩
  exact blockEnd_pair h₂ he

theorem targetsFrom_pair (fuel fuel' : Nat) (targets : List String) {s s' : State}
    (h : P.Beside .tag True s s') :
    P.Pair s s' (targetsFrom fuel targets) (targetsFrom fuel' targets)
      (P.InTag fun a b => b = a) := by
  induction fuel generalizing fuel' targets s s' with
  | zero => exact Pair.outOfFuel
  | succ fuel ih =>
      cases fuel' with
      | zero => exact Pair.outOfFuel_second
      | succ fuel' =>
          rw [targetsFrom, targetsFrom]
          refine Pair.peek h fun t rest u rest' hs hs' htu => ?_
          rw [P.kind htu]
          split
          · next ht =>
              refine Pair.advance h hs (by rw [ht]; rfl) fun _ s₁ s₁' _ h₁ _ => ?_
              refine Pair.expect h₁ rfl (by simp) fun name name' s₂ s₂' hname h₂ => ?_
              rw [P.value hname]
              exact ih fuel' _ h₂
          · exact Pair.pure ⟨rfl, h⟩

theorem loopHeader_pair (h : P.Beside .tag True s s') (hs : s.unread = t :: rest)
    (ht : t.kind.isInner) :
    P.Pair s s' loopHeader loopHeader
      (P.BehindTag fun r r' => r'.1 = r.1 ∧ SameExpr r.2 r'.2) := by
  refine Pair.advance h hs ht fun _ s₁ s₁' _ h₁ _ => ?_
  refine Pair.expect h₁ rfl (by simp) fun name name' s₂ s₂' hname h₂ => Pair.get ?_
  rw [P.value hname]
  refine Pair.bind (targetsFrom_pair _ _ _ h₂) ?_
  rintro _ targets s₃ s₃' ⟨rfl, h₃⟩
  refine Pair.expectKeyword h₃ fun _ _ s₄ s₄' _ h₄ => ?_
  refine Pair.bind (expression_pair h₄) ?_
  rintro e e' s₅ s₅' ⟨he, h₅⟩
  exact blockEnd_pair h₅ ⟨rfl, he⟩

theorem parameterDefault_pair (h : P.Beside .tag True s s') :
    P.Pair s s' parameterDefault parameterDefault
      (P.InTag fun o o' => o'.map Expr.bare = o.map Expr.bare) := by
  refine Pair.peek h fun t rest u rest' hs hs' htu => ?_
  rw [P.kind htu]
  split
  · next ht =>
      refine Pair.advance h hs (by rw [ht]; rfl) fun _ s₁ s₁' _ h₁ _ => ?_
      refine Pair.peek h₁ fun v more v' more' hs₁ hs₁' hvv => ?_
      rw [startsExpression_eq hvv]
      split
      · exact Pair.bind (expression_pair h₁) fun e e' s₂ s₂' ⟨he, h₂⟩ =>
          Pair.pure ⟨congrArg some he, h₂⟩
      · exact Pair.complain h₁ (Pair.complaints htu (by simp))
  · exact Pair.pure ⟨rfl, h⟩

theorem parametersBehind_pair {unit definition : String} {fuel fuel' : Nat}
    (ih : ∀ ps ps' s s', SameParameters ps ps' → P.Beside .tag True s s' →
      P.Pair s s' (parametersFrom unit definition fuel ps)
        (parametersFrom unit definition fuel' ps') (P.InTag SameParameters))
    {ps ps' : List (Parameter Expr)} (hps : SameParameters ps ps') (h : P.Beside .tag True s s') :
    P.Pair s s' (parametersBehind unit definition fuel ps)
      (parametersBehind unit definition fuel' ps') (P.InTag SameParameters) := by
  refine Pair.peek h fun t rest u rest' hs hs' htu => ?_
  rw [P.kind htu]
  split
  · next ht =>
      exact Pair.advance h hs (by rw [ht]; rfl) fun _ s₁ s₁' _ h₁ _ => ih ps ps' s₁ s₁' hps h₁
  · next ht =>
      exact Pair.advance h hs (by rw [ht]; rfl) fun _ _ _ _ h₁ _ => Pair.pure ⟨hps, h₁⟩
  · exact Pair.complain h (Pair.complaints htu (by simp))

theorem parametersFrom_pair (unit definition : String) (fuel fuel' : Nat)
    {ps ps' : List (Parameter Expr)} {s s' : State} (hps : SameParameters ps ps')
    (h : P.Beside .tag True s s') :
    P.Pair s s' (parametersFrom unit definition fuel ps) (parametersFrom unit definition fuel' ps')
      (P.InTag SameParameters) := by
  induction fuel generalizing fuel' ps ps' s s' with
  | zero => exact Pair.outOfFuel
  | succ fuel ih =>
      cases fuel' with
      | zero => exact Pair.outOfFuel_second
      | succ fuel' =>
          rw [parametersFrom_succ, parametersFrom_succ]
          refine Pair.peek h fun t rest u rest' hs hs' htu => ?_
          rw [P.kind htu]
          split
          · next ht =>
              exact Pair.advance h hs (by rw [ht]; rfl) fun _ _ _ _ h₁ _ => Pair.pure ⟨hps, h₁⟩
          · next ht =>
              refine Pair.advance h hs (by rw [ht]; rfl) fun _ s₁ s₁' _ h₁ _ => ?_
              refine Pair.bind (parameterDefault_pair h₁) ?_
              rintro d d' s₂ s₂' ⟨hd, h₂⟩
              have hbehind : ∀ {ps ps' : List (Parameter Expr)} {s s' : State},
                  SameParameters ps ps' → P.Beside .tag True s s' → P.Pair s s'
                    (parametersBehind unit definition fuel ps)
                    (parametersBehind unit definition fuel' ps') (P.InTag SameParameters) :=
                fun hps h => parametersBehind_pair (fun _ _ _ _ hps h => ih fuel' hps h) hps h
              rw [P.value htu, hps.any_name]
              split
              · have hc : P.Complaints ⟨.duplicateParameter t.value definition, t.span⟩
                    ⟨.duplicateParameter t.value definition, u.span⟩ :=
                  Pair.complaints htu (by simp)
                refine Pair.note h₂ hc fun s₃ s₃' h₃ _ => ?_
                rw [pure_bind, pure_bind]
                exact hbehind hps h₃
              · refine Pair.spanFrom h₂ fun _ _ => ?_
                rw [pure_bind, pure_bind]
                refine hbehind ?_ h₂
                unfold SameParameters
                rw [List.map_append, List.map_append, hps]
                show _ ++ [(⟨t.value, d'.map Expr.bare, _⟩ : Parameter Expr)] = _
                rw [hd]
                rfl
          · exact Pair.complain h (Pair.complaints htu (by simp))

theorem definitionHeader_pair (setting : Setting) (h : P.Beside .tag True s s')
    (hs : s.unread = t :: rest) (ht : t.kind.isInner) :
    P.Pair s s' (definitionHeader setting) (definitionHeader setting)
      (P.BehindTag fun r r' => r'.1.value = r.1.value ∧ SameParameters r.2 r'.2) := by
  refine Pair.advance h hs ht fun _ s₁ s₁' _ h₁ _ => ?_
  refine Pair.expect h₁ rfl (by simp) fun name name' s₂ s₂' hname h₂ => ?_
  refine Pair.expect h₂ rfl (by simp) fun _ _ s₃ s₃' _ h₃ => Pair.get ?_
  rw [P.value hname]
  refine Pair.bind (parametersFrom_pair _ _ _ _ rfl h₃) ?_
  rintro ps ps' s₄ s₄' ⟨hps, h₄⟩
  exact blockEnd_pair h₄ ⟨P.value hname, hps⟩

theorem callHeader_pair (h : P.Beside .tag True s s') (hs : s.unread = t :: rest)
    (ht : t.kind.isInner) :
    P.Pair s s' callHeader callHeader (P.BehindTag fun c c' => c'.bare = c.bare) := by
  refine Pair.advance h hs ht fun _ s₁ s₁' _ h₁ _ => ?_
  refine Pair.expect h₁ rfl (by simp) fun name name' s₂ s₂' hname h₂ => ?_
  refine Pair.expect h₂ rfl (by simp) fun _ _ s₃ s₃' _ h₃ => ?_
  refine Pair.bind (arguments_pair h₃) ?_
  rintro args args' s₄ s₄' ⟨hargs, h₄⟩
  refine Pair.join fun _ _ => Pair.join fun _ _ => blockEnd_pair h₄ ?_
  show (⟨name'.value, bareExprs args'.positional, bareNamed args'.named, _, _⟩ : MacroCall) = _
  rw [P.value hname, hargs.positional, hargs.named]
  rfl

/-- Nodes that are equal up to their spans. -/
def SameNode (n n' : Node) : Prop :=
  n'.bare = n.bare

theorem inclusion_pair (setting : Setting) (opening opening' : Token)
    (h : P.Beside .tag True s s') (hs : s.unread = t :: rest) (ht : t.kind.isInner) :
    P.Pair s s' (inclusion setting opening) (inclusion setting opening')
      (P.BehindTag SameNode) := by
  refine Pair.advance h hs ht fun _ s₁ s₁' _ h₁ _ => ?_
  refine Pair.expect h₁ rfl (by simp) fun path path' s₂ s₂' hpath h₂ => ?_
  refine Pair.close h₂ (.inl rfl) (by simp) fun _ _ s₃ s₃' h₃ => ?_
  refine Pair.spanFrom h₃ fun _ _ => Pair.pure ⟨?_, h₃⟩
  show Node.inclusion path'.value _ = _
  rw [P.value hpath]
  rfl

theorem assignment_pair (setting : Setting) (opening opening' : Token)
    (h : P.Beside .tag True s s') (hs : s.unread = t :: rest) (ht : t.kind.isInner) :
    P.Pair s s' (assignment setting opening) (assignment setting opening')
      (P.BehindTag SameNode) := by
  refine Pair.advance h hs ht fun _ s₁ s₁' _ h₁ _ => ?_
  refine Pair.expect h₁ rfl (by simp) fun name name' s₂ s₂' hname h₂ => ?_
  refine Pair.expect h₂ rfl (by simp) fun _ _ s₃ s₃' _ h₃ => ?_
  refine Pair.bind (expression_pair h₃) ?_
  rintro e e' s₄ s₄' ⟨he, h₄⟩
  refine Pair.close h₄ (.inl rfl) (by simp) fun _ _ s₅ s₅' h₅ => ?_
  refine Pair.spanFrom h₅ fun _ _ => Pair.pure ⟨?_, h₅⟩
  show Node.assignment name'.value e'.bare _ = _
  rw [P.value hname, he]
  rfl

/-- What stands behind the delimiter that opens an output. -/
theorem output_pair (setting : Setting) (opening opening' : Token) (h : P.Beside .tag True s s') :
    P.Pair s s'
      (do
        let e ← expression
        let _ ← expect .exprEnd .expectedExprEnd
        return (.output e (← spanFrom setting.unit opening.span.start) : Node))
      (do
        let e ← expression
        let _ ← expect .exprEnd .expectedExprEnd
        return (.output e (← spanFrom setting.unit opening'.span.start) : Node))
      (P.BehindTag SameNode) := by
  refine Pair.bind (expression_pair h) ?_
  rintro e e' s₁ s₁' ⟨he, h₁⟩
  refine Pair.close h₁ (.inr rfl) (by simp) fun _ _ s₂ s₂' h₂ => ?_
  refine Pair.spanFrom h₂ fun _ _ => Pair.pure ⟨?_, h₂⟩
  show Node.output e'.bare _ = _
  rw [he]
  rfl

/-- What stands behind the delimiter that opens an end tag. -/
theorem wordTag_pair (word : String) (h : P.Beside .tag True s s') :
    P.Pair s s'
      (do
        let _ ← expectKeyword word
        let _ ← expectBlockEnd)
      (do
        let _ ← expectKeyword word
        let _ ← expectBlockEnd)
      fun _ _ s₁ s₁' => P.Beside .text True s₁ s₁' := by
  refine Pair.expectKeyword h fun _ _ s₁ s₁' _ h₁ => ?_
  exact Pair.close h₁ (.inl rfl) (by simp) fun _ _ _ _ h₂ => Pair.pure h₂

end

end Pairing

end TemplateCompiler.Parser
