import TemplateCompiler.Proofs.ExpressionGrammar
import TemplateCompiler.Proofs.Halting

/-!
# Expressions halt

Whatever the tokens are, reading an expression ends at the end token at the latest, and if there is
an expression it has taken a token. The four loops inside of expressions are written as passes here:
the operators of a level, the applications behind an operand, and the arguments of calls and
filters.

At most one level after the other is entered before a token is taken, and sixteen units of fuel for
each token that is left pay for that.
-/

namespace TemplateCompiler.Parser

open Template (Expr)

/-! ## Loops as passes -/

/-- An operator of the level and its right operand. -/
def infixPass (level : Level) (fuel : Nat) (left : Expr) : Parser (Pass Expr Expr) := do
  match ← nextOperator? level with
  | none => return .done left
  | some op =>
    let right ← expressionAt fuel level.tighter
    return .again (.binary op left right (← join left.span right.span))

/-- One attribute, index, call or filter. -/
def applicationPass (fuel : Nat) (e : Expr) : Parser (Pass Expr Expr) := do
  let t ← peek
  match t.kind with
  | .dot =>
    let _ ← advance
    let name ← expectIdentifier
    return .again (.attribute e name.value (← join e.span name.span))
  | .leftBracket =>
    let _ ← advance
    let position ← expressionAt fuel .disjunction
    let close ← expect .rightBracket .expectedBracket
    return .again (.index e position (← join e.span close.span))
  | .leftParen =>
    let _ ← advance
    let args ← argumentsFrom fuel [] []
    let argsSpan ← join t.span args.close.span
    let span ← join e.span args.close.span
    return .again (.call e args.positional args.named argsSpan span)
  | .pipe =>
    let _ ← advance
    let name ← expect .identifier .expectedFilterName
    let next ← peek
    if next.kind = .leftParen then
      let _ ← advance
      let (args, close) ← filterArguments fuel []
      return .again (.filter name.value e args (← join e.span close.span))
    else return .again (.filter name.value e [] (← join e.span name.span))
  | _ => return .done e

/-- The arguments of a call that are read so far. -/
abbrev ArgumentsSoFar := List Expr × List (NamedArgument Expr)

/-- What follows an argument: a comma and maybe another argument, or the end of them all. -/
def argumentsBehind (args : ArgumentsSoFar) : Parser (Pass ArgumentsSoFar Arguments) := do
  let sep ← argumentEnd
  if sep.kind = .comma then return .again args else return .done ⟨args.1, args.2, sep⟩

/-- One argument of a call and what follows it. -/
def argumentPass (fuel : Nat) (args : ArgumentsSoFar) : Parser (Pass ArgumentsSoFar Arguments) := do
  let t ← peek
  if t.kind = .rightParen then
    let close ← advance
    return .done ⟨args.1, args.2, close⟩
  else if ← namedArgumentAhead t then
    let _ ← advance
    let _ ← advance
    let value ← expressionAt fuel .disjunction
    let span ← join t.span value.span
    argumentsBehind (args.1, args.2 ++ [⟨t.value, value, t.span, span⟩])
  else
    let value ← expressionAt fuel .disjunction
    argumentsBehind (args.1 ++ [value], args.2)

/-- One argument of a filter and what follows it. -/
def filterArgumentPass (fuel : Nat) (args : List Expr) :
    Parser (Pass (List Expr) (List Expr × Token)) := do
  let t ← peek
  if t.kind = .rightParen then
    let close ← advance
    return .done (args, close)
  else
    let value ← expressionAt fuel .disjunction
    let args := args ++ [value]
    let sep ← argumentEnd
    if sep.kind = .comma then return .again args else return .done (args, sep)

theorem infixes_succ (level : Level) (fuel : Nat) (left : Expr) :
    infixes (fuel + 1) level left =
      infixPass level fuel left >>= Pass.andThen (infixes fuel level) := by
  rw [infixes, infixPass, bind_assoc]
  refine bind_congr fun o => ?_
  cases o with
  | none => rfl
  | some op =>
      simp only [bind_assoc, pure_bind]
      rfl

theorem applications_succ (fuel : Nat) (e : Expr) :
    applications (fuel + 1) e = applicationPass fuel e >>= Pass.andThen (applications fuel) := by
  rw [applications, applicationPass, bind_assoc]
  refine bind_congr fun t => ?_
  generalize t.kind = kind
  cases kind with
  | dot | leftBracket | leftParen =>
      simp only [bind_assoc, pure_bind]
      rfl
  | pipe =>
      simp only [bind_assoc]
      refine bind_congr fun _ => bind_congr fun name => bind_congr fun next => ?_
      split
      · simp only [bind_assoc, pure_bind]
        rfl
      · simp only [bind_assoc, pure_bind]
        rfl
  | _ => rfl

theorem argumentsBehind_bind (fuel : Nat) (args : ArgumentsSoFar) :
    argumentsBehind args >>= Pass.andThen (fun args => argumentsFrom fuel args.1 args.2) = (do
      let sep ← argumentEnd
      if sep.kind = .comma then argumentsFrom fuel args.1 args.2
      else return ⟨args.1, args.2, sep⟩) := by
  rw [argumentsBehind, bind_assoc]
  refine bind_congr fun sep => ?_
  split
  · rfl
  · rfl

theorem argumentsFrom_succ (fuel : Nat) (args : ArgumentsSoFar) :
    argumentsFrom (fuel + 1) args.1 args.2 =
      argumentPass fuel args >>= Pass.andThen fun args => argumentsFrom fuel args.1 args.2 := by
  rw [argumentsFrom, argumentPass, bind_assoc]
  refine bind_congr fun t => ?_
  split
  · simp only [bind_assoc, pure_bind]
    rfl
  · rw [bind_assoc]
    refine bind_congr fun ahead => ?_
    split
    · simp only [bind_assoc, argumentsBehind_bind]
    · simp only [bind_assoc, argumentsBehind_bind]

theorem filterArguments_succ (fuel : Nat) (args : List Expr) :
    filterArguments (fuel + 1) args =
      filterArgumentPass fuel args >>= Pass.andThen (filterArguments fuel) := by
  rw [filterArguments, filterArgumentPass, bind_assoc]
  refine bind_congr fun t => ?_
  split
  · simp only [bind_assoc, pure_bind]
    rfl
  · simp only [bind_assoc]
    refine bind_congr fun value => bind_congr fun sep => ?_
    split
    · rfl
    · rfl

/-! ## Operators and separators -/

variable {x : Sides} {v : View}

theorem Level.operator?_kind_ne {level : Level} {t : Token} {op : BinaryOperator}
    (h : level.operator? t = some op) : t.kind ≠ .eof := by
  intro hend
  rw [operator?, hend] at h
  cases h

theorem signOperator?_kind_ne {t : Token} {op : UnaryOperator} (h : signOperator? t = some op) :
    t.kind ≠ .eof := by
  intro hend
  rw [signOperator?, hend] at h
  cases h

theorem kind_ne_of_isKeyword {t : Token} {word : String} (h : t.isKeyword word) :
    t.kind ≠ .eof := by
  rw [Token.kind_eq_of_isKeyword h]
  decide

/-- An operator is taken, or nothing is. -/
theorem nextOperator?_halts (level : Level) : Halts x v (nextOperator? level) (nextOperator? level)
    fun o v' => o ≠ none → v'.left < v.left := by
  have hnone : Halts x v (pure none) (pure none) fun (o : Option BinaryOperator) v' =>
      o ≠ none → v'.left < v.left := Halts.pure fun h => absurd rfl h
  refine Halts.peek ?_
  split
  · next op hop =>
      have hlt := View.past_left_lt (Level.operator?_kind_ne hop)
      exact Halts.advance (Halts.pure fun _ => hlt)
  · split
    · next hnot =>
        have hlt := View.past_left_lt (kind_ne_of_isKeyword (Bool.and_eq_true_iff.mp hnot).2)
        refine Halts.peekSecond fun second => ?_
        split
        · refine Halts.advance (Halts.advance (Halts.pure fun _ => ?_))
          exact Nat.lt_of_le_of_lt View.past_left_le hlt
        · exact hnone
    · exact hnone

theorem argumentEnd_halts : Halts x v argumentEnd argumentEnd fun _ v' => v'.left < v.left := by
  refine Halts.peek ?_
  split
  · next hsep =>
      refine Halts.of_bind (Halts.advance (Halts.pure (View.past_left_lt ?_)))
      intro hend
      simp [hend] at hsep
  · exact Halts.complain

theorem namedArgumentAhead_halts (t : Token) :
    Halts x v (namedArgumentAhead t) (namedArgumentAhead t) fun _ v' => v = v' := by
  unfold namedArgumentAhead
  split
  · exact Halts.peekSecond fun second => Halts.pure rfl
  · exact Halts.pure rfl

/-! ## One unit of fuel more -/

/-- With enough fuel for what is left, however much more of it there is. -/
structure ExpressionsHalt (x : Sides) (fuel fuel' : Nat) : Prop where
  expressionAt : ∀ (level : Level) (v : View), 16 * v.left + 10 ≤ min fuel fuel' + level.rank →
    Halts x v (expressionAt fuel level) (expressionAt fuel' level) fun _ v' => v'.left < v.left
  infixes : ∀ (level : Level) (left : Expr) (v : View), 16 * v.left + 1 ≤ min fuel fuel' →
    Halts x v (infixes fuel level left) (infixes fuel' level left) fun _ _ => True
  applications : ∀ (e : Expr) (v : View), 16 * v.left + 1 ≤ min fuel fuel' →
    Halts x v (applications fuel e) (applications fuel' e) fun _ _ => True
  atom : ∀ v : View, 16 * v.left + 1 ≤ min fuel fuel' →
    Halts x v (atom fuel) (atom fuel') fun _ v' => v'.left < v.left
  argumentsFrom : ∀ (args : ArgumentsSoFar) (v : View), 16 * v.left + 11 ≤ min fuel fuel' →
    Halts x v (argumentsFrom fuel args.1 args.2) (argumentsFrom fuel' args.1 args.2)
      fun _ _ => True
  filterArguments : ∀ (args : List Expr) (v : View), 16 * v.left + 11 ≤ min fuel fuel' →
    Halts x v (filterArguments fuel args) (filterArguments fuel' args) fun _ _ => True

/-- No level needs more fuel than the loosest. -/
theorem ExpressionsHalt.whole {fuel fuel' : Nat} (h : ExpressionsHalt x fuel fuel') (level : Level)
    (v : View) (hfuel : 16 * v.left + 10 ≤ min fuel fuel') :
    Halts x v (Parser.expressionAt fuel level) (Parser.expressionAt fuel' level)
      fun _ v' => v'.left < v.left :=
  h.expressionAt level v (Nat.le_add_right_of_le hfuel)

theorem expressionsHalt_of_eq_zero {fuel fuel' : Nat} (h : min fuel fuel' = 0) :
    ExpressionsHalt x fuel fuel' where
  expressionAt level v hfuel := by
    have hrank := level.rank_le
    omega
  infixes level left v hfuel := by omega
  applications e v hfuel := by omega
  atom v hfuel := by omega
  argumentsFrom args v hfuel := by omega
  filterArguments args v hfuel := by omega

section

variable {fuel fuel' : Nat} (ih : ExpressionsHalt x fuel fuel')

include ih

theorem infixPass_halts (level : Level) (left : Expr) (h : 16 * v.left ≤ min fuel fuel') :
    Halts x v (infixPass level fuel left) (infixPass level fuel' left)
      (Pass.Progresses v fun _ _ => True) := by
  refine Halts.bind (nextOperator?_halts level) fun o v₁ _ hsome => ?_
  cases o with
  | none => exact Halts.pure trivial
  | some op =>
      have hlt := hsome nofun
      refine Halts.bind (ih.expressionAt level.tighter v₁ (by omega)) fun right v₂ _ hlt₂ => ?_
      exact Halts.join fun span => Halts.pure (Nat.lt_trans hlt₂ hlt)

theorem applicationPass_halts (e : Expr) (h : 16 * v.left ≤ min fuel fuel') :
    Halts x v (applicationPass fuel e) (applicationPass fuel' e)
      (Pass.Progresses v fun _ _ => True) := by
  refine Halts.peek ?_
  split
  · next ht =>
      have hlt : (v.past x).left < v.left := View.past_left_lt (by simp [ht])
      refine Halts.advance (Halts.expect nofun fun name v₂ hlt₂ => Halts.join fun span => ?_)
      exact Halts.pure (Nat.lt_trans hlt₂ hlt)
  · next ht =>
      have hlt : (v.past x).left < v.left := View.past_left_lt (by simp [ht])
      refine Halts.advance ?_
      refine Halts.bind (ih.whole .disjunction _ (by omega)) fun position v₂ _ hlt₂ => ?_
      refine Halts.expect nofun fun close v₃ hlt₃ => Halts.join fun span => Halts.pure ?_
      exact Nat.lt_trans hlt₃ (Nat.lt_trans hlt₂ hlt)
  · next ht =>
      have hlt : (v.past x).left < v.left := View.past_left_lt (by simp [ht])
      refine Halts.advance ?_
      refine Halts.bind (ih.argumentsFrom ([], []) _ (by omega)) fun args v₂ hle _ => ?_
      refine Halts.join fun argsSpan => Halts.join fun span => Halts.pure ?_
      exact Nat.lt_of_le_of_lt hle hlt
  · next ht =>
      have hlt : (v.past x).left < v.left := View.past_left_lt (by simp [ht])
      refine Halts.advance (Halts.expect nofun fun name v₂ hlt₂ => Halts.peek ?_)
      have hlt₃ : (v₂.past x).left ≤ v₂.left := View.past_left_le
      split
      · refine Halts.advance ?_
        refine Halts.bind (ih.filterArguments [] _ (by omega)) fun r v₄ hle _ => ?_
        refine Halts.join fun span => Halts.pure ?_
        show v₄.left < v.left
        omega
      · exact Halts.join fun span => Halts.pure (Nat.lt_trans hlt₂ hlt)
  · exact Halts.pure trivial

omit ih in
theorem argumentsBehind_halts {w : View} (args : ArgumentsSoFar) (h : w.left ≤ v.left) :
    Halts x w (argumentsBehind args) (argumentsBehind args)
      (Pass.Progresses v fun _ _ => True) := by
  refine Halts.bind argumentEnd_halts fun sep v' _ hlt => ?_
  split
  · exact Halts.pure (Nat.lt_of_lt_of_le hlt h)
  · exact Halts.pure trivial

theorem argumentPass_halts (args : ArgumentsSoFar) (h : 16 * v.left + 10 ≤ min fuel fuel') :
    Halts x v (argumentPass fuel args) (argumentPass fuel' args)
      (Pass.Progresses v fun _ _ => True) := by
  refine Halts.peek ?_
  split
  · exact Halts.advance (Halts.pure trivial)
  · refine Halts.bind (namedArgumentAhead_halts _) ?_
    rintro ahead _ - rfl
    split
    · refine Halts.advance (Halts.advance ?_)
      have hle : (v.past x).left ≤ v.left := View.past_left_le
      have hle₂ : ((v.past x).past x).left ≤ (v.past x).left := View.past_left_le
      refine Halts.bind (ih.whole .disjunction _ (by omega)) fun value v₃ _ hlt₃ => ?_
      exact Halts.join fun span => argumentsBehind_halts _ (by omega)
    · refine Halts.bind (ih.whole .disjunction _ (by omega)) fun value v' hle _ => ?_
      exact argumentsBehind_halts _ hle

theorem filterArgumentPass_halts (args : List Expr) (h : 16 * v.left + 10 ≤ min fuel fuel') :
    Halts x v (filterArgumentPass fuel args) (filterArgumentPass fuel' args)
      (Pass.Progresses v fun _ _ => True) := by
  refine Halts.peek ?_
  split
  · exact Halts.advance (Halts.pure trivial)
  · refine Halts.bind (ih.whole .disjunction _ (by omega)) fun value v' _ hlt => ?_
    refine Halts.bind argumentEnd_halts fun sep v'' _ hlt' => ?_
    split
    · exact Halts.pure (Nat.lt_trans hlt' hlt)
    · exact Halts.pure trivial

/-- A prefix operator and its operand. -/
theorem unary_halts (op : UnaryOperator) (level : Level) (ht : (v.next x).kind ≠ .eof)
    (h : 16 * v.left + 10 ≤ min fuel fuel' + 16) :
    Halts x v
      (do
        let _ ← advance
        let operand ← Parser.expressionAt fuel level
        return Expr.unary op operand (← join (v.next x).span operand.span))
      (do
        let _ ← advance
        let operand ← Parser.expressionAt fuel' level
        return Expr.unary op operand (← join (v.next x).span operand.span))
      fun _ v' => v'.left < v.left := by
  have hlt := View.past_left_lt ht
  refine Halts.advance ?_
  refine Halts.bind (ih.expressionAt level _ (by omega)) fun operand v' _ hlt' => ?_
  exact Halts.join fun span => Halts.pure (Nat.lt_trans hlt' hlt)

theorem expressionAt_halts (level : Level)
    (h : 16 * v.left + 10 ≤ min fuel fuel' + 1 + level.rank) :
    Halts x v (expressionAt (fuel + 1) level) (expressionAt (fuel' + 1) level)
      fun _ v' => v'.left < v.left := by
  have hmax := level.rank_le
  have hoperands : ∀ level : Level, level ≠ .application →
      16 * v.left + 10 ≤ min fuel fuel' + 1 + level.rank →
      Halts x v
        (do
          let left ← Parser.expressionAt fuel level.tighter
          Parser.infixes fuel level left)
        (do
          let left ← Parser.expressionAt fuel' level.tighter
          Parser.infixes fuel' level left) fun _ v' => v'.left < v.left := by
    intro level hlevel h
    have hrank := (Level.before_iff.mpr ⟨hlevel, rfl⟩).rank_eq
    have hmax := level.rank_le
    refine Halts.bind (ih.expressionAt level.tighter v (by omega)) fun left v' _ hlt => ?_
    refine (ih.infixes level left v' (by omega)).imp fun _ v'' hle _ => ?_
    exact Nat.lt_of_le_of_lt hle hlt
  cases level with
  | negation =>
      have hrank : Level.negation.rank + 1 = Level.comparison.rank := by decide
      rw [expressionAt, expressionAt]
      refine Halts.peek ?_
      split
      · next hnot => exact unary_halts ih _ _ (kind_ne_of_isKeyword hnot) (by omega)
      · exact ih.expressionAt .comparison v (by omega)
  | sign =>
      have hrank : Level.sign.rank + 1 = Level.application.rank := by decide
      rw [expressionAt, expressionAt]
      refine Halts.peek ?_
      split
      · next op hop => exact unary_halts ih op _ (signOperator?_kind_ne hop) (by omega)
      · exact ih.expressionAt .application v (by omega)
  | application =>
      have hrank : Level.application.rank = 8 := by decide
      rw [expressionAt, expressionAt]
      refine Halts.bind (ih.atom v (by omega)) fun e v' _ hlt => ?_
      refine (ih.applications e v' (by omega)).imp fun _ v'' hle _ => ?_
      exact Nat.lt_of_le_of_lt hle hlt
  | _ =>
      rw [expressionAt, expressionAt]
      · exact hoperands _ nofun h
      all_goals exact nofun

theorem atom_halts (h : 16 * v.left ≤ min fuel fuel') :
    Halts x v (atom (fuel + 1)) (atom (fuel' + 1)) fun _ v' => v'.left < v.left := by
  rw [atom, atom]
  refine Halts.peek ?_
  split
  · next ht => exact Halts.advance (Halts.pure (View.past_left_lt (by simp [ht])))
  · next ht => exact Halts.advance (Halts.pure (View.past_left_lt (by simp [ht])))
  · next ht =>
      refine Halts.advance ?_
      split
      · exact Halts.pure (View.past_left_lt (by simp [ht]))
      · exact Halts.throw trivial
  · next ht =>
      split
      · exact Halts.advance (Halts.pure (View.past_left_lt (by simp [ht])))
      · exact Halts.complain
  · next ht =>
      have hlt : (v.past x).left < v.left := View.past_left_lt (by simp [ht])
      refine Halts.advance ?_
      refine Halts.bind (ih.whole .disjunction _ (by omega)) fun e v₂ _ hlt₂ => ?_
      refine Halts.expect nofun fun close v₃ hlt₃ => Halts.pure ?_
      exact Nat.lt_trans hlt₃ (Nat.lt_trans hlt₂ hlt)
  · exact Halts.complain

end

/-! ## Every amount of fuel -/

theorem expressionsHalt (x : Sides) (fuel fuel' : Nat) : ExpressionsHalt x fuel fuel' := by
  induction fuel generalizing fuel' with
  | zero => exact expressionsHalt_of_eq_zero (Nat.zero_min fuel')
  | succ fuel ih =>
      cases fuel' with
      | zero => exact expressionsHalt_of_eq_zero (Nat.min_zero (fuel + 1))
      | succ fuel' =>
          have ih := ih fuel'
          refine ⟨fun level v h => expressionAt_halts ih level (by omega), fun level left v h => ?_,
            fun e v h => ?_, fun v h => atom_halts ih (by omega), fun args v h => ?_,
            fun args v h => ?_⟩
          · rw [infixes_succ, infixes_succ]
            exact Halts.andThen (infixPass_halts ih level left (by omega)) fun left v' hlt =>
              ih.infixes level left v' (by omega)
          · rw [applications_succ, applications_succ]
            exact Halts.andThen (applicationPass_halts ih e (by omega)) fun e v' hlt =>
              ih.applications e v' (by omega)
          · rw [argumentsFrom_succ, argumentsFrom_succ]
            exact Halts.andThen (argumentPass_halts ih args (by omega)) fun args v' hlt =>
              ih.argumentsFrom args v' (by omega)
          · rw [filterArguments_succ, filterArguments_succ]
            exact Halts.andThen (filterArgumentPass_halts ih args (by omega)) fun args v' hlt =>
              ih.filterArguments args v' (by omega)

theorem expressionFuel_enough (v : View) (last : Token) (b : Beyond) :
    16 * v.left + 16 ≤ expressionFuel (v.state last b).unread.length := by
  rw [expressionFuel, View.length_unread]
  omega

theorem expression_halts : Halts x v expression expression fun _ v' => v'.left < v.left := by
  have hfirst := expressionFuel_enough v x.last x.first
  have hsecond := expressionFuel_enough v x.last x.second
  exact Halts.get (f := fun s => expressionAt (expressionFuel s.unread.length) .disjunction)
    (g := fun s => expressionAt (expressionFuel s.unread.length) .disjunction)
    ((expressionsHalt x _ _).whole .disjunction v (by omega))

theorem arguments_halts : Halts x v arguments arguments fun _ _ => True := by
  have hfirst := expressionFuel_enough v x.last x.first
  have hsecond := expressionFuel_enough v x.last x.second
  exact Halts.get (f := fun s => argumentsFrom (expressionFuel s.unread.length) [] [])
    (g := fun s => argumentsFrom (expressionFuel s.unread.length) [] [])
    ((expressionsHalt x _ _).argumentsFrom ([], []) v (by omega))

end TemplateCompiler.Parser
