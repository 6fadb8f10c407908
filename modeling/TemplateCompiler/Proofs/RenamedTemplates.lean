import TemplateCompiler.Proofs.Reading
import TemplateCompiler.Proofs.Renaming

/-!
# Templates under another name

Every function of the parser mirrors itself on renamed tokens, by recursion on the fuel as in the
functions themselves. So a parse under one name is a parse under any other, renamed.
-/

namespace TemplateCompiler

namespace Parser

open Template (Expr Node)

variable {unit : String}

/-! ## Expressions -/

def Arguments.inUnit (unit : String) (a : Arguments) : Arguments :=
  ⟨a.positional.map (Expr.inUnit unit), a.named.map (NamedArgument.inUnit unit),
    a.close.inUnit unit⟩

/-- What is read of the arguments of a filter. -/
def argumentsInUnit (unit : String) (r : List Expr × Token) : List Expr × Token :=
  (r.1.map (Expr.inUnit unit), r.2.inUnit unit)

theorem nextOperator?_mirrors (level : Level) :
    Mirrors unit id (nextOperator? level) (nextOperator? level) := by
  refine Mirrors.bind Mirrors.peek ?_
  intro t
  have hoperator : level.operator? (t.inUnit unit) = level.operator? t := rfl
  rw [hoperator]
  split
  · refine Mirrors.bind Mirrors.advance ?_
    intro _
    exact Mirrors.pure rfl
  · refine Mirrors.ite Iff.rfl ?_ fun _ => Mirrors.pure rfl
    intro _
    refine Mirrors.bind Mirrors.peekSecond ?_
    intro second
    refine Mirrors.ite Iff.rfl ?_ fun _ => Mirrors.pure rfl
    intro _
    refine Mirrors.bind Mirrors.advance fun _ => Mirrors.bind Mirrors.advance ?_
    intro _
    exact Mirrors.pure rfl

/-- What each function of the expressions mirrors. -/
structure ExpressionsMirror (unit : String) (fuel : Nat) : Prop where
  expressionAt : ∀ level, Mirrors unit (Expr.inUnit unit) (expressionAt fuel level)
    (expressionAt fuel level)
  infixes : ∀ level left, Mirrors unit (Expr.inUnit unit) (infixes fuel level left)
    (infixes fuel level (left.inUnit unit))
  applications : ∀ e, Mirrors unit (Expr.inUnit unit) (applications fuel e)
    (applications fuel (e.inUnit unit))
  atom : Mirrors unit (Expr.inUnit unit) (atom fuel) (atom fuel)
  argumentsFrom : ∀ positional named, Mirrors unit (Arguments.inUnit unit)
    (argumentsFrom fuel positional named)
    (argumentsFrom fuel (positional.map (Expr.inUnit unit))
      (named.map (NamedArgument.inUnit unit)))
  filterArguments : ∀ args, Mirrors unit (argumentsInUnit unit) (filterArguments fuel args)
    (filterArguments fuel (args.map (Expr.inUnit unit)))

theorem expressionsMirror_zero (unit : String) : ExpressionsMirror unit 0 where
  expressionAt _ := Mirrors.throw rfl
  infixes _ _ := Mirrors.throw rfl
  applications _ := Mirrors.throw rfl
  atom := Mirrors.throw rfl
  argumentsFrom _ _ := Mirrors.throw rfl
  filterArguments _ := Mirrors.throw rfl

section

variable {fuel : Nat} (ih : ExpressionsMirror unit fuel)

include ih

/-- A prefix operator and its operand. -/
theorem unary_mirrors (op : UnaryOperator) (t : Token) (level : Level) :
    Mirrors unit (Expr.inUnit unit)
      (do
        let _ ← advance
        let operand ← Parser.expressionAt fuel level
        return .unary op operand (← join t.span operand.span))
      (do
        let _ ← advance
        let operand ← Parser.expressionAt fuel level
        return .unary op operand (← join (t.inUnit unit).span operand.span)) := by
  refine Mirrors.bind Mirrors.advance fun _ => Mirrors.bind (ih.expressionAt level) ?_
  intro operand
  rw [Expr.span_inUnit]
  refine Mirrors.bind (Mirrors.join _ _) ?_
  intro span
  exact Mirrors.pure rfl

theorem expressionAt_mirrors (level : Level) :
    Mirrors unit (Expr.inUnit unit) (expressionAt (fuel + 1) level)
      (expressionAt (fuel + 1) level) := by
  have hoperands : ∀ level : Level, Mirrors unit (Expr.inUnit unit)
      (do
        let left ← Parser.expressionAt fuel level.tighter
        Parser.infixes fuel level left)
      (do
        let left ← Parser.expressionAt fuel level.tighter
        Parser.infixes fuel level left) :=
    fun level => Mirrors.bind (ih.expressionAt level.tighter) (ih.infixes level)
  cases level with
  | negation =>
      rw [expressionAt]
      refine Mirrors.bind Mirrors.peek ?_
      intro t
      exact Mirrors.ite Iff.rfl (fun _ => unary_mirrors ih _ t _) fun _ => ih.expressionAt _
  | sign =>
      rw [expressionAt]
      refine Mirrors.bind Mirrors.peek ?_
      intro t
      have hsign : signOperator? (t.inUnit unit) = signOperator? t := rfl
      rw [hsign]
      split
      · next op _ => exact unary_mirrors ih op t _
      · exact ih.expressionAt _
  | application =>
      rw [expressionAt]
      exact Mirrors.bind ih.atom ih.applications
  | _ =>
      rw [expressionAt]
      · exact hoperands _
      all_goals exact nofun

theorem infixes_mirrors (level : Level) (left : Expr) :
    Mirrors unit (Expr.inUnit unit) (infixes (fuel + 1) level left)
      (infixes (fuel + 1) level (left.inUnit unit)) := by
  rw [infixes, infixes]
  refine Mirrors.bind (nextOperator?_mirrors level) ?_
  intro o
  cases o with
  | none => exact Mirrors.pure rfl
  | some op =>
      refine Mirrors.bind (ih.expressionAt _) ?_
      intro right
      rw [Expr.span_inUnit, Expr.span_inUnit]
      refine Mirrors.bind (Mirrors.join _ _) ?_
      intro span
      exact ih.infixes level _

theorem applications_mirrors (e : Expr) :
    Mirrors unit (Expr.inUnit unit) (applications (fuel + 1) e)
      (applications (fuel + 1) (e.inUnit unit)) := by
  rw [applications, applications]
  refine Mirrors.bind Mirrors.peek ?_
  intro t
  rw [Token.kind_inUnit]
  split
  · refine Mirrors.bind Mirrors.advance fun _ => Mirrors.bind (Mirrors.expect _ _) ?_
    intro name
    rw [Expr.span_inUnit]
    refine Mirrors.bind (Mirrors.join _ _) ?_
    intro span
    exact ih.applications _
  · refine Mirrors.bind Mirrors.advance fun _ => Mirrors.bind (ih.expressionAt _) ?_
    intro position
    refine Mirrors.bind (Mirrors.expect _ _) ?_
    intro close
    rw [Expr.span_inUnit]
    refine Mirrors.bind (Mirrors.join _ _) ?_
    intro span
    exact ih.applications _
  · refine Mirrors.bind Mirrors.advance fun _ => Mirrors.bind (ih.argumentsFrom [] []) ?_
    intro args
    refine Mirrors.bind (Mirrors.join _ _) ?_
    intro argsSpan
    rw [Expr.span_inUnit]
    refine Mirrors.bind (Mirrors.join _ _) ?_
    intro span
    have h := ih.applications (.call e args.positional args.named argsSpan span)
    rwa [Expr.inUnit, Template.exprsInUnit_eq_map, Template.namedInUnit_eq_map] at h
  · refine Mirrors.bind Mirrors.advance fun _ => Mirrors.bind (Mirrors.expect _ _) ?_
    intro name
    refine Mirrors.bind Mirrors.peek ?_
    intro next
    refine Mirrors.ite Iff.rfl ?_ ?_
    · intro _
      refine Mirrors.bind Mirrors.advance fun _ => Mirrors.bind (ih.filterArguments []) ?_
      intro r
      rw [Expr.span_inUnit]
      refine Mirrors.bind (Mirrors.join _ _) ?_
      intro span
      have h := ih.applications (.filter name.value e r.1 span)
      rwa [Expr.inUnit, Template.exprsInUnit_eq_map] at h
    · intro _
      rw [Expr.span_inUnit]
      refine Mirrors.bind (Mirrors.join _ _) ?_
      intro span
      exact ih.applications _
  · exact Mirrors.pure rfl

theorem atom_mirrors : Mirrors unit (Expr.inUnit unit) (atom (fuel + 1)) (atom (fuel + 1)) := by
  rw [atom]
  refine Mirrors.bind Mirrors.peek ?_
  intro t
  rw [Token.kind_inUnit]
  split
  · exact Mirrors.bind Mirrors.advance fun _ => Mirrors.pure rfl
  · exact Mirrors.bind Mirrors.advance fun _ => Mirrors.pure rfl
  · refine Mirrors.bind Mirrors.advance ?_
    intro _
    rw [Token.value_inUnit]
    split
    · exact Mirrors.pure rfl
    · exact Mirrors.throw rfl
  · have hconstant : constant? (t.inUnit unit) = constant? t := rfl
    rw [hconstant]
    split
    · exact Mirrors.bind Mirrors.advance fun _ => Mirrors.pure rfl
    · exact Mirrors.complain rfl
  · refine Mirrors.bind Mirrors.advance fun _ => Mirrors.bind (ih.expressionAt _) ?_
    intro e
    exact Mirrors.bind (Mirrors.expect _ _) fun _ => Mirrors.pure rfl
  · exact Mirrors.complain rfl

omit ih in
theorem argumentEnd_mirrors : Mirrors unit (Token.inUnit unit) argumentEnd argumentEnd := by
  refine Mirrors.bind Mirrors.peek ?_
  intro t
  exact Mirrors.ite Iff.rfl (fun _ => Mirrors.advance) fun _ => Mirrors.complain rfl

omit ih in
theorem namedArgumentAhead_mirrors (t : Token) :
    Mirrors unit id (namedArgumentAhead t) (namedArgumentAhead (t.inUnit unit)) := by
  refine Mirrors.ite Iff.rfl ?_ fun _ => Mirrors.pure rfl
  intro _
  exact Mirrors.bind Mirrors.peekSecond fun _ => Mirrors.pure rfl

theorem argumentsFrom_mirrors (positional : List Expr) (named : List (NamedArgument Expr)) :
    Mirrors unit (Arguments.inUnit unit) (argumentsFrom (fuel + 1) positional named)
      (argumentsFrom (fuel + 1) (positional.map (Expr.inUnit unit))
        (named.map (NamedArgument.inUnit unit))) := by
  have hafter : ∀ (positional : List Expr) (named : List (NamedArgument Expr))
      (positional' : List Expr) (named' : List (NamedArgument Expr)),
      positional' = positional.map (Expr.inUnit unit) →
      named' = named.map (NamedArgument.inUnit unit) →
      Mirrors unit (Arguments.inUnit unit)
        (do
          let sep ← argumentEnd
          if sep.kind = .comma then Parser.argumentsFrom fuel positional named
          else return ⟨positional, named, sep⟩)
        (do
          let sep ← argumentEnd
          if sep.kind = .comma then Parser.argumentsFrom fuel positional' named'
          else return ⟨positional', named', sep⟩) := by
    rintro positional named _ _ rfl rfl
    refine Mirrors.bind argumentEnd_mirrors ?_
    intro sep
    exact Mirrors.ite Iff.rfl (fun _ => ih.argumentsFrom _ _) fun _ => Mirrors.pure rfl
  rw [argumentsFrom, argumentsFrom]
  refine Mirrors.bind Mirrors.peek ?_
  intro t
  refine Mirrors.ite Iff.rfl ?_ ?_
  · intro _
    exact Mirrors.bind Mirrors.advance fun _ => Mirrors.pure rfl
  · intro _
    refine Mirrors.bind (namedArgumentAhead_mirrors t) ?_
    intro ahead
    refine Mirrors.ite Iff.rfl ?_ ?_
    · intro _
      refine Mirrors.bind Mirrors.advance fun _ => Mirrors.bind Mirrors.advance fun _ => ?_
      refine Mirrors.bind (ih.expressionAt _) ?_
      intro value
      rw [Expr.span_inUnit]
      refine Mirrors.bind (Mirrors.join _ _) ?_
      intro span
      refine hafter _ _ _ _ rfl ?_
      rw [List.map_append]
      rfl
    · intro _
      refine Mirrors.bind (ih.expressionAt _) ?_
      intro value
      refine hafter _ _ _ _ ?_ rfl
      rw [List.map_append]
      rfl

theorem filterArguments_mirrors (args : List Expr) :
    Mirrors unit (argumentsInUnit unit) (filterArguments (fuel + 1) args)
      (filterArguments (fuel + 1) (args.map (Expr.inUnit unit))) := by
  rw [filterArguments, filterArguments]
  refine Mirrors.bind Mirrors.peek ?_
  intro t
  refine Mirrors.ite Iff.rfl ?_ ?_
  · intro _
    exact Mirrors.bind Mirrors.advance fun _ => Mirrors.pure rfl
  · intro _
    refine Mirrors.bind (ih.expressionAt _) ?_
    intro value
    have hargs : args.map (Expr.inUnit unit) ++ [value.inUnit unit] =
        (args ++ [value]).map (Expr.inUnit unit) := by
      rw [List.map_append]
      rfl
    dsimp only
    rw [hargs]
    refine Mirrors.bind argumentEnd_mirrors ?_
    intro sep
    exact Mirrors.ite Iff.rfl (fun _ => ih.filterArguments _) fun _ => Mirrors.pure rfl

end

theorem expressionsMirror (unit : String) : ∀ fuel, ExpressionsMirror unit fuel
  | 0 => expressionsMirror_zero unit
  | fuel + 1 =>
      have ih := expressionsMirror unit fuel
      { expressionAt := expressionAt_mirrors ih
        infixes := infixes_mirrors ih
        applications := applications_mirrors ih
        atom := atom_mirrors ih
        argumentsFrom := argumentsFrom_mirrors ih
        filterArguments := filterArguments_mirrors ih }

theorem expression_mirrors : Mirrors unit (Expr.inUnit unit) expression expression := by
  intro s
  have h := (expressionsMirror unit (expressionFuel s.unread.length)).expressionAt .disjunction s
  rw [expression, expression, State.length_unread_inUnit]
  exact h

theorem arguments_mirrors : Mirrors unit (Arguments.inUnit unit) arguments arguments := by
  intro s
  have h := (expressionsMirror unit (expressionFuel s.unread.length)).argumentsFrom [] [] s
  rw [arguments, arguments, State.length_unread_inUnit]
  exact h

/-! ## Headers and tags without a body -/

section

variable (setting : Setting)

theorem recovering_mirrors {α β : Type} {f : α → β} {p : Parser α} {q : Parser β}
    (h : Mirrors unit f p q) : Mirrors unit (Option.map f) (recovering p) (recovering q) :=
  h.recovering Mirrors.recover

theorem effective_inUnit (marker : Option String) :
    Setting.effective { setting with unit } marker = setting.effective marker := by
  cases marker <;> rfl

theorem text_mirrors :
    Mirrors unit (Option.map (Node.inUnit unit)) (text setting) (text { setting with unit }) := by
  refine Mirrors.bind Mirrors.advance ?_
  intro t
  refine Mirrors.bind Mirrors.peek ?_
  intro following s
  simp only [effective_inUnit]
  show EStateM.Result.ok _ _ = EStateM.Result.ok _ _
  congr 1
  rw [apply_ite (Option.map (Node.inUnit unit))]
  rfl

theorem comment_mirrors : Mirrors unit id comment comment := by
  refine Mirrors.bind Mirrors.advance fun _ => Mirrors.bind (Mirrors.expect _ _) ?_
  intro _
  exact Mirrors.bind (Mirrors.expect _ _) fun _ => Mirrors.pure rfl

theorem output_mirrors :
    Mirrors unit (Node.inUnit unit) (output setting) (output { setting with unit }) := by
  refine Mirrors.bind Mirrors.advance ?_
  intro opening
  refine Mirrors.bind expression_mirrors ?_
  intro e
  refine Mirrors.bind (Mirrors.expect _ _) fun _ => Mirrors.bind (Mirrors.spanFrom _ _) ?_
  intro span
  exact Mirrors.pure rfl

theorem condition_mirrors : Mirrors unit (Expr.inUnit unit) condition condition := by
  refine Mirrors.bind Mirrors.advance fun _ => Mirrors.bind expression_mirrors ?_
  intro e
  exact Mirrors.bind (Mirrors.expect _ _) fun _ => Mirrors.pure rfl

theorem targetsFrom_mirrors (fuel : Nat) (targets : List String) :
    Mirrors unit id (targetsFrom fuel targets) (targetsFrom fuel targets) := by
  induction fuel generalizing targets with
  | zero => exact Mirrors.throw rfl
  | succ fuel ih =>
      rw [targetsFrom]
      refine Mirrors.bind Mirrors.peek ?_
      intro t
      refine Mirrors.ite Iff.rfl ?_ fun _ => Mirrors.pure rfl
      intro _
      refine Mirrors.bind Mirrors.advance fun _ => Mirrors.bind (Mirrors.expect _ _) ?_
      intro name
      exact ih _

theorem loopHeader_mirrors :
    Mirrors unit (fun r : List String × Expr => (r.1, r.2.inUnit unit)) loopHeader loopHeader := by
  refine Mirrors.bind Mirrors.advance fun _ => Mirrors.bind (Mirrors.expect _ _) ?_
  intro first
  refine Mirrors.bind Mirrors.get ?_
  intro s
  rw [State.length_unread_inUnit]
  refine Mirrors.bind (targetsFrom_mirrors _ [first.value]) ?_
  intro targets
  refine Mirrors.bind (Mirrors.expectKeyword _) fun _ => Mirrors.bind expression_mirrors ?_
  intro iterable
  exact Mirrors.bind (Mirrors.expect _ _) fun _ => Mirrors.pure rfl

theorem parameterDefault_mirrors :
    Mirrors unit (Option.map (Expr.inUnit unit)) parameterDefault parameterDefault := by
  refine Mirrors.bind Mirrors.peek ?_
  intro t
  refine Mirrors.ite Iff.rfl ?_ fun _ => Mirrors.pure rfl
  intro _
  refine Mirrors.bind Mirrors.advance fun _ => Mirrors.bind Mirrors.peek ?_
  intro next
  refine Mirrors.ite Iff.rfl ?_ fun _ => Mirrors.complain rfl
  intro _
  exact Mirrors.bind expression_mirrors fun _ => Mirrors.pure rfl

theorem parametersBehind_mirrors {name definition : String} {fuel : Nat}
    (ih : ∀ params, Mirrors unit (List.map (Parameter.inUnit unit))
      (parametersFrom name definition fuel params)
      (parametersFrom unit definition fuel (params.map (Parameter.inUnit unit))))
    (params : List (Parameter Expr)) :
    Mirrors unit (List.map (Parameter.inUnit unit)) (parametersBehind name definition fuel params)
      (parametersBehind unit definition fuel (params.map (Parameter.inUnit unit))) := by
  refine Mirrors.bind Mirrors.peek ?_
  intro sep
  rw [Token.kind_inUnit]
  split
  · exact Mirrors.bind Mirrors.advance fun _ => ih params
  · exact Mirrors.bind Mirrors.advance fun _ => Mirrors.pure rfl
  · exact Mirrors.complain rfl

theorem parametersFrom_mirrors (name definition : String) (fuel : Nat)
    (params : List (Parameter Expr)) :
    Mirrors unit (List.map (Parameter.inUnit unit)) (parametersFrom name definition fuel params)
      (parametersFrom unit definition fuel (params.map (Parameter.inUnit unit))) := by
  induction fuel generalizing params with
  | zero => exact Mirrors.throw rfl
  | succ fuel ih =>
      rw [parametersFrom_succ, parametersFrom_succ]
      refine Mirrors.bind Mirrors.peek ?_
      intro t
      rw [Token.kind_inUnit]
      split
      · exact Mirrors.bind Mirrors.advance fun _ => Mirrors.pure rfl
      · refine Mirrors.bind Mirrors.advance fun _ => Mirrors.bind parameterDefault_mirrors ?_
        intro default
        have hany : (params.map (Parameter.inUnit unit)).any (·.name = t.value) =
            params.any (·.name = t.value) := by
          rw [List.any_map]
          rfl
        refine Mirrors.ite (by rw [Token.value_inUnit, hany]) ?_ ?_
        · intro _
          refine Mirrors.bind (Mirrors.note _) fun _ => ?_
          exact Mirrors.bind (Mirrors.pure rfl) (parametersBehind_mirrors ih)
        · intro _
          refine Mirrors.bind (Mirrors.spanFrom _ _) ?_
          intro span
          refine Mirrors.bind (Mirrors.pure ?_) (parametersBehind_mirrors ih)
          rw [List.map_append]
          rfl
      · exact Mirrors.complain rfl

/-- What is read of the header of a definition. -/
def headerInUnit (unit : String) (r : Token × List (Parameter Expr)) :
    Token × List (Parameter Expr) :=
  (r.1.inUnit unit, r.2.map (Parameter.inUnit unit))

theorem definitionHeader_mirrors :
    Mirrors unit (headerInUnit unit) (definitionHeader setting)
      (definitionHeader { setting with unit }) := by
  refine Mirrors.bind Mirrors.advance fun _ => Mirrors.bind (Mirrors.expect _ _) ?_
  intro name
  refine Mirrors.bind (Mirrors.expect _ _) fun _ => Mirrors.bind Mirrors.get ?_
  intro s
  rw [State.length_unread_inUnit]
  refine Mirrors.bind (parametersFrom_mirrors setting.unit name.value _ []) ?_
  intro params
  exact Mirrors.bind (Mirrors.expect _ _) fun _ => Mirrors.pure rfl

theorem callHeader_mirrors : Mirrors unit (MacroCall.inUnit unit) callHeader callHeader := by
  refine Mirrors.bind Mirrors.advance fun _ => Mirrors.bind (Mirrors.expect _ _) ?_
  intro name
  refine Mirrors.bind (Mirrors.expect _ _) ?_
  intro opening
  refine Mirrors.bind arguments_mirrors ?_
  intro args
  refine Mirrors.bind (Mirrors.join _ _) ?_
  intro argsSpan
  refine Mirrors.bind (Mirrors.join _ _) ?_
  intro span
  exact Mirrors.bind (Mirrors.expect _ _) fun _ => Mirrors.pure rfl

theorem inclusion_mirrors (opening : Token) :
    Mirrors unit (Node.inUnit unit) (inclusion setting opening)
      (inclusion { setting with unit } (opening.inUnit unit)) := by
  refine Mirrors.bind Mirrors.advance fun _ => Mirrors.bind (Mirrors.expect _ _) ?_
  intro path
  refine Mirrors.bind (Mirrors.expect _ _) fun _ => Mirrors.bind (Mirrors.spanFrom _ _) ?_
  intro span
  exact Mirrors.pure rfl

theorem assignment_mirrors (opening : Token) :
    Mirrors unit (Node.inUnit unit) (assignment setting opening)
      (assignment { setting with unit } (opening.inUnit unit)) := by
  refine Mirrors.bind Mirrors.advance fun _ => Mirrors.bind (Mirrors.expect _ _) ?_
  intro name
  refine Mirrors.bind (Mirrors.expect _ _) fun _ => Mirrors.bind expression_mirrors ?_
  intro value
  refine Mirrors.bind (Mirrors.expect _ _) fun _ => Mirrors.bind (Mirrors.spanFrom _ _) ?_
  intro span
  exact Mirrors.pure rfl

theorem endTag_mirrors (word : String) : Mirrors unit id (endTag word) (endTag word) := by
  refine Mirrors.bind Mirrors.advance fun _ => Mirrors.bind (Mirrors.expectKeyword word) ?_
  intro _
  exact Mirrors.bind (Mirrors.expect _ _) fun _ => Mirrors.pure rfl

/-! ## Blocks -/

def BranchSoFar.inUnit (unit : String) (b : BranchSoFar) : BranchSoFar where
  arms := b.arms.map (Arm.inUnit unit)
  condition := b.condition.map (Expr.inUnit unit)
  armStart := b.armStart
  broken := b.broken
  seenElse := b.seenElse

theorem nextArm_mirrors (b : BranchSoFar) :
    Mirrors unit (BranchSoFar.inUnit unit) (nextArm b) (nextArm (b.inUnit unit)) := by
  refine Mirrors.bind Mirrors.peek ?_
  intro t
  refine Mirrors.ite Iff.rfl ?_ ?_
  · intro _
    exact Mirrors.bind (Mirrors.recover _) fun _ => Mirrors.pure rfl
  · intro _
    refine Mirrors.ite Iff.rfl ?_ ?_
    · intro _
      refine Mirrors.bind Mirrors.advance fun _ => ?_
      exact Mirrors.bind (recovering_mirrors (Mirrors.expect _ _)) fun _ => Mirrors.pure rfl
    · intro _
      refine Mirrors.bind (recovering_mirrors condition_mirrors) ?_
      intro header
      refine Mirrors.pure ?_
      cases header <;> rfl

theorem closingWord?_mirrors (closers : List String) (t : Token) :
    Mirrors unit id (closingWord? closers t) (closingWord? closers (t.inUnit unit)) := by
  refine Mirrors.ite Iff.rfl ?_ fun _ => Mirrors.pure rfl
  intro _
  exact Mirrors.bind Mirrors.peekSecond fun _ => Mirrors.pure rfl

/-- What is read of a block, with the word or the fact that ends it. -/
def nodesWithEnd {ω : Type} (unit : String) (r : List Node × ω) : List Node × ω :=
  (r.1.map (Node.inUnit unit), r.2)

/-- What each function of the nodes mirrors. -/
structure TemplatesMirror (unit : String) (fuel : Nat) : Prop where
  nodesFrom : ∀ closers nodes, Mirrors unit (nodesWithEnd unit)
    (nodesFrom setting closers fuel nodes)
    (nodesFrom { setting with unit } closers fuel (nodes.map (Node.inUnit unit)))
  tag : Mirrors unit (Option.map (Node.inUnit unit)) (tag setting fuel)
    (tag { setting with unit } fuel)
  statement : ∀ opening, Mirrors unit (Option.map (Node.inUnit unit))
    (statement setting opening fuel) (statement { setting with unit } (opening.inUnit unit) fuel)
  body : ∀ opening construct closers, Mirrors unit (nodesWithEnd unit)
    (body setting opening construct closers fuel)
    (body { setting with unit } (opening.inUnit unit) construct closers fuel)
  branch : ∀ opening, Mirrors unit (Option.map (Node.inUnit unit)) (branch setting opening fuel)
    (branch { setting with unit } (opening.inUnit unit) fuel)
  armsFrom : ∀ opening b, Mirrors unit (Option.map (Node.inUnit unit))
    (armsFrom setting opening fuel b)
    (armsFrom { setting with unit } (opening.inUnit unit) fuel (b.inUnit unit))
  loop : ∀ opening, Mirrors unit (Option.map (Node.inUnit unit)) (loop setting opening fuel)
    (loop { setting with unit } (opening.inUnit unit) fuel)
  definition : ∀ opening, Mirrors unit (Option.map (Node.inUnit unit))
    (definition setting opening fuel)
    (definition { setting with unit } (opening.inUnit unit) fuel)
  callBlock : ∀ opening, Mirrors unit (Option.map (Node.inUnit unit))
    (callBlock setting opening fuel) (callBlock { setting with unit } (opening.inUnit unit) fuel)

theorem templatesMirror_zero (unit : String) : TemplatesMirror setting unit 0 where
  nodesFrom _ _ := Mirrors.throw rfl
  tag := Mirrors.throw rfl
  statement _ := Mirrors.throw rfl
  body _ _ _ := Mirrors.throw rfl
  branch _ := Mirrors.throw rfl
  armsFrom _ _ := Mirrors.throw rfl
  loop _ := Mirrors.throw rfl
  definition _ := Mirrors.throw rfl
  callBlock _ := Mirrors.throw rfl

variable {setting} {fuel : Nat} (ih : TemplatesMirror setting unit fuel)

include ih

theorem nodesFrom_mirrors (closers : List String) (nodes : List Node) :
    Mirrors unit (nodesWithEnd unit) (nodesFrom setting closers (fuel + 1) nodes)
      (nodesFrom { setting with unit } closers (fuel + 1) (nodes.map (Node.inUnit unit))) := by
  have hnodes : ∀ o : Option Node, (o.map (Node.inUnit unit)).toList ++
      nodes.map (Node.inUnit unit) = (o.toList ++ nodes).map (Node.inUnit unit) := by
    intro o
    cases o <;> rfl
  rw [nodesFrom, nodesFrom]
  refine Mirrors.bind Mirrors.peek ?_
  intro t
  rw [Token.kind_inUnit]
  split
  · refine Mirrors.pure ?_
    rw [← List.map_reverse]
    rfl
  · refine Mirrors.bind (text_mirrors setting) ?_
    intro node
    rw [hnodes]
    exact ih.nodesFrom _ _
  · exact Mirrors.bind comment_mirrors fun _ => ih.nodesFrom _ _
  · refine Mirrors.bind (closingWord?_mirrors closers t) ?_
    intro o
    cases o with
    | some word =>
        refine Mirrors.pure ?_
        rw [← List.map_reverse]
        rfl
    | none =>
        refine Mirrors.bind (recovering_mirrors ih.tag) ?_
        intro node
        have hjoin : (node.map (Option.map (Node.inUnit unit))).join =
            node.join.map (Node.inUnit unit) := by
          cases node <;> rfl
        rw [hjoin, hnodes]
        exact ih.nodesFrom _ _

theorem tag_mirrors : Mirrors unit (Option.map (Node.inUnit unit)) (tag setting (fuel + 1))
    (tag { setting with unit } (fuel + 1)) := by
  rw [tag, tag]
  refine Mirrors.bind Mirrors.peek ?_
  intro t
  rw [Token.kind_inUnit]
  split
  · exact Mirrors.map (output_mirrors setting) fun _ => rfl
  · exact Mirrors.bind Mirrors.advance ih.statement
  · exact Mirrors.bind Mirrors.advance fun _ => Mirrors.complain rfl

theorem statement_mirrors (opening : Token) :
    Mirrors unit (Option.map (Node.inUnit unit)) (statement setting opening (fuel + 1))
      (statement { setting with unit } (opening.inUnit unit) (fuel + 1)) := by
  rw [statement, statement]
  refine Mirrors.bind Mirrors.peek ?_
  intro t
  rw [Token.kind_inUnit, Token.value_inUnit]
  split
  · split
    · exact ih.branch opening
    · exact ih.loop opening
    · exact ih.definition opening
    · exact ih.callBlock opening
    · exact Mirrors.map (inclusion_mirrors setting opening) fun _ => rfl
    · exact Mirrors.map (assignment_mirrors setting opening) fun _ => rfl
    · exact Mirrors.map (assignment_mirrors setting opening) fun _ => rfl
    · exact Mirrors.ite Iff.rfl (fun _ => Mirrors.complain rfl) fun _ => Mirrors.complain rfl
  · exact Mirrors.complain rfl
  · exact Mirrors.complain rfl

theorem body_mirrors (opening : Token) (construct : String) (closers : List String) :
    Mirrors unit (nodesWithEnd unit) (body setting opening construct closers (fuel + 1))
      (body { setting with unit } (opening.inUnit unit) construct closers (fuel + 1)) := by
  rw [body, body]
  refine Mirrors.bind (ih.nodesFrom closers []) ?_
  intro r
  obtain ⟨nodes, word⟩ := r
  cases word with
  | some word => exact Mirrors.pure rfl
  | none => exact Mirrors.complain rfl

theorem branch_mirrors (opening : Token) :
    Mirrors unit (Option.map (Node.inUnit unit)) (branch setting opening (fuel + 1))
      (branch { setting with unit } (opening.inUnit unit) (fuel + 1)) := by
  rw [branch, branch]
  refine Mirrors.bind (recovering_mirrors condition_mirrors) ?_
  intro header
  have hstart : BranchSoFar.inUnit unit ⟨[], header, opening.span.start, header.isNone, false⟩ =
      ⟨[], header.map (Expr.inUnit unit), (opening.inUnit unit).span.start,
        (header.map (Expr.inUnit unit)).isNone, false⟩ := by
    cases header <;> rfl
  rw [← hstart]
  exact ih.armsFrom opening _

theorem armsFrom_mirrors (opening : Token) (b : BranchSoFar) :
    Mirrors unit (Option.map (Node.inUnit unit)) (armsFrom setting opening (fuel + 1) b)
      (armsFrom { setting with unit } (opening.inUnit unit) (fuel + 1) (b.inUnit unit)) := by
  rw [armsFrom, armsFrom]
  refine Mirrors.bind (ih.body opening _ _) ?_
  intro r
  obtain ⟨nodes, word⟩ := r
  refine Mirrors.bind (Mirrors.spanFrom _ _) ?_
  intro armSpan
  have harms : (b.inUnit unit).arms ++ [⟨(b.inUnit unit).condition,
      nodes.map (Node.inUnit unit), armSpan.inUnit unit⟩] =
      (b.arms ++ [(⟨b.condition, nodes, armSpan⟩ : Arm Node)]).map (Arm.inUnit unit) := by
    rw [List.map_append]
    rfl
  refine Mirrors.ite Iff.rfl ?_ ?_
  · intro _
    refine Mirrors.bind (endTag_mirrors _) fun _ => Mirrors.ite Iff.rfl ?_ ?_
    · intro _
      exact Mirrors.pure rfl
    · intro _
      refine Mirrors.bind (Mirrors.spanFrom _ _) ?_
      intro span
      refine Mirrors.pure ?_
      rw [Option.map_some, Node.inUnit, Template.armsInUnit_eq_map, ← harms]
  · intro _
    refine Mirrors.bind Mirrors.advance ?_
    intro next
    refine Mirrors.bind ?_ fun b' => ih.armsFrom opening b'
    have h := @nextArm_mirrors unit
      { b with arms := b.arms ++ [⟨b.condition, nodes, armSpan⟩], armStart := next.span.start }
    rw [BranchSoFar.inUnit, ← harms] at h
    exact h

omit ih in
theorem loopEnd_mirrors (opening : Token) (header : Option (List String × Expr))
    (nodes otherwise : List Node) :
    Mirrors unit (Option.map (Node.inUnit unit)) (loopEnd setting opening header nodes otherwise)
      (loopEnd { setting with unit } (opening.inUnit unit)
        (header.map fun r => (r.1, r.2.inUnit unit)) (nodes.map (Node.inUnit unit))
        (otherwise.map (Node.inUnit unit))) := by
  refine Mirrors.bind (endTag_mirrors _) fun _ => ?_
  cases header with
  | none => exact Mirrors.pure rfl
  | some header =>
      refine Mirrors.bind (Mirrors.spanFrom _ _) ?_
      intro span
      refine Mirrors.pure ?_
      rw [Option.map_some, Node.inUnit, Template.nodesInUnit_eq_map, Template.nodesInUnit_eq_map]

theorem loop_mirrors (opening : Token) :
    Mirrors unit (Option.map (Node.inUnit unit)) (loop setting opening (fuel + 1))
      (loop { setting with unit } (opening.inUnit unit) (fuel + 1)) := by
  rw [loop_succ, loop_succ]
  refine Mirrors.bind (recovering_mirrors loopHeader_mirrors) ?_
  intro header
  refine Mirrors.bind (ih.body opening _ _) ?_
  intro r
  obtain ⟨nodes, word⟩ := r
  refine Mirrors.ite Iff.rfl ?_ ?_
  · intro _
    refine Mirrors.bind (endTag_mirrors _) fun _ => Mirrors.bind (ih.body opening _ _) ?_
    intro r
    exact Mirrors.bind (Mirrors.pure rfl) (loopEnd_mirrors opening header nodes)
  · intro _
    exact Mirrors.bind (Mirrors.pure rfl) (loopEnd_mirrors opening header nodes)

theorem definition_mirrors (opening : Token) :
    Mirrors unit (Option.map (Node.inUnit unit)) (definition setting opening (fuel + 1))
      (definition { setting with unit } (opening.inUnit unit) (fuel + 1)) := by
  rw [definition, definition]
  refine Mirrors.bind (recovering_mirrors (definitionHeader_mirrors setting)) ?_
  intro header
  refine Mirrors.bind (ih.body opening _ _) ?_
  intro r
  refine Mirrors.bind (endTag_mirrors _) fun _ => ?_
  cases header with
  | none => exact Mirrors.pure rfl
  | some header =>
      refine Mirrors.bind (Mirrors.spanFrom _ _) ?_
      intro span
      refine Mirrors.pure ?_
      rw [Option.map_some, Node.inUnit, Template.nodesInUnit_eq_map]
      rfl

theorem callBlock_mirrors (opening : Token) :
    Mirrors unit (Option.map (Node.inUnit unit)) (callBlock setting opening (fuel + 1))
      (callBlock { setting with unit } (opening.inUnit unit) (fuel + 1)) := by
  rw [callBlock, callBlock]
  refine Mirrors.bind (recovering_mirrors callHeader_mirrors) ?_
  intro header
  refine Mirrors.bind (ih.body opening _ _) ?_
  intro r
  refine Mirrors.bind (endTag_mirrors _) fun _ => ?_
  cases header with
  | none => exact Mirrors.pure rfl
  | some call =>
      refine Mirrors.bind (Mirrors.spanFrom _ _) ?_
      intro span
      refine Mirrors.pure ?_
      rw [Option.map_some, Node.inUnit, Template.nodesInUnit_eq_map]

end

theorem templatesMirror (setting : Setting) (unit : String) :
    ∀ fuel, TemplatesMirror setting unit fuel
  | 0 => templatesMirror_zero setting unit
  | fuel + 1 =>
      have ih := templatesMirror setting unit fuel
      { nodesFrom := nodesFrom_mirrors ih
        tag := tag_mirrors ih
        statement := statement_mirrors ih
        body := body_mirrors ih
        branch := branch_mirrors ih
        armsFrom := armsFrom_mirrors ih
        loop := loop_mirrors ih
        definition := definition_mirrors ih
        callBlock := callBlock_mirrors ih }

/-! ## Whole templates -/

theorem templateBody_mirrors (setting : Setting) :
    Mirrors unit (List.map (Node.inUnit unit)) (templateBody setting)
      (templateBody { setting with unit }) := by
  intro s
  have hnodes := (templatesMirror setting unit (templateFuel s.unread.length)).nodesFrom [] [] s
  rw [List.map_nil] at hnodes
  unfold templateBody
  rw [State.length_unread_inUnit, hnodes]
  cases nodesFrom setting [] (templateFuel s.unread.length) [] s with
  | ok r s' => rfl
  | error stop s' =>
      cases stop with
      | lexical fault => simp [Renamed, Stop.inUnit, State.inUnit, Located.inUnit]
      | _ => rfl

theorem template_mirrors (setting : Setting) :
    Mirrors unit (Template.inUnit unit) (template setting) (template { setting with unit }) := by
  refine Mirrors.bind (templateBody_mirrors setting) ?_
  intro nodes
  refine Mirrors.bind (Mirrors.spanFrom _ _) ?_
  intro span
  exact Mirrors.pure rfl

end Parser

/-- A source that is read under another name gives the same template and the same complaints, and
stops for the same reason. -/
theorem parse_inUnit (setting : Parser.Setting) (unit : String) (delimiters : Delimiters)
    (source : String) :
    parse { setting with unit } delimiters source =
      ((parse setting delimiters source).map (Parsed.inUnit unit)).mapError
        (Parser.Stop.inUnit unit) := by
  unfold parse
  rw [tokenize_inUnit source unit setting.unit delimiters]
  dsimp only
  generalize tokenize source setting.unit delimiters = r
  obtain ⟨tokens, fault⟩ := r
  have h := @Parser.template_mirrors unit setting ⟨tokens, fault, [], none, none⟩
  unfold parseTokens
  rw [show (⟨tokens, fault, [], none, none⟩ : Parser.State).inUnit unit =
    ⟨tokens.map (Token.inUnit unit), fault.map (Located.inUnit unit), [], none, none⟩ from rfl] at h
  rw [h]
  cases Parser.template setting ⟨tokens, fault, [], none, none⟩ with
  | ok t s => rfl
  | error stop s => rfl

end TemplateCompiler
