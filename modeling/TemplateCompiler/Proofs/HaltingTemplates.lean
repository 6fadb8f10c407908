import TemplateCompiler.Proofs.HaltingExpressions

/-!
# Templates halt

Text, comments and tags are read up to the end token at the latest, also where they stand in no
order that a source could have. A list of nodes and the arms of a branch are read in passes, and so
are loop variables and parameters. A tag that is left unread for the block around it is the one
thing that a list of nodes does not take: that it is there is what lets the next arm of a branch go
on.
-/

namespace TemplateCompiler.Parser

open Template (Expr Node)

/-! ## Loops as passes -/

/-- A comma and a further loop variable. -/
def targetPass (targets : List String) : Parser (Pass (List String) (List String)) := do
  let t ← peek
  if t.kind = .comma then
    let _ ← advance
    let name ← expectIdentifier
    return .again (targets ++ [name.value])
  else return .done targets

/-- What stands behind a parameter. -/
def parameterEnd (params : List (Parameter Expr)) :
    Parser (Pass (List (Parameter Expr)) (List (Parameter Expr))) := do
  let sep ← peek
  match sep.kind with
  | .comma =>
    let _ ← advance
    return .again params
  | .rightParen =>
    let _ ← advance
    return .done params
  | _ => complain .unclosedParameters sep.span

/-- One parameter and what stands behind it. -/
def parameterPass (unit definition : String) (params : List (Parameter Expr)) :
    Parser (Pass (List (Parameter Expr)) (List (Parameter Expr))) := do
  let t ← peek
  match t.kind with
  | .rightParen =>
    let _ ← advance
    return .done params
  | .identifier =>
    let _ ← advance
    let default ← parameterDefault
    let params ←
      if params.any (·.name = t.value) then
        note ⟨.duplicateParameter t.value definition, t.span⟩
        pure params
      else pure (params ++ [⟨t.value, default, ← spanFrom unit t.span.start⟩])
    parameterEnd params
  | _ => complain .unclosedParameters t.span

/-- One text, comment or tag, or the end of the nodes. -/
def nodePass (setting : Setting) (closers : List String) (fuel : Nat) (nodes : List Node) :
    Parser (Pass (List Node) (List Node × Option String)) := do
  let t ← peek
  match t.kind with
  | .eof => return .done (nodes.reverse, none)
  | .text =>
    let node ← text setting
    return .again (node.toList ++ nodes)
  | .commentStart =>
    comment
    return .again nodes
  | _ =>
    match ← closingWord? closers t with
    | some word => return .done (nodes.reverse, some word)
    | none =>
      let node ← recovering (tag setting fuel)
      return .again (node.join.toList ++ nodes)

/-- The body of one arm, and the header of the next or the end tag. -/
def armPass (setting : Setting) (opening : Token) (fuel : Nat) (b : BranchSoFar) :
    Parser (Pass BranchSoFar (Option Node)) := do
  let (nodes, word) ← body setting opening "if" ["elif", "else", "endif"] fuel
  let arm : Arm Node := ⟨b.condition, nodes, ← spanFrom setting.unit b.armStart⟩
  let arms := b.arms ++ [arm]
  if word = "endif" then
    endTag "endif"
    if b.broken then return .done none
    else return .done (some (.branch arms (← spanFrom setting.unit opening.span.start)))
  else
    let next ← advance
    let b ← nextArm { b with arms := arms, armStart := next.span.start }
    return .again b

theorem targetsFrom_succ (fuel : Nat) (targets : List String) :
    targetsFrom (fuel + 1) targets = targetPass targets >>= Pass.andThen (targetsFrom fuel) := by
  rw [targetsFrom, targetPass, bind_assoc]
  refine bind_congr fun t => ?_
  split
  · simp only [bind_assoc, pure_bind]
    rfl
  · rfl

theorem parameterEnd_bind (unit definition : String) (fuel : Nat)
    (params : List (Parameter Expr)) :
    parameterEnd params >>= Pass.andThen (parametersFrom unit definition fuel) =
      parametersBehind unit definition fuel params := by
  rw [parameterEnd, parametersBehind, bind_assoc]
  refine bind_congr fun sep => ?_
  generalize sep.kind = kind
  cases kind with
  | comma | rightParen =>
      simp only [bind_assoc, pure_bind]
      rfl
  | _ => rfl

theorem parametersFrom_eq_pass (unit definition : String) (fuel : Nat)
    (params : List (Parameter Expr)) : parametersFrom unit definition (fuel + 1) params =
      parameterPass unit definition params >>=
        Pass.andThen (parametersFrom unit definition fuel) := by
  rw [parametersFrom_succ, parameterPass, bind_assoc]
  refine bind_congr fun t => ?_
  generalize t.kind = kind
  cases kind with
  | rightParen =>
      simp only [bind_assoc, pure_bind]
      rfl
  | identifier =>
      simp only [bind_assoc]
      refine bind_congr fun _ => bind_congr fun default => ?_
      split
      · simp only [bind_assoc, parameterEnd_bind]
      · simp only [bind_assoc, parameterEnd_bind]
  | _ => rfl

theorem nodesFrom_succ (setting : Setting) (closers : List String) (fuel : Nat)
    (nodes : List Node) : nodesFrom setting closers (fuel + 1) nodes =
      nodePass setting closers fuel nodes >>= Pass.andThen (nodesFrom setting closers fuel) := by
  rw [nodesFrom, nodePass, bind_assoc]
  refine bind_congr fun t => ?_
  have htag : (do
      match ← closingWord? closers t with
      | some word => return (nodes.reverse, some word)
      | none =>
        let node ← recovering (tag setting fuel)
        nodesFrom setting closers fuel (node.join.toList ++ nodes)) = (do
      match ← closingWord? closers t with
      | some word => return Pass.done (nodes.reverse, some word)
      | none =>
        let node ← recovering (tag setting fuel)
        return .again (node.join.toList ++ nodes)) >>=
          Pass.andThen (nodesFrom setting closers fuel) := by
    rw [bind_assoc]
    refine bind_congr fun word => ?_
    cases word with
    | some word => rfl
    | none =>
        simp only [bind_assoc, pure_bind]
        rfl
  generalize t.kind = kind
  cases kind with
  | eof => rfl
  | text | commentStart =>
      simp only [bind_assoc, pure_bind]
      rfl
  | _ => exact htag

theorem armsFrom_succ (setting : Setting) (opening : Token) (fuel : Nat) (b : BranchSoFar) :
    armsFrom setting opening (fuel + 1) b =
      armPass setting opening fuel b >>= Pass.andThen (armsFrom setting opening fuel) := by
  rw [armsFrom, armPass, bind_assoc]
  refine bind_congr fun r => ?_
  obtain ⟨nodes, word⟩ := r
  simp only [bind_assoc]
  refine bind_congr fun armSpan => ?_
  split
  · rw [bind_assoc]
    refine bind_congr fun _ => ?_
    split
    · rfl
    · simp only [bind_assoc, pure_bind]
      rfl
  · simp only [bind_assoc, pure_bind]
    rfl

/-! ## Text, comments and headers -/

variable {x : Sides} {v : View}

theorem text_halts (setting : Setting) : Halts x v (text setting) (text setting) fun _ v' =>
    (v.next x).kind ≠ .eof → v'.left < v.left :=
  Halts.advance (Halts.peek (Halts.get (Halts.unmark (Halts.pure View.past_left_lt))))

theorem comment_halts : Halts x v comment comment fun _ v' => v'.left < v.left := by
  have hle : (v.past x).left ≤ v.left := View.past_left_le
  refine Halts.advance (Halts.expect nofun fun _ v₂ hlt₂ => Halts.expect nofun fun _ v₃ hlt₃ => ?_)
  exact Halts.pure (by omega)

/-- The end of a tag, and what is made of it there. -/
theorem blockEnd_halts {α : Type} {a : α} {w : View} (h : w.left ≤ v.left) :
    Halts x w (do let _ ← expectBlockEnd; return a) (do let _ ← expectBlockEnd; return a)
      fun _ v' => v'.left < v.left :=
  Halts.expect nofun fun _ _ hlt => Halts.pure (Nat.lt_of_lt_of_le hlt h)

theorem output_halts (setting : Setting) :
    Halts x v (output setting) (output setting) fun _ v' => v'.left < v.left := by
  have hle : (v.past x).left ≤ v.left := View.past_left_le
  refine Halts.advance (Halts.bind expression_halts fun e v₂ _ hlt₂ => ?_)
  exact Halts.expect nofun fun _ v₃ hlt₃ => Halts.spanFrom fun span => Halts.pure (by omega)

theorem condition_halts : Halts x v condition condition fun _ v' => v'.left < v.left := by
  have hle : (v.past x).left ≤ v.left := View.past_left_le
  exact Halts.advance (Halts.bind expression_halts fun e v₂ _ hlt₂ => blockEnd_halts (by omega))

theorem targetPass_halts (targets : List String) :
    Halts x v (targetPass targets) (targetPass targets)
      (Pass.Progresses v fun _ _ => True) := by
  have hle : (v.past x).left ≤ v.left := View.past_left_le
  refine Halts.peek ?_
  split
  · refine Halts.advance (Halts.expect nofun fun _ v₂ hlt₂ => Halts.pure ?_)
    exact Nat.lt_of_lt_of_le hlt₂ hle
  · exact Halts.pure trivial

theorem targets_loop : Loops targetsFrom (fun _ => targetPass) id where
  unrolls := targetsFrom_succ
  progresses _ _ _ _ targets _ := targetPass_halts targets

theorem loopHeader_halts : Halts x v loopHeader loopHeader fun _ v' => v'.left < v.left := by
  have hle : (v.past x).left ≤ v.left := View.past_left_le
  refine Halts.advance (Halts.expect nofun fun first v₂ hlt₂ => Halts.get ?_)
  refine Halts.bind (Halts.loop targets_loop id _ _ _ ?_) fun targets v₃ hle₃ _ => ?_
  · simp only [View.length_unread, id]
    omega
  · refine Halts.expectKeyword fun _ v₄ hlt₄ => Halts.bind expression_halts fun e v₅ _ hlt₅ => ?_
    exact blockEnd_halts (by omega)

theorem parameterDefault_halts :
    Halts x v parameterDefault parameterDefault fun _ _ => True := by
  refine Halts.peek ?_
  split
  · refine Halts.advance (Halts.peek ?_)
    split
    · exact Halts.bind expression_halts fun _ _ _ _ => Halts.pure trivial
    · exact Halts.complain
  · exact Halts.pure trivial

theorem parameterEnd_halts {w : View} (params : List (Parameter Expr)) (h : w.left < v.left) :
    Halts x w (parameterEnd params) (parameterEnd params)
      (Pass.Progresses v fun _ _ => True) := by
  have hle : (w.past x).left ≤ w.left := View.past_left_le
  refine Halts.peek ?_
  split
  · exact Halts.advance (Halts.pure (Nat.lt_of_le_of_lt hle h))
  · exact Halts.advance (Halts.pure trivial)
  · exact Halts.complain

theorem parameterPass_halts (unit definition : String) (params : List (Parameter Expr)) :
    Halts x v (parameterPass unit definition params) (parameterPass unit definition params)
      (Pass.Progresses v fun _ _ => True) := by
  refine Halts.peek ?_
  split
  · exact Halts.advance (Halts.pure trivial)
  · next ht =>
      have hlt : (v.past x).left < v.left := View.past_left_lt (by simp [ht])
      refine Halts.advance (Halts.bind parameterDefault_halts fun default v₂ hle₂ _ => ?_)
      split
      · exact Halts.note (parameterEnd_halts params (Nat.lt_of_le_of_lt hle₂ hlt))
      · exact Halts.spanFrom fun span => parameterEnd_halts _ (Nat.lt_of_le_of_lt hle₂ hlt)
  · exact Halts.complain

theorem parameters_loop (unit definition : String) :
    Loops (parametersFrom unit definition) (fun _ => parameterPass unit definition) id where
  unrolls := parametersFrom_eq_pass unit definition
  progresses _ _ _ _ params _ := parameterPass_halts unit definition params

theorem definitionHeader_halts (setting : Setting) :
    Halts x v (definitionHeader setting) (definitionHeader setting)
      fun _ v' => v'.left < v.left := by
  have hle : (v.past x).left ≤ v.left := View.past_left_le
  refine Halts.advance (Halts.expect nofun fun name v₂ hlt₂ => ?_)
  refine Halts.expect nofun fun _ v₃ hlt₃ => Halts.get ?_
  refine Halts.bind (Halts.loop (parameters_loop _ _) id _ _ _ ?_) fun params v₄ hle₄ _ => ?_
  · simp only [View.length_unread, id]
    omega
  · exact blockEnd_halts (by omega)

theorem callHeader_halts : Halts x v callHeader callHeader fun _ v' => v'.left < v.left := by
  have hle : (v.past x).left ≤ v.left := View.past_left_le
  refine Halts.advance (Halts.expect nofun fun name v₂ hlt₂ => ?_)
  refine Halts.expect nofun fun opening v₃ hlt₃ => ?_
  refine Halts.bind arguments_halts fun args v₄ hle₄ _ => ?_
  exact Halts.join fun argsSpan => Halts.join fun span => blockEnd_halts (by omega)

theorem inclusion_halts (setting : Setting) (opening : Token) :
    Halts x v (inclusion setting opening) (inclusion setting opening)
      fun _ v' => v'.left < v.left := by
  have hle : (v.past x).left ≤ v.left := View.past_left_le
  refine Halts.advance (Halts.expect nofun fun path v₂ hlt₂ => ?_)
  exact Halts.expect nofun fun _ v₃ hlt₃ => Halts.spanFrom fun span => Halts.pure (by omega)

theorem assignment_halts (setting : Setting) (opening : Token) :
    Halts x v (assignment setting opening) (assignment setting opening)
      fun _ v' => v'.left < v.left := by
  have hle : (v.past x).left ≤ v.left := View.past_left_le
  refine Halts.advance (Halts.expect nofun fun name v₂ hlt₂ => ?_)
  refine Halts.expect nofun fun _ v₃ hlt₃ => Halts.bind expression_halts fun e v₄ _ hlt₄ => ?_
  exact Halts.expect nofun fun _ v₅ hlt₅ => Halts.spanFrom fun span => Halts.pure (by omega)

theorem endTag_halts (word : String) :
    Halts x v (endTag word) (endTag word) fun _ v' => v'.left < v.left := by
  have hle : (v.past x).left ≤ v.left := View.past_left_le
  exact Halts.advance (Halts.expectKeyword fun _ v₂ hlt₂ => blockEnd_halts (by omega))

theorem nextArm_halts (b : BranchSoFar) :
    Halts x v (nextArm b) (nextArm b) fun _ _ => True := by
  refine Halts.peek ?_
  split
  · exact Halts.bind Halts.recover fun _ _ _ _ => Halts.pure trivial
  · split
    · have hend : Halts x (v.past x) expectBlockEnd expectBlockEnd fun _ _ => True :=
        Halts.of_bind (Halts.expect nofun fun _ _ _ => Halts.pure trivial)
      exact Halts.advance (Halts.bind (Halts.recovering hend) fun _ _ _ _ => Halts.pure trivial)
    · exact Halts.bind (Halts.recovering condition_halts) fun _ _ _ _ => Halts.pure trivial

theorem closingWord?_halts (closers : List String) (t : Token) :
    Halts x v (closingWord? closers t) (closingWord? closers t) fun _ v' => v = v' := by
  unfold closingWord?
  split
  · exact Halts.peekSecond fun word => Halts.pure rfl
  · exact Halts.pure rfl

theorem loopEnd_halts (setting : Setting) (opening : Token)
    (header : Option (List String × Expr)) (nodes otherwise : List Node) :
    Halts x v (loopEnd setting opening header nodes otherwise)
      (loopEnd setting opening header nodes otherwise) fun _ _ => True := by
  refine Halts.bind (endTag_halts "endfor") fun _ _ _ _ => ?_
  split
  · exact Halts.pure trivial
  · exact Halts.spanFrom fun span => Halts.pure trivial

/-! ## One unit of fuel more -/

/-- With enough fuel for what is left, however much more of it there is. -/
structure TemplatesHalt (x : Sides) (setting : Setting) (fuel fuel' : Nat) : Prop where
  /-- At a tag that is left unread there are tokens left. -/
  nodesFrom : ∀ closers nodes v, 8 * v.left + 1 ≤ min fuel fuel' →
    Halts x v (nodesFrom setting closers fuel nodes) (nodesFrom setting closers fuel' nodes)
      fun r v' => r.2 ≠ none → 0 < v'.left
  tag : ∀ v, 8 * v.left ≤ min fuel fuel' → 0 < min fuel fuel' →
    Halts x v (tag setting fuel) (tag setting fuel') fun _ v' => v'.left < v.left
  statement : ∀ opening v, 8 * v.left + 5 ≤ min fuel fuel' →
    Halts x v (statement setting opening fuel) (statement setting opening fuel') fun _ _ => True
  body : ∀ opening construct closers v, 8 * v.left + 2 ≤ min fuel fuel' →
    Halts x v (body setting opening construct closers fuel)
      (body setting opening construct closers fuel') fun _ v' => 0 < v'.left
  branch : ∀ opening v, 8 * v.left + 4 ≤ min fuel fuel' →
    Halts x v (branch setting opening fuel) (branch setting opening fuel') fun _ _ => True
  armsFrom : ∀ opening b v, 8 * v.left + 3 ≤ min fuel fuel' →
    Halts x v (armsFrom setting opening fuel b) (armsFrom setting opening fuel' b) fun _ _ => True
  loop : ∀ opening v, 8 * v.left + 3 ≤ min fuel fuel' →
    Halts x v (loop setting opening fuel) (loop setting opening fuel') fun _ _ => True
  definition : ∀ opening v, 8 * v.left + 3 ≤ min fuel fuel' →
    Halts x v (definition setting opening fuel) (definition setting opening fuel')
      fun _ _ => True
  callBlock : ∀ opening v, 8 * v.left + 3 ≤ min fuel fuel' →
    Halts x v (callBlock setting opening fuel) (callBlock setting opening fuel') fun _ _ => True

theorem templatesHalt_of_eq_zero {setting : Setting} {fuel fuel' : Nat} (h : min fuel fuel' = 0) :
    TemplatesHalt x setting fuel fuel' where
  nodesFrom closers nodes v hfuel := by omega
  tag v hfuel hpos := by omega
  statement opening v hfuel := by omega
  body opening construct closers v hfuel := by omega
  branch opening v hfuel := by omega
  armsFrom opening b v hfuel := by omega
  loop opening v hfuel := by omega
  definition opening v hfuel := by omega
  callBlock opening v hfuel := by omega

section

variable {setting : Setting} {fuel fuel' : Nat} (ih : TemplatesHalt x setting fuel fuel')

include ih

theorem nodePass_halts (closers : List String) (nodes : List Node)
    (h : 8 * v.left ≤ min fuel fuel') :
    Halts x v (nodePass setting closers fuel nodes) (nodePass setting closers fuel' nodes)
      (Pass.Progresses v fun r v' => r.2 ≠ none → 0 < v'.left) := by
  refine Halts.peek ?_
  split
  · exact Halts.pure fun h => absurd rfl h
  · next ht =>
      exact Halts.bind (text_halts setting) fun node v' _ hlt => Halts.pure (hlt (by simp [ht]))
  · exact Halts.bind comment_halts fun _ v' _ hlt => Halts.pure hlt
  · next hend _ _ =>
      have hpos : 0 < v.left := Nat.zero_lt_of_lt (View.past_left_lt hend)
      refine Halts.bind (closingWord?_halts closers _) ?_
      rintro (_ | word) _ - rfl
      · refine Halts.bind (Halts.recovering (ih.tag v h (by omega))) fun node v' _ hnode => ?_
        refine Halts.pure ?_
        cases node with
        | none => exact hnode.elim (fun hzero => hzero ▸ hpos) id
        | some node => exact hnode
      · exact Halts.pure fun _ => hpos

theorem tag_halts (h : 8 * v.left ≤ min fuel fuel' + 1) :
    Halts x v (tag setting (fuel + 1)) (tag setting (fuel' + 1))
      fun _ v' => v'.left < v.left := by
  rw [tag, tag]
  refine Halts.peek ?_
  split
  · exact Halts.map (output_halts setting) fun _ _ _ hlt => hlt
  · next ht =>
      have hlt : (v.past x).left < v.left := View.past_left_lt (by simp [ht])
      refine Halts.advance ((ih.statement _ _ (by omega)).imp fun _ v' hle _ => ?_)
      exact Nat.lt_of_le_of_lt hle hlt
  · exact Halts.advance Halts.complain

theorem statement_halts (opening : Token) (h : 8 * v.left + 4 ≤ min fuel fuel') :
    Halts x v (statement setting opening (fuel + 1)) (statement setting opening (fuel' + 1))
      fun _ _ => True := by
  rw [statement, statement]
  refine Halts.peek ?_
  split
  · split
    · exact ih.branch opening v h
    · exact ih.loop opening v (by omega)
    · exact ih.definition opening v (by omega)
    · exact ih.callBlock opening v (by omega)
    · exact Halts.map (inclusion_halts setting opening) fun _ _ _ _ => trivial
    · exact Halts.map (assignment_halts setting opening) fun _ _ _ _ => trivial
    · exact Halts.map (assignment_halts setting opening) fun _ _ _ _ => trivial
    · split
      · exact Halts.complain
      · exact Halts.complain
  · exact Halts.complain
  · exact Halts.complain

theorem body_halts (opening : Token) (construct : String) (closers : List String)
    (h : 8 * v.left + 1 ≤ min fuel fuel') :
    Halts x v (body setting opening construct closers (fuel + 1))
      (body setting opening construct closers (fuel' + 1)) fun _ v' => 0 < v'.left := by
  rw [body, body]
  refine Halts.bind (ih.nodesFrom closers [] v h) ?_
  rintro ⟨nodes, _ | word⟩ v' - hword
  · exact Halts.complain
  · exact Halts.pure (hword nofun)

theorem branch_halts (opening : Token) (h : 8 * v.left + 3 ≤ min fuel fuel') :
    Halts x v (branch setting opening (fuel + 1)) (branch setting opening (fuel' + 1))
      fun _ _ => True := by
  rw [branch, branch]
  refine Halts.bind (Halts.recovering condition_halts) fun header v' hle _ => ?_
  exact ih.armsFrom opening _ v' (by omega)

theorem armPass_halts (opening : Token) (b : BranchSoFar)
    (h : 8 * v.left + 2 ≤ min fuel fuel') :
    Halts x v (armPass setting opening fuel b) (armPass setting opening fuel' b)
      (Pass.Progresses v fun _ _ => True) := by
  refine Halts.bind (ih.body opening "if" _ v h) ?_
  rintro ⟨nodes, word⟩ v₁ hle₁ hpos
  refine Halts.spanFrom fun armSpan => ?_
  split
  · refine Halts.bind (endTag_halts "endif") fun _ _ _ _ => ?_
    split
    · exact Halts.pure trivial
    · exact Halts.spanFrom fun span => Halts.pure trivial
  · have hlt : (v₁.past x).left < v₁.left := View.past_left_lt (View.next_kind hpos)
    refine Halts.advance (Halts.bind (nextArm_halts _) fun b v₂ hle₂ _ => Halts.pure ?_)
    show v₂.left < v.left
    omega

theorem loop_halts (opening : Token) (h : 8 * v.left + 2 ≤ min fuel fuel') :
    Halts x v (loop setting opening (fuel + 1)) (loop setting opening (fuel' + 1))
      fun _ _ => True := by
  rw [loop_succ, loop_succ]
  refine Halts.bind (Halts.recovering loopHeader_halts) fun header v₁ hle₁ _ => ?_
  refine Halts.bind (ih.body opening "for" _ v₁ (by omega)) ?_
  rintro ⟨nodes, word⟩ v₂ hle₂ -
  dsimp only
  split
  · refine Halts.bind (endTag_halts "else") fun _ v₃ hle₃ _ => ?_
    exact Halts.bind (ih.body opening "for" _ v₃ (by omega)) fun r _ _ _ =>
      loopEnd_halts setting opening header nodes r.1
  · exact loopEnd_halts setting opening header nodes []

theorem definition_halts (opening : Token) (h : 8 * v.left + 2 ≤ min fuel fuel') :
    Halts x v (definition setting opening (fuel + 1)) (definition setting opening (fuel' + 1))
      fun _ _ => True := by
  rw [definition, definition]
  refine Halts.bind (Halts.recovering (definitionHeader_halts setting)) fun header v₁ hle₁ _ => ?_
  refine Halts.bind (ih.body opening "macro" _ v₁ (by omega)) fun r v₂ _ _ => ?_
  refine Halts.bind (endTag_halts "endmacro") fun _ _ _ _ => ?_
  split
  · exact Halts.pure trivial
  · exact Halts.spanFrom fun span => Halts.pure trivial

theorem callBlock_halts (opening : Token) (h : 8 * v.left + 2 ≤ min fuel fuel') :
    Halts x v (callBlock setting opening (fuel + 1)) (callBlock setting opening (fuel' + 1))
      fun _ _ => True := by
  rw [callBlock, callBlock]
  refine Halts.bind (Halts.recovering callHeader_halts) fun header v₁ hle₁ _ => ?_
  refine Halts.bind (ih.body opening "call" _ v₁ (by omega)) fun r v₂ _ _ => ?_
  refine Halts.bind (endTag_halts "endcall") fun _ _ _ _ => ?_
  split
  · exact Halts.pure trivial
  · exact Halts.spanFrom fun span => Halts.pure trivial

end

/-! ## Every amount of fuel -/

theorem templatesHalt (x : Sides) (setting : Setting) (fuel fuel' : Nat) :
    TemplatesHalt x setting fuel fuel' := by
  induction fuel generalizing fuel' with
  | zero => exact templatesHalt_of_eq_zero (Nat.zero_min fuel')
  | succ fuel ih =>
      cases fuel' with
      | zero => exact templatesHalt_of_eq_zero (Nat.min_zero (fuel + 1))
      | succ fuel' =>
          have ih := ih fuel'
          exact {
            nodesFrom := fun closers nodes v h => by
              rw [nodesFrom_succ, nodesFrom_succ]
              exact Halts.andThen (nodePass_halts ih closers nodes (by omega)) fun nodes v' hlt =>
                ih.nodesFrom closers nodes v' (by omega)
            tag := fun v h _ => tag_halts ih (by omega)
            statement := fun opening v h => statement_halts ih opening (by omega)
            body := fun opening construct closers v h =>
              body_halts ih opening construct closers (by omega)
            branch := fun opening v h => branch_halts ih opening (by omega)
            armsFrom := fun opening b v h => by
              rw [armsFrom_succ, armsFrom_succ]
              exact Halts.andThen (armPass_halts ih opening b (by omega)) fun b v' hlt =>
                ih.armsFrom opening b v' (by omega)
            loop := fun opening v h => loop_halts ih opening (by omega)
            definition := fun opening v h => definition_halts ih opening (by omega)
            callBlock := fun opening v h => callBlock_halts ih opening (by omega) }

end TemplateCompiler.Parser
