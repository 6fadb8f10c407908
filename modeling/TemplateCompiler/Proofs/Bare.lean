import TemplateCompiler.Template.Basic

/-!
# Trees without their places

Every part of a template carries the range of source it was read from. `bare` puts one blank span in
place of all of them, so that two trees are equal up to their spans exactly if they are equal bare.
-/

namespace TemplateCompiler

/-- The span that stands for any span. -/
def Span.blank : Span :=
  ⟨.initial, .initial, ""⟩

namespace Template

/-! ## Expressions -/

mutual

def Expr.bare : Expr → Expr
  | .literal value _ => .literal value .blank
  | .var name _ => .var name .blank
  | .binary op left right _ => .binary op left.bare right.bare .blank
  | .unary op operand _ => .unary op operand.bare .blank
  | .filter name value args _ => .filter name value.bare (bareExprs args) .blank
  | .index value position _ => .index value.bare position.bare .blank
  | .attribute value name _ => .attribute value.bare name .blank
  | .call func args named _ _ => .call func.bare (bareExprs args) (bareNamed named) .blank .blank

def bareExprs : List Expr → List Expr
  | [] => []
  | e :: es => e.bare :: bareExprs es

def bareNamed : List (NamedArgument Expr) → List (NamedArgument Expr)
  | [] => []
  | a :: as => ⟨a.name, a.value.bare, .blank, .blank⟩ :: bareNamed as

end

@[simp]
theorem bareExprs_append (es fs : List Expr) :
    bareExprs (es ++ fs) = bareExprs es ++ bareExprs fs := by
  induction es with
  | nil => rfl
  | cons e es ih => simp [bareExprs, ih]

@[simp]
theorem bareNamed_append (as bs : List (NamedArgument Expr)) :
    bareNamed (as ++ bs) = bareNamed as ++ bareNamed bs := by
  induction as with
  | nil => rfl
  | cons a as ih => simp [bareNamed, ih]

/-! ## Nodes -/

end Template

def Parameter.bare (p : Parameter Template.Expr) : Parameter Template.Expr :=
  ⟨p.name, p.default.map Template.Expr.bare, .blank⟩

def MacroCall.bare (c : MacroCall) : MacroCall :=
  ⟨c.name, Template.bareExprs c.args, Template.bareNamed c.named, .blank, .blank⟩

namespace Template

mutual

def Node.bare : Node → Node
  | .text value _ => .text value .blank
  | .output e _ => .output e.bare .blank
  | .branch arms _ => .branch (bareArms arms) .blank
  | .loop targets iterable body otherwise _ =>
    .loop targets iterable.bare (bareNodes body) (bareNodes otherwise) .blank
  | .definition d =>
    .definition ⟨d.name, d.params.map Parameter.bare, bareNodes d.body, .blank, .blank⟩
  | .callBlock call body _ => .callBlock call.bare (bareNodes body) .blank
  | .inclusion path _ => .inclusion path .blank
  | .assignment name value _ => .assignment name value.bare .blank

def bareNodes : List Node → List Node
  | [] => []
  | n :: ns => n.bare :: bareNodes ns

def bareArms : List (Arm Node) → List (Arm Node)
  | [] => []
  | a :: as => ⟨a.condition.map Expr.bare, bareNodes a.body, .blank⟩ :: bareArms as

end

def bare (t : Template) : Template :=
  ⟨bareNodes t.body, .blank⟩

@[simp]
theorem bareArms_append (as bs : List (Arm Node)) :
    bareArms (as ++ bs) = bareArms as ++ bareArms bs := by
  induction as with
  | nil => rfl
  | cons a as ih => simp [bareArms, ih]

end Template

end TemplateCompiler
