import TemplateCompiler.Proofs.Respanned
import TemplateCompiler.Proofs.RenamedTemplates

/-!
# What is found in a renamed template

A template under another name is the same with other spans (`inUnit_eq_respan`), so it has the same
include tags, and its calls bind or are refused as before. Nothing that a compiler makes of a source
depends on what the source is called, except that the name stands in spans.
-/

namespace TemplateCompiler

open Template (Expr Node walkAll)

variable {unit : String}

/-! ## Another name is another span -/

namespace Template

theorem Expr.inUnit_eq_respan (e : Expr) : e.inUnit unit = e.respan (Span.inUnit unit) := by
  induction e using Expr.parts_induction with
  | literal value s => rw [inUnit, respan]
  | var name s => rw [inUnit, respan]
  | binary op l r s ihl ihr => rw [inUnit, respan, ihl, ihr]
  | unary op e s ih => rw [inUnit, respan, ih]
  | filter name e args s ihe iha =>
      rw [inUnit, respan, ihe, exprsInUnit_eq_map, List.map_congr_left iha]
  | index e p s ihe ihp => rw [inUnit, respan, ihe, ihp]
  | member e name s ih => rw [inUnit, respan, ih]
  | call f args named as s ihf iha ihn =>
      have hnamed : named.map (NamedArgument.inUnit unit) =
          named.map (NamedArgument.respan (Span.inUnit unit)) :=
        List.map_congr_left fun a ha => by rw [NamedArgument.inUnit, ihn a ha]; rfl
      rw [inUnit, respan, ihf, exprsInUnit_eq_map, List.map_congr_left iha, namedInUnit_eq_map,
        hnamed]
      rfl

theorem Node.inUnit_eq_respan (n : Node) : n.inUnit unit = n.respan (Span.inUnit unit) := by
  have hexpr : Expr.inUnit unit = Expr.respan (Span.inUnit unit) := funext Expr.inUnit_eq_respan
  have hparam : Parameter.inUnit unit = Parameter.respan (Span.inUnit unit) := by
    funext p
    rw [Parameter.inUnit, hexpr]
    rfl
  induction n using Node.parts_induction with
  | text value s => rw [inUnit, respan]
  | output e s => rw [inUnit, respan, hexpr]
  | branch arms s ih =>
      have harms : arms.map (Arm.inUnit unit) = arms.map (Arm.respan (Span.inUnit unit)) :=
        List.map_congr_left fun a ha => by
          rw [Arm.inUnit, hexpr, List.map_congr_left (ih a ha)]
          rfl
      rw [inUnit, respan_branch, armsInUnit_eq_map, harms]
  | loop targets e body otherwise s ihb iho =>
      rw [inUnit, respan, hexpr, nodesInUnit_eq_map, nodesInUnit_eq_map, List.map_congr_left ihb,
        List.map_congr_left iho]
  | definition d ih =>
      rw [inUnit, respan_definition, hparam, nodesInUnit_eq_map, List.map_congr_left ih]
      rfl
  | callBlock call body s ih =>
      have hcall : call.inUnit unit = call.respan (Span.inUnit unit) := by
        have hnamed : NamedArgument.inUnit unit = NamedArgument.respan (Span.inUnit unit) := by
          funext a
          rw [NamedArgument.inUnit, hexpr]
          rfl
        rw [MacroCall.inUnit, hexpr, hnamed]
        rfl
      rw [inUnit, respan, hcall, nodesInUnit_eq_map, List.map_congr_left ih]
  | inclusion path s => rw [inUnit, respan]
  | assignment name e s => rw [inUnit, respan, hexpr]

end Template

theorem Template.inUnit_eq_respan (t : Template) : t.inUnit unit = t.respan (Span.inUnit unit) := by
  rw [Template.inUnit, funext Node.inUnit_eq_respan]
  rfl

/-! ## What is found in renamed templates -/

theorem Compiler.includeTags_inUnit (t : Template) :
    includeTags (t.inUnit unit) = (includeTags t).map fun tag => (tag.1, tag.2.inUnit unit) := by
  rw [Template.inUnit_eq_respan]
  exact includeTags_respan t

theorem bindAll_problems_inUnit (t : Template) :
    (bindAll (t.inUnit unit) (t.inUnit unit).macroTable.1).2 =
      (bindAll t t.macroTable.1).2.map (Located.inUnit unit) := by
  rw [Template.inUnit_eq_respan]
  exact bindAll_problems_respan t

/-! ## Diagnostics -/

def Diagnostic.inUnit (unit : String) (d : Diagnostic) : Diagnostic :=
  { d with span := d.span.inUnit unit, secondary := d.secondary.map (Span.inUnit unit) }

theorem Diagnostic.inUnit_through (d : Diagnostic) (site : Span) :
    (d.through site).inUnit unit = (d.inUnit unit).through (site.inUnit unit) := by
  simp [inUnit, through]

theorem Parsed.diagnostics_inUnit (p : Parsed) (delimiters : Delimiters) :
    (p.inUnit unit).diagnostics delimiters =
      (p.diagnostics delimiters).map (Diagnostic.inUnit unit) := by
  rw [diagnostics, diagnostics, inUnit, List.map_map, List.map_map]
  rfl

end TemplateCompiler
