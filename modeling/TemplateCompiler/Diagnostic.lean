import TemplateCompiler.Source

/-!
# Diagnostics

A `Diagnostic` is a compile problem in words, with the place it is about and the places through
which it was reached: the include tags that lead from the compiled unit to the faulty one, innermost
first, and behind them the host declaration that an inline template came from.
-/

namespace TemplateCompiler

inductive Severity where
  | error
  | warning
deriving DecidableEq

def Severity.label : Severity → String
  | .error => "error"
  | .warning => "warning"

structure Diagnostic where
  message : String
  span : Span
  secondary : List Span := []
  severity : Severity := .error
deriving DecidableEq

namespace Diagnostic

/-- The same diagnostic, reached through one more enclosing site. -/
def through (d : Diagnostic) (site : Span) : Diagnostic :=
  { d with secondary := d.secondary ++ [site] }

/-- Every place of the diagnostic, innermost first. -/
def sites (d : Diagnostic) : List Span :=
  d.span :: d.secondary

end Diagnostic

/-- A located problem as a diagnostic, in the words that `message` finds for it. -/
def Located.diagnostic {π : Type} (message : π → String) (p : Located π) : Diagnostic where
  message := message p.problem
  span := p.span

end TemplateCompiler
