import TemplateCompiler.Proofs.ExpressionSound
import TemplateCompiler.Proofs.ExpressionTotal
import TemplateCompiler.Proofs.SpanTrees

/-!
# The spans of expressions

The span of an expression is joined from those of tokens and of other expressions, so that what
tokens spell tells how its spans nest: tokens that stand in a row spell a tree that stands in the
same range, `Derives.rows`, an induction on the derivation. Parentheses leave no span of their own;
what they enclose only stands further inside of the range.

A parser takes a row of tokens, and it has reached the end of the last one. So an expression that it
reads stands between the place it had reached before and the one it reaches.
-/

namespace TemplateCompiler

open Template (Expr exprTrees namedTrees)
open SpanTree (Row)

/-! ## Joined spans -/

theorem Span.upTo_eq_ok {s t span : Span} (h : s.upTo t = .ok span) :
    span = ⟨s.start, t.stop, s.unit⟩ := by
  unfold upTo between at h
  split at h
  · cases h
  · exact (Except.ok.inj h).symm

namespace SpanTree

variable {unit : String} {lo mid hi : Nat} {t : SpanTree} {ts : List SpanTree}

theorem Nested.unit_eq (h : t.Nested unit) : t.span.unit = unit := by
  cases h with
  | node hunit => exact hunit

theorem Row.le_stop (h : Row unit lo ts hi) (ht : t ∈ ts) : lo ≤ t.span.stop.offset := by
  obtain ⟨hstart, hnested, -⟩ := h.of_mem ht
  exact Nat.le_trans hstart hnested.forward

/-- A row that starts and ends with what the span was joined from. -/
theorem row_join {first last span : Span} (hspan : first.upTo last = .ok span)
    (hunit : first.unit = unit) (hlo : lo ≤ first.start.offset)
    (hrow : Row unit first.start.offset ts last.stop.offset) (hhi : last.stop.offset ≤ hi) :
    Row unit lo [.node span [ts]] hi := by
  obtain rfl := Span.upTo_eq_ok hspan
  exact ⟨hlo, .of_row hunit hrow, hhi⟩

end SpanTree

/-! ## What tokens spell -/

/-- A token has no parts. -/
def Token.leaf (t : Token) : SpanTree :=
  .node t.span []

/-- The trees of a phrase stand in a range. -/
def Phrase.Rows (unit : String) (lo hi : Nat) : Phrase → Prop
  | .expr _ e => Row unit lo [e.spanTree] hi
  | .argument args named | .leading args named | .arguments args named =>
    Row unit lo (exprTrees args) hi ∧ Row unit lo (namedTrees named) hi ∧
      SpanTree.Apart (exprTrees args) (namedTrees named)

/-- Arguments and further ones behind them. -/
theorem rows_append {unit : String} {lo mid hi : Nat} {args args' : List Expr}
    {named named' : List (NamedArgument Expr)}
    (h : Phrase.Rows unit lo mid (.arguments args named))
    (h' : Phrase.Rows unit mid hi (.arguments args' named')) :
    Phrase.Rows unit lo hi (.arguments (args ++ args') (named ++ named')) := by
  obtain ⟨hargs, hnamed, hapart⟩ := h
  obtain ⟨hargs', hnamed', hapart'⟩ := h'
  refine ⟨?_, ?_, ?_⟩
  · rw [Template.exprTrees_append]
    exact hargs.append hargs'
  · rw [Template.namedTrees_append]
    exact hnamed.append hnamed'
  · rw [Template.exprTrees_append, Template.namedTrees_append]
    intro t ht u hu
    rcases List.mem_append.mp ht with ht | ht <;> rcases List.mem_append.mp hu with hu | hu
    · exact hapart t ht u hu
    · exact hargs.apart hnamed' t ht u hu
    · exact (hnamed.apart hargs' u hu t ht).symm
    · exact hapart' t ht u hu

/-- The tree of a list of arguments between parentheses. -/
theorem row_parenthesized {unit : String} {lo mid mid' hi : Nat} {opening closing : Token}
    {args : List Expr} {named : List (NamedArgument Expr)} {argsSpan : Span}
    (hopen : Row unit lo [opening.leaf] mid)
    (ha : Phrase.Rows unit mid mid' (.arguments args named))
    (hclose : Row unit mid' [closing.leaf] hi)
    (hspan : opening.span.upTo closing.span = .ok argsSpan) :
    Row unit lo [.node argsSpan [exprTrees args, namedTrees named]] hi := by
  obtain rfl := Span.upTo_eq_ok hspan
  obtain ⟨hlo, hopened, hmid⟩ := hopen
  obtain ⟨hargs, hnamed, hapart⟩ := ha
  obtain ⟨hmid', hclosed, hhi⟩ := hclose
  have hstart := Nat.le_trans hopened.forward hmid
  have hstop := Nat.le_trans hmid' hclosed.forward
  refine ⟨hlo, .of_rows hopened.unit_eq ?_ ?_ ?_, hhi⟩
  · exact Nat.le_trans hstart (Nat.le_trans hargs.le hstop)
  · intro group hgroup
    rcases List.mem_cons.mp hgroup with rfl | hgroup
    · exact hargs.widen hstart hstop
    · obtain rfl := List.mem_singleton.mp hgroup
      exact hnamed.widen hstart hstop
  · exact .cons (by simpa using hapart) (List.pairwise_singleton _ _)

/-- An application of `e`, with further parts behind it, up to the last of its tokens. -/
theorem row_application {unit : String} {lo mid hi : Nat} {e : Expr} {parts tokens : List SpanTree}
    {last : Token} {span : Span} (he : Row unit lo [e.spanTree] mid)
    (htokens : Row unit mid tokens hi) (hlast : last.leaf ∈ tokens)
    (hparts : Row unit mid parts last.span.stop.offset) (hspan : e.span.upTo last.span = .ok span) :
    Row unit lo [.node span [e.spanTree :: parts]] hi := by
  obtain ⟨hstart, hnested, hstop⟩ := he
  refine SpanTree.row_join hspan ?_ ?_ ⟨?_, hnested, ?_⟩ (htokens.of_mem hlast).2.2
  · simpa using hnested.unit_eq
  · simpa using hstart
  · simp
  · exact hparts.widen hstop (Nat.le_refl _)

/-- What is spelled by tokens in a row stands in their range. -/
theorem Derives.rows {unit : String} {ts : List Token} {x : Phrase} (h : Derives ts x) {lo hi : Nat}
    (hts : Row unit lo (ts.map Token.leaf) hi) : x.Rows unit lo hi := by
  induction h generalizing lo hi with
  | tighter h ih => exact ih hts
  | binary hl ho hr hspan ihl ihr =>
      rw [List.map_append, List.map_append] at hts
      obtain ⟨mid', hleft, hright⟩ := SpanTree.row_append_iff.mp hts
      obtain ⟨mid, hleft, hsign⟩ := SpanTree.row_append_iff.mp hleft
      obtain ⟨hlo, hleft, hmid⟩ := ihl hleft
      obtain ⟨hmid', hright, hhi⟩ := ihr hright
      refine SpanTree.row_join hspan ?_ ?_ ⟨?_, hleft, ?_, hright, ?_⟩ ?_
      · simpa using hleft.unit_eq
      · simpa using hlo
      · simp
      · exact Nat.le_trans hmid (Nat.le_trans hsign.le hmid')
      · simp
      · simpa using hhi
  | negation ht he hspan ih | sign ht he hspan ih =>
      obtain ⟨hlo, hsign, hoperand⟩ := hts
      obtain ⟨hmid, hoperand, hhi⟩ := ih hoperand
      refine SpanTree.row_join hspan hsign.unit_eq hlo ⟨?_, hoperand, ?_⟩ ?_
      · exact Nat.le_trans hsign.forward hmid
      · simp
      · simpa using hhi
  | @member ts e sign name span he hsign hname hspan ih
  | @filter ts e sign name span he hsign hname hspan ih =>
      rw [List.map_append] at hts
      obtain ⟨mid, he, hrest⟩ := SpanTree.row_append_iff.mp hts
      have hlast : name.leaf ∈ [sign, name].map Token.leaf := by simp
      exact row_application (ih he) hrest hlast (hrest.le_stop hlast) hspan
  | @index ts us e position opening closing span he hopen hp hclose hspan ih ihp =>
      rw [List.map_append] at hts
      obtain ⟨mid, he, hrest⟩ := SpanTree.row_append_iff.mp hts
      have hlast : closing.leaf ∈ (opening :: (us ++ [closing])).map Token.leaf := by simp
      have ⟨hmid, hopened, hinner⟩ := hrest
      rw [List.map_append] at hinner
      obtain ⟨mid', hposition, hclosed⟩ := SpanTree.row_append_iff.mp hinner
      have hposition := (ihp hposition).widen (Nat.le_trans hmid hopened.forward)
        (hclosed.le_stop (List.mem_singleton.mpr rfl))
      exact row_application (ih he) hrest hlast hposition hspan
  | @call ts us e args named opening closing argsSpan span he hcallee hopen ha hclose hargs hspan
      ih iha =>
      rw [List.map_append] at hts
      obtain ⟨mid, he, hrest⟩ := SpanTree.row_append_iff.mp hts
      have hlast : closing.leaf ∈ (opening :: (us ++ [closing])).map Token.leaf := by simp
      have ⟨hmid, hopened, hinner⟩ := hrest
      rw [List.map_append] at hinner
      obtain ⟨mid', harguments, hclosed⟩ := SpanTree.row_append_iff.mp hinner
      have hparts := row_parenthesized ⟨hmid, hopened, Nat.le_refl _⟩ (iha harguments)
        ⟨hclosed.1, hclosed.2.1, Nat.le_refl _⟩ hargs
      exact row_application (ih he) hrest hlast hparts hspan
  | @filterWith ts us e args pipe name opening closing span he hpipe hname hopen ha hclose hspan
      ih iha =>
      rw [List.map_append] at hts
      obtain ⟨mid, he, hrest⟩ := SpanTree.row_append_iff.mp hts
      have hlast :
          closing.leaf ∈ (pipe :: name :: opening :: (us ++ [closing])).map Token.leaf := by simp
      have hopened := hrest.le_stop (t := opening.leaf) (by simp)
      have ⟨_, _, _, _, _, _, hinner⟩ := hrest
      rw [List.map_append] at hinner
      obtain ⟨mid', harguments, hclosed⟩ := SpanTree.row_append_iff.mp hinner
      have hparts := (iha harguments).1.widen hopened
        (hclosed.le_stop (List.mem_singleton.mpr rfl))
      exact row_application (ih he) hrest hlast hparts hspan
  | name | string | number | constant => exact hts
  | paren hopen he hclose ih =>
      obtain ⟨hlo, hopened, hinner⟩ := hts
      rw [List.map_append] at hinner
      obtain ⟨mid, he, hclosed⟩ := SpanTree.row_append_iff.mp hinner
      exact (ih he).widen (Nat.le_trans hlo hopened.forward) hclosed.le
  | positional he ih => exact ⟨ih hts, hts.le, by rintro t - u ⟨⟩⟩
  | named hname hequals he hspan ih =>
      have hle := hts.le
      obtain ⟨hlo, hnamed, hequals, hsign, hvalue⟩ := hts
      obtain ⟨hmid, hvalue, hhi⟩ := ih hvalue
      rw [SpanTree.row_nil, Template.Expr.span_spanTree] at hhi
      refine ⟨hle, SpanTree.row_join hspan hnamed.unit_eq hlo
        ⟨Nat.le_refl _, hnamed, ?_, hvalue, ?_⟩ hhi, by rintro t ⟨⟩⟩
      · exact Nat.le_trans hequals (Nat.le_trans hsign.forward hmid)
      · simp
  | start => exact ⟨hts, hts, by rintro t ⟨⟩⟩
  | comma hl ha hcomma ihl iha =>
      rw [List.map_append, List.map_append] at hts
      obtain ⟨mid', hleading, hsign⟩ := SpanTree.row_append_iff.mp hts
      obtain ⟨mid, hleading, hargument⟩ := SpanTree.row_append_iff.mp hleading
      obtain ⟨hargs, hnamed, hapart⟩ := rows_append (ihl hleading) (iha hargument)
      exact ⟨hargs.widen (Nat.le_refl _) hsign.le, hnamed.widen (Nat.le_refl _) hsign.le, hapart⟩
  | closed hl ih => exact ih hts
  | last hl ha ihl iha =>
      rw [List.map_append] at hts
      obtain ⟨mid, hleading, hargument⟩ := SpanTree.row_append_iff.mp hts
      exact rows_append (ihl hleading) (iha hargument)

end TemplateCompiler
