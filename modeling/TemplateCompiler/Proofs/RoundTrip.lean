import TemplateCompiler.Proofs.SpelledStatements
import TemplateCompiler.Proofs.SpelledTokens
import TemplateCompiler.Proofs.StatementComplete

/-!
# What is written is read back

The parser undoes writing: a template that can be written is read from its source again, up to
spans, and nothing is complained about. The scanner finds the lexemes that the template was spelled
by, and by the grammar these describe the template.
-/

namespace TemplateCompiler

open Template (Expr Node bareNodes nodeSegments armSegments)

/-! ## Lexemes of what can be written -/

/-- What holds of commas and of all that stands between them. -/
theorem forall_mem_commaSeparated {P : Lexeme → Prop} {items : List (List Lexeme)}
    (hcomma : P (.comma, ",")) (h : ∀ item ∈ items, ∀ l ∈ item, P l) :
    ∀ l ∈ commaSeparatedLexemes items, P l := by
  induction items with
  | nil => exact List.forall_mem_nil _
  | cons item items ih =>
      obtain ⟨hitem, hitems⟩ := List.forall_mem_cons.mp h
      cases items with
      | nil => exact hitem
      | cons next items =>
          rw [commaSeparatedLexemes, List.forall_mem_append, List.forall_mem_cons]
          exact ⟨hitem, hcomma, ih hitems⟩

section

variable {ls ls' : List Lexeme}

theorem inner_parenthesized (h : ∀ l ∈ ls, l.Inner) : ∀ l ∈ parenthesized ls, l.Inner := by
  rw [parenthesized, List.forall_mem_cons, List.forall_mem_append, List.forall_mem_singleton]
  exact ⟨.punctuation (c := '(') rfl, h, .punctuation (c := ')') rfl⟩

theorem inner_enclosed (wanted level : Parser.Level) (h : ∀ l ∈ ls, l.Inner) :
    ∀ l ∈ enclosed wanted level ls, l.Inner := by
  unfold enclosed
  split
  · exact h
  · exact inner_parenthesized h

theorem inner_enclosedCallee (func : Expr) (h : ∀ l ∈ ls, l.Inner) :
    ∀ l ∈ enclosedCallee func ls, l.Inner := by
  unfold enclosedCallee
  split
  · exact inner_parenthesized h
  · exact inner_enclosed _ _ h

theorem inner_commaSeparated {items : List (List Lexeme)}
    (h : ∀ item ∈ items, ∀ l ∈ item, l.Inner) : ∀ l ∈ commaSeparatedLexemes items, l.Inner :=
  forall_mem_commaSeparated (.punctuation (c := ',') rfl) h

end

theorem BinaryOperator.inner_lexemes (op : BinaryOperator) :
    ∀ l : Lexeme, l ∈ op.lexemes → l.Inner := by
  cases op with
  | or | and | isIn =>
      exact List.forall_mem_singleton.mpr (.keyword (by decide))
  | notIn =>
      exact List.forall_mem_cons.mpr ⟨.keyword (by decide),
        List.forall_mem_singleton.mpr (.keyword (by decide))⟩
  | _ => exact List.forall_mem_singleton.mpr (.operator (by decide))

theorem UnaryOperator.inner_lexeme (op : UnaryOperator) : Lexeme.Inner op.lexeme := by
  cases op with
  | not => exact .keyword (by decide)
  | minus | plus => exact .operator (by decide)

theorem Literal.Writable.inner_lexeme {value : Literal} (h : value.Writable) :
    value.lexeme.Inner := by
  cases h with
  | string h => exact .string h
  | @integer n h =>
      show Lexeme.Inner (.number, toString n)
      rw [Nat.toString_eq_ofList_toDigits]
      exact .number (List.ne_nil_of_length_pos Nat.length_toDigits_pos)
        fun c => Numeral.isDigit_of_mem_toDigits
  | @boolean b => cases b <;> exact .keyword (by decide)
  | none => exact .keyword (by decide)

/-- The lexemes that the expression is spelled by may stand in a tag. -/
abbrev Template.Expr.IsInner (e : Expr) : Prop :=
  ∀ l ∈ e.spelling, l.Inner

theorem inner_arguments {args : List Expr} {named : List (NamedArgument Expr)}
    (hargs : ∀ e ∈ args, e.IsInner) (hnames : ∀ a ∈ named, IsName a.name)
    (hnamed : ∀ a ∈ named, a.value.IsInner) :
    ∀ l ∈ parenthesized (commaSeparatedLexemes
      (Template.spellings args ++ Template.namedSpellings named)), l.Inner := by
  refine inner_parenthesized (inner_commaSeparated ?_)
  rw [List.forall_mem_append]
  constructor
  · induction args with
    | nil => exact List.forall_mem_nil _
    | cons e args ih =>
        obtain ⟨he, hargs⟩ := List.forall_mem_cons.mp hargs
        exact List.forall_mem_cons.mpr ⟨he, ih hargs⟩
  · induction named with
    | nil => exact List.forall_mem_nil _
    | cons a named ih =>
        obtain ⟨hname, hnames⟩ := List.forall_mem_cons.mp hnames
        obtain ⟨ha, hnamed⟩ := List.forall_mem_cons.mp hnamed
        rw [Template.namedSpellings, List.forall_mem_cons, List.forall_mem_cons,
          List.forall_mem_cons]
        exact ⟨⟨.name hname, .punctuation (c := '=') rfl, ha⟩, ih hnames hnamed⟩

theorem Template.Expr.Writable.isInner {e : Expr} (h : e.Writable) : e.IsInner := by
  induction h with
  | literal h => exact List.forall_mem_singleton.mpr h.inner_lexeme
  | var h => exact List.forall_mem_singleton.mpr (.name h)
  | @binary op left right span _ _ ihl ihr =>
      rw [Expr.IsInner, Expr.spelling, List.forall_mem_append, List.forall_mem_append]
      exact ⟨⟨inner_enclosed _ _ ihl, op.inner_lexemes⟩, inner_enclosed _ _ ihr⟩
  | @unary op operand span _ ih =>
      exact List.forall_mem_cons.mpr ⟨op.inner_lexeme, inner_enclosed _ _ ih⟩
  | @filter name value args span hname _ _ ih ihargs =>
      have hargs := @inner_arguments args [] ihargs (by simp) (by simp)
      rw [Template.namedSpellings, List.append_nil] at hargs
      rw [Expr.IsInner, Expr.spelling, List.forall_mem_append, List.forall_mem_cons,
        List.forall_mem_cons]
      refine ⟨inner_enclosed _ _ ih, .punctuation (c := '|') rfl, .name hname, ?_⟩
      split
      · exact List.forall_mem_nil _
      · exact hargs
  | index _ _ ih ihp =>
      rw [Expr.IsInner, Expr.spelling, List.forall_mem_append, List.forall_mem_cons,
        List.forall_mem_append, List.forall_mem_singleton]
      exact ⟨inner_enclosed _ _ ih, .punctuation (c := '[') rfl, ihp, .punctuation (c := ']') rfl⟩
  | «attribute» _ hname ih =>
      rw [Expr.IsInner, Expr.spelling, List.forall_mem_append, List.forall_mem_cons,
        List.forall_mem_singleton]
      exact ⟨inner_enclosed _ _ ih, .punctuation (c := '.') rfl, .name hname⟩
  | call _ _ hnames _ ih ihargs ihnamed =>
      rw [Expr.IsInner, Expr.spelling, List.forall_mem_append]
      exact ⟨inner_enclosedCallee _ ih, inner_arguments ihargs hnames ihnamed⟩

/-! ## Segments of what can be written -/

theorem wellFormed_nodeSegments {ns : List Node}
    (h : ∀ n ∈ ns, ∀ g ∈ n.segments, g.WellFormed) : ∀ g ∈ nodeSegments ns, g.WellFormed := by
  induction ns with
  | nil => exact List.forall_mem_nil _
  | cons n ns ih =>
      obtain ⟨hn, hns⟩ := List.forall_mem_cons.mp h
      exact List.forall_mem_append.mpr ⟨hn, ih hns⟩

theorem wellFormed_word {word : String} (h : word ∈ Token.keywords) :
    (Segment.word word).WellFormed :=
  List.forall_mem_singleton.mpr (.keyword h)

theorem wellFormed_armSegments {arms : List (Arm Node)} {word : String}
    (hword : word ∈ Token.keywords)
    (hconditions : ∀ a ∈ arms, ∀ c, a.condition = some c → c.Writable)
    (hbodies : ∀ a ∈ arms, ∀ n ∈ a.body, ∀ g ∈ n.segments, g.WellFormed) :
    ∀ g ∈ armSegments word arms, g.WellFormed := by
  induction arms generalizing word with
  | nil => exact List.forall_mem_nil _
  | cons a arms ih =>
      obtain ⟨c, body, span⟩ := a
      obtain ⟨hcondition, hconditions'⟩ := List.forall_mem_cons.mp hconditions
      obtain ⟨hbody, hbodies'⟩ := List.forall_mem_cons.mp hbodies
      have hheader : (armHeader word c).WellFormed := by
        cases c with
        | some e => exact List.forall_mem_cons.mpr ⟨.keyword hword, (hcondition e rfl).isInner⟩
        | none => exact wellFormed_word (by decide)
      rw [armSegments, List.forall_mem_cons, List.forall_mem_append]
      exact ⟨hheader, wellFormed_nodeSegments hbody, ih (by decide) hconditions' hbodies'⟩

theorem Parameter.Writable.inner {p : Parameter Expr} (h : p.Writable) :
    ∀ l ∈ p.spelling, l.Inner := by
  obtain ⟨name, default, span⟩ := p
  refine List.forall_mem_cons.mpr ⟨.name h.name, ?_⟩
  cases default with
  | none => exact List.forall_mem_nil _
  | some e =>
      exact List.forall_mem_cons.mpr ⟨.punctuation (c := '=') rfl, (h.default e rfl).isInner⟩

theorem Template.Node.Writable.wellFormed {n : Node} (h : n.Writable) :
    ∀ g ∈ n.segments, g.WellFormed := by
  induction h with
  | text hne hnul => exact List.forall_mem_singleton.mpr ⟨hne, hnul⟩
  | output he => exact List.forall_mem_singleton.mpr he.isInner
  | branch _ _ _ hconditions _ ihbodies =>
      rw [Node.segments, List.forall_mem_append, List.forall_mem_singleton]
      exact ⟨wellFormed_armSegments (by decide) hconditions ihbodies, wellFormed_word (by decide)⟩
  | @loop targets iterable body otherwise span _ hnames he _ _ ihbody ihotherwise =>
      have hheader : (Segment.block ((.keyword, "for") ::
          (commaSeparatedLexemes (targets.map fun name => [(.identifier, name)]) ++
            (.keyword, "in") :: iterable.spelling))).WellFormed := by
        rw [Segment.WellFormed, List.forall_mem_cons, List.forall_mem_append, List.forall_mem_cons]
        refine ⟨.keyword (by decide), inner_commaSeparated ?_, .keyword (by decide), he.isInner⟩
        rw [List.forall_mem_map]
        exact fun name hname => List.forall_mem_singleton.mpr (.name (hnames name hname))
      have helse : ∀ g ∈ (if otherwise.isEmpty then []
          else Segment.word "else" :: nodeSegments otherwise), g.WellFormed := by
        split
        · exact List.forall_mem_nil _
        · exact List.forall_mem_cons.mpr
            ⟨wellFormed_word (by decide), wellFormed_nodeSegments ihotherwise⟩
      rw [Node.segments, List.forall_mem_cons, List.forall_mem_append, List.forall_mem_append,
        List.forall_mem_singleton]
      exact ⟨hheader, wellFormed_nodeSegments ihbody, helse, wellFormed_word (by decide)⟩
  | @definition d hname hparams _ _ ihbody =>
      obtain ⟨name, params, body, nameSpan, span⟩ := d
      have hheader : (Segment.block ((.keyword, "macro") :: (.identifier, name) ::
          parenthesized (commaSeparatedLexemes (params.map Parameter.spelling)))).WellFormed := by
        rw [Segment.WellFormed, List.forall_mem_cons, List.forall_mem_cons]
        refine ⟨.keyword (by decide), .name hname, inner_parenthesized (inner_commaSeparated ?_)⟩
        rw [List.forall_mem_map]
        exact fun p hp => (hparams p hp).inner
      rw [Node.segments, List.forall_mem_cons, List.forall_mem_append, List.forall_mem_singleton]
      exact ⟨hheader, wellFormed_nodeSegments ihbody, wellFormed_word (by decide)⟩
  | @callBlock call body span hcall _ ihbody =>
      have hheader : (Segment.block ((.keyword, "call") :: call.spelling)).WellFormed := by
        rw [Segment.WellFormed, MacroCall.spelling, List.forall_mem_cons, List.forall_mem_cons]
        exact ⟨.keyword (by decide), .name hcall.name,
          inner_arguments (fun e he => (hcall.args e he).isInner) hcall.names
            fun a ha => (hcall.named a ha).isInner⟩
      rw [Node.segments, List.forall_mem_cons, List.forall_mem_append, List.forall_mem_singleton]
      exact ⟨hheader, wellFormed_nodeSegments ihbody, wellFormed_word (by decide)⟩
  | inclusion h =>
      rw [Node.segments, List.forall_mem_singleton, Segment.WellFormed, List.forall_mem_cons,
        List.forall_mem_singleton]
      exact ⟨.keyword (by decide), .string h⟩
  | assignment hname he =>
      rw [Node.segments, List.forall_mem_singleton, Segment.WellFormed, List.forall_mem_cons,
        List.forall_mem_cons, List.forall_mem_cons]
      exact ⟨.keyword (by decide), .name hname, .punctuation (c := '=') rfl, he.isInner⟩

/-! ## Delimiters -/

theorem Lexeme.Inner.kind {l : Lexeme} (h : l.Inner) : l.1.isInner := by
  cases h with
  | punctuation h => exact (Scanner.punctuation?_eq_some h).2.1
  | _ => rfl

/-- No whitespace marker is written. -/
theorem Segment.WellFormed.unmarked {g : Segment} (h : g.WellFormed) :
    ∀ l ∈ g.lexemes, l.1.isOpener ∨ l.1.isCloser → l.2 = "" := by
  have hinner : ∀ l : Lexeme, l.Inner → l.1.isOpener ∨ l.1.isCloser → l.2 = "" := by
    intro l hl hdelimiter
    have hkind := hl.kind
    cases hcase : l.1 <;>
      simp [hcase, TokenKind.isInner, TokenKind.isOpener, TokenKind.isCloser] at hkind hdelimiter
  cases g with
  | text value => simp [lexemes, TokenKind.isOpener, TokenKind.isCloser]
  | block inside | output inside =>
      rw [lexemes, List.forall_mem_cons, List.forall_mem_append, List.forall_mem_singleton]
      exact ⟨fun _ => rfl, fun l hl => hinner l (h l hl), fun _ => rfl⟩

/-! ## Templates -/

/-- A template is read back from its source. -/
theorem parse_source {t : Template} (h : t.Writable) (unit : String) :
    ∃ t', parse ⟨unit, .preserve⟩ .standard t.source = .ok ⟨t', []⟩ ∧ t'.bare = t.bare := by
  have hwellFormed := wellFormed_nodeSegments fun n hn => (h.nodes n hn).wellFormed
  obtain ⟨ts, final, htokens, hlexemes, hfinal⟩ := tokenize_segments hwellFormed h.legible unit
  have hdescribes := describes_of_nodeSegments (fun n hn => (h.nodes n hn).isSpelled) hlexemes
  have hplain : ∀ u ∈ ts, u.kind.isOpener ∨ u.kind.isCloser → u.value = "" := by
    intro u hu
    have hmem : u.lexeme ∈ (nodeSegments t.body).flatMap Segment.lexemes :=
      hlexemes ▸ List.mem_map_of_mem hu
    obtain ⟨g, hg, hlexeme⟩ := List.mem_flatMap.mp hmem
    exact (hwellFormed g hg).unmarked _ hlexeme
  have horder := tokenize_inOrder t.source unit .standard
  rw [Template.source, htokens] at horder
  have hended : Parser.Ended (ts ++ [final]) :=
    ⟨horder.apart, horder.forward, final, by simp, hfinal⟩
  obtain ⟨t', hparse, hbody⟩ :=
    @parseTokens_of_describes ⟨unit, .preserve⟩ rfl _ _ _ hdescribes hplain hfinal hended
  refine ⟨t', ?_, by rw [Template.bare, hbody, Template.bare]⟩
  rw [parse, Template.source, htokens]
  exact hparse

/-- A branch in a loop: a sum needs parentheses in a product, and a filter where it is called. -/
theorem parse_source_of_nested :
    let name := fun n => Expr.var n .blank
    let sum := Expr.binary .add (name "x") (name "n") .blank
    let product := Expr.binary .mul sum (.literal (.integer 2) .blank) .blank
    let called := Expr.call (.filter "f" (name "y") [] .blank) [name "n"] [] .blank .blank
    let branch := Node.branch [⟨some product, [.text "a" .blank], .blank⟩,
      ⟨none, [.output (.literal (.string "\"") .blank) .blank], .blank⟩] .blank
    let t : Template := ⟨[.loop ["x"] called [branch] [.text "b" .blank] .blank], .blank⟩
    t.source = "\x7b% for x in ( y | f ) ( n ) %\x7d\x7b% if ( x + n ) * 2 %\x7da" ++
        "\x7b% else %\x7d\x7b\x7b \"\\\"\" \x7d\x7d\x7b% endif %\x7d" ++
        "\x7b% else %\x7db\x7b% endfor %\x7d" ∧
      t.Writable ∧
      ∃ t', parse ⟨"page", .preserve⟩ .standard t.source = .ok ⟨t', []⟩ ∧ t'.bare = t.bare := by
  intro name sum product called branch t
  have hname : ∀ n ∈ ["x", "n", "y", "f"], IsName n := by
    intro n hn
    simp only [List.mem_cons, List.not_mem_nil, or_false] at hn
    rcases hn with rfl | rfl | rfl | rfl <;>
      exact ⟨⟨_, _, rfl, by decide +kernel, nofun⟩, by decide⟩
  have hsum : sum.Writable := .binary (.var (hname "x" (by simp))) (.var (hname "n" (by simp)))
  have hproduct : product.Writable :=
    .binary hsum (.literal (@Literal.Writable.integer 2 (by decide)))
  have hcalled : called.Writable :=
    .call (.filter (hname "f" (by simp)) (.var (hname "y" (by simp))) nofun)
      (List.forall_mem_singleton.mpr (.var (hname "n" (by simp)))) nofun nofun
  have hquote : (Node.output (.literal (.string "\"") .blank) .blank).Writable :=
    .output (.literal (.string (by decide)))
  have hbranch : branch.Writable := by
    refine .branch (by simp) (by simp) (by simp) ?_ ?_
    · exact List.forall_mem_cons.mpr ⟨fun c hc => Option.some.inj hc ▸ hproduct,
        List.forall_mem_singleton.mpr nofun⟩
    · exact List.forall_mem_cons.mpr
        ⟨List.forall_mem_singleton.mpr (.text (by decide) (by decide)),
          List.forall_mem_singleton.mpr (List.forall_mem_singleton.mpr hquote)⟩
  have hlegible : Legible (nodeSegments t.body) :=
    ⟨nofun, by decide +kernel, nofun, by decide +kernel, trivial⟩
  have ht : t.Writable := by
    refine ⟨List.forall_mem_singleton.mpr ?_, hlegible⟩
    exact .loop (by simp) (List.forall_mem_singleton.mpr (hname "x" (by simp))) hcalled
      (List.forall_mem_singleton.mpr hbranch)
      (List.forall_mem_singleton.mpr (.text (by decide) (by decide)))
  exact ⟨by decide +kernel, ht, parse_source ht "page"⟩

end TemplateCompiler
