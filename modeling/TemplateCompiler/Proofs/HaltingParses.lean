import TemplateCompiler.Proofs.HaltingTemplates

/-!
# Parses halt

What holds of the single functions of the parser, put together: which of them there are and how much
fuel each needs, the loops among them, and the whole parse, which finds its fuel itself.

The tokens are any list that has an end token somewhere, not only one that was scanned. The first
end token counts. Ahead of it nothing is asked of kinds, values or spans, and behind it nothing is
read.
-/

namespace TemplateCompiler.Parser

open Template (Expr Node)

variable {α : Type} {x : Sides} {v : View} {setting : Setting}

/-! ## Views of states -/

/-- A state with an end token among those ahead is seen in one way or another. -/
theorem State.exists_view {s : State} (h : ∃ t ∈ s.unread, t.kind = .eof) :
    ∃ (v : View) (last : Token) (b : Beyond), last.kind = .eof ∧ s = v.state last b := by
  obtain ⟨last, hlast⟩ : ∃ last, s.unread.find? (·.kind = .eof) = some last := by
    rw [← Option.isSome_iff_exists, List.find?_isSome]
    simpa using h
  obtain ⟨hend, ahead, rest, hunread, hahead⟩ := List.find?_eq_some_iff_append.mp hlast
  let v : View := {
    ahead := ahead
    proper := fun t ht => by simpa using hahead t ht
    complaints := s.complaints
    previous := s.previous
    leftMarker := s.leftMarker }
  refine ⟨v, last, ⟨rest, s.fault⟩, by simpa using hend, ?_⟩
  cases s
  cases hunread
  rfl

/-! ## The functions of the parser -/

/-- `p fuel` is a function of the parser, and `enough n` is the fuel it needs with `n` tokens left
ahead of the end. A function that finds its fuel itself or needs none gets by with nothing. -/
inductive Routine (setting : Setting) : {α : Type} → (Nat → Parser α) → (Nat → Nat) → Prop
  -- Single tokens, problems and spans.
  | peek : Routine setting (fun _ => peek) fun _ => 0
  | peekSecond : Routine setting (fun _ => peekSecond) fun _ => 0
  | advance : Routine setting (fun _ => advance) fun _ => 0
  | complain {α : Type} (problem : SyntaxProblem) (span : Span) :
      Routine setting (fun _ => (complain problem span : Parser α)) fun _ => 0
  | note (c : Complaint) : Routine setting (fun _ => note c) fun _ => 0
  | skipTag : Routine setting (fun _ => skipTag) fun _ => 0
  | recover (c : Complaint) : Routine setting (fun _ => recover c) fun _ => 0
  | recovering {α : Type} {p : Nat → Parser α} {enough : Nat → Nat} (h : Routine setting p enough) :
      Routine setting (fun fuel => recovering (p fuel)) enough
  /-- The parser expects only tokens that there can be more of. -/
  | expect (kind : TokenKind) (problem : SyntaxProblem) (hkind : kind ≠ .eof) :
      Routine setting (fun _ => expect kind problem) fun _ => 0
  | expectKeyword (word : String) : Routine setting (fun _ => expectKeyword word) fun _ => 0
  | join (a b : Span) : Routine setting (fun _ => join a b) fun _ => 0
  | previousEnd : Routine setting (fun _ => previousEnd) fun _ => 0
  | spanFrom (start : Position) : Routine setting (fun _ => spanFrom setting.unit start) fun _ => 0
  -- Expressions.
  | nextOperator? (level : Level) : Routine setting (fun _ => nextOperator? level) fun _ => 0
  | argumentEnd : Routine setting (fun _ => argumentEnd) fun _ => 0
  | namedArgumentAhead (t : Token) : Routine setting (fun _ => namedArgumentAhead t) fun _ => 0
  | expressionAt (level : Level) : Routine setting (expressionAt · level) (16 * · + 10)
  | infixes (level : Level) (left : Expr) : Routine setting (infixes · level left) (16 * · + 1)
  | applications (e : Expr) : Routine setting (applications · e) (16 * · + 1)
  | atom : Routine setting atom (16 * · + 1)
  | argumentsFrom (args : ArgumentsSoFar) :
      Routine setting (argumentsFrom · args.1 args.2) (16 * · + 11)
  | filterArguments (args : List Expr) : Routine setting (filterArguments · args) (16 * · + 11)
  | expression : Routine setting (fun _ => expression) fun _ => 0
  | arguments : Routine setting (fun _ => arguments) fun _ => 0
  -- Text, headers and tags.
  | text : Routine setting (fun _ => text setting) fun _ => 0
  | comment : Routine setting (fun _ => comment) fun _ => 0
  | output : Routine setting (fun _ => output setting) fun _ => 0
  | condition : Routine setting (fun _ => condition) fun _ => 0
  | targetsFrom (targets : List String) : Routine setting (targetsFrom · targets) (· + 1)
  | loopHeader : Routine setting (fun _ => loopHeader) fun _ => 0
  | parameterDefault : Routine setting (fun _ => parameterDefault) fun _ => 0
  | parametersFrom (definition : String) (params : List (Parameter Expr)) :
      Routine setting (parametersFrom setting.unit definition · params) (· + 1)
  | definitionHeader : Routine setting (fun _ => definitionHeader setting) fun _ => 0
  | callHeader : Routine setting (fun _ => callHeader) fun _ => 0
  | inclusion (opening : Token) : Routine setting (fun _ => inclusion setting opening) fun _ => 0
  | assignment (opening : Token) : Routine setting (fun _ => assignment setting opening) fun _ => 0
  | endTag (word : String) : Routine setting (fun _ => endTag word) fun _ => 0
  | nextArm (b : BranchSoFar) : Routine setting (fun _ => nextArm b) fun _ => 0
  | closingWord? (closers : List String) (t : Token) :
      Routine setting (fun _ => closingWord? closers t) fun _ => 0
  -- Nodes and blocks.
  | nodesFrom (closers : List String) (nodes : List Node) :
      Routine setting (nodesFrom setting closers · nodes) (8 * · + 1)
  | tag : Routine setting (tag setting) (8 * · + 1)
  | statement (opening : Token) : Routine setting (statement setting opening) (8 * · + 5)
  | body (opening : Token) (construct : String) (closers : List String) :
      Routine setting (body setting opening construct closers) (8 * · + 2)
  | branch (opening : Token) : Routine setting (branch setting opening) (8 * · + 4)
  | armsFrom (opening : Token) (b : BranchSoFar) :
      Routine setting (armsFrom setting opening · b) (8 * · + 3)
  | loop (opening : Token) : Routine setting (loop setting opening) (8 * · + 3)
  | definition (opening : Token) : Routine setting (definition setting opening) (8 * · + 3)
  | callBlock (opening : Token) : Routine setting (callBlock setting opening) (8 * · + 3)
  | templateBody : Routine setting (fun _ => templateBody setting) fun _ => 0
  | template : Routine setting (fun _ => template setting) fun _ => 0

theorem templateBody_halts :
    Halts x v (templateBody setting) (templateBody setting) fun _ _ => True := by
  have hfuel : ∀ b : Beyond, 8 * v.left + 1 ≤ templateFuel (v.state x.last b).unread.length := by
    intro b
    rw [templateFuel, View.length_unread]
    omega
  cases (templatesHalt x setting _ _).nodesFrom [] [] v
      (Nat.le_min.mpr ⟨hfuel x.first, hfuel x.second⟩) with
  | @ok r v' hp hq ho =>
      have hfirst : templateBody setting (v.state x.last x.first) =
          .ok r.1 (v'.state x.last x.first) := by simp only [templateBody, hp]
      have hsecond : templateBody setting (v.state x.last x.second) =
          .ok r.1 (v'.state x.last x.second) := by simp only [templateBody, hq]
      exact .ok hfirst hsecond ho trivial
  | @stop e v' hp hq ho he =>
      -- A lexical fault would be caught here, but none is met ahead of the end token.
      cases e with
      | lexical fault => exact he.elim
      | _ =>
          exact .stop (by simp only [templateBody, hp]) (by simp only [templateBody, hq]) ho he

theorem template_halts : Halts x v (template setting) (template setting) fun _ _ => True :=
  Halts.bind templateBody_halts fun _ _ _ _ => Halts.spanFrom fun _ => Halts.pure trivial

theorem Routine.halts {p : Nat → Parser α} {enough : Nat → Nat} (h : Routine setting p enough)
    {fuel fuel' : Nat} (hfuel : enough v.left ≤ min fuel fuel') :
    Halts x v (p fuel) (p fuel') fun _ _ => True := by
  have expressions := expressionsHalt x fuel fuel'
  have templates := templatesHalt x setting fuel fuel'
  induction h with
  | peek => exact Halts.of_bind (Halts.peek (Halts.pure trivial))
  | peekSecond => exact Halts.of_bind (Halts.peekSecond fun _ => Halts.pure trivial)
  | advance => exact Halts.of_bind (Halts.advance (Halts.pure trivial))
  | complain => exact Halts.complain
  | note => exact Halts.of_bind (Halts.note (Halts.pure trivial))
  | skipTag => exact Halts.forget (Halts.skipTag v)
  | recover => exact Halts.forget Halts.recover
  | recovering _ ih => exact Halts.forget (Halts.recovering (ih hfuel))
  | expect _ _ hkind =>
      exact Halts.of_bind (Halts.expect hkind fun _ _ _ => Halts.pure trivial)
  | expectKeyword => exact Halts.of_bind (Halts.expectKeyword fun _ _ _ => Halts.pure trivial)
  | join => exact Halts.of_bind (Halts.join fun _ => Halts.pure trivial)
  | previousEnd => exact Halts.forget Halts.previousEnd
  | spanFrom => exact Halts.of_bind (Halts.spanFrom fun _ => Halts.pure trivial)
  | nextOperator? level => exact Halts.forget (nextOperator?_halts level)
  | argumentEnd => exact Halts.forget argumentEnd_halts
  | namedArgumentAhead t => exact Halts.forget (namedArgumentAhead_halts t)
  | expressionAt level => exact Halts.forget (expressions.whole level v hfuel)
  | infixes level left => exact expressions.infixes level left v hfuel
  | applications e => exact expressions.applications e v hfuel
  | atom => exact Halts.forget (expressions.atom v hfuel)
  | argumentsFrom args => exact expressions.argumentsFrom args v hfuel
  | filterArguments args => exact expressions.filterArguments args v hfuel
  | expression => exact Halts.forget expression_halts
  | arguments => exact arguments_halts
  | text => exact Halts.forget (text_halts setting)
  | comment => exact Halts.forget comment_halts
  | output => exact Halts.forget (output_halts setting)
  | condition => exact Halts.forget condition_halts
  | targetsFrom targets => exact Halts.loop targets_loop id fuel fuel' targets hfuel
  | loopHeader => exact Halts.forget loopHeader_halts
  | parameterDefault => exact parameterDefault_halts
  | parametersFrom definition params =>
      exact Halts.loop (parameters_loop setting.unit definition) id fuel fuel' params hfuel
  | definitionHeader => exact Halts.forget (definitionHeader_halts setting)
  | callHeader => exact Halts.forget callHeader_halts
  | inclusion opening => exact Halts.forget (inclusion_halts setting opening)
  | assignment opening => exact Halts.forget (assignment_halts setting opening)
  | endTag word => exact Halts.forget (endTag_halts word)
  | nextArm b => exact nextArm_halts b
  | closingWord? closers t => exact Halts.forget (closingWord?_halts closers t)
  | nodesFrom closers nodes => exact Halts.forget (templates.nodesFrom closers nodes v hfuel)
  | tag =>
      exact Halts.forget (templates.tag v (Nat.le_of_succ_le hfuel) (Nat.zero_lt_of_lt hfuel))
  | statement opening => exact templates.statement opening v hfuel
  | body opening construct closers =>
      exact Halts.forget (templates.body opening construct closers v hfuel)
  | branch opening => exact templates.branch opening v hfuel
  | armsFrom opening b => exact templates.armsFrom opening b v hfuel
  | loop opening => exact templates.loop opening v hfuel
  | definition opening => exact templates.definition opening v hfuel
  | callBlock opening => exact templates.callBlock opening v hfuel
  | templateBody => exact templateBody_halts
  | template => exact template_halts

/-! ## Loops -/

theorem skipTag_loop : Loops (fun _ _ => skipTag) (fun _ _ => skipPass) fun _ => 0 where
  unrolls _ _ := skipTag_eq
  progresses _ _ _ _ _ _ := Halts.forgetDone Halts.skipPass

theorem infixes_loop (level : Level) :
    Loops (infixes · level) (infixPass level) (16 * ·) where
  unrolls := infixes_succ level
  progresses x _ fuel fuel' left h := infixPass_halts (expressionsHalt x fuel fuel') level left h

theorem applications_loop : Loops applications applicationPass (16 * ·) where
  unrolls := applications_succ
  progresses x _ fuel fuel' e h := applicationPass_halts (expressionsHalt x fuel fuel') e h

theorem arguments_loop :
    Loops (fun fuel (args : ArgumentsSoFar) => argumentsFrom fuel args.1 args.2) argumentPass
      (16 * · + 10) where
  unrolls := argumentsFrom_succ
  progresses x _ fuel fuel' args h := argumentPass_halts (expressionsHalt x fuel fuel') args h

theorem filterArguments_loop : Loops filterArguments filterArgumentPass (16 * · + 10) where
  unrolls := filterArguments_succ
  progresses x _ fuel fuel' args h := filterArgumentPass_halts (expressionsHalt x fuel fuel') args h

theorem nodes_loop (setting : Setting) (closers : List String) :
    Loops (nodesFrom setting closers) (nodePass setting closers) (8 * ·) where
  unrolls := nodesFrom_succ setting closers
  progresses x _ fuel fuel' nodes h :=
    Halts.forgetDone (nodePass_halts (templatesHalt x setting fuel fuel') closers nodes h)

theorem arms_loop (setting : Setting) (opening : Token) :
    Loops (armsFrom setting opening) (armPass setting opening) (8 * · + 2) where
  unrolls := armsFrom_succ setting opening
  progresses x _ fuel fuel' b h := armPass_halts (templatesHalt x setting fuel fuel') opening b h

/-! ## Whole parses -/

/-- The parse came to a template or to a stop that answers for the tokens. -/
def Answered : Except Stop Parsed → Prop
  | .ok _ => True
  | .error stop => stop.Answers

theorem parseTokens_append {ts : List Token} (h : ∃ t ∈ ts, t.kind = .eof) (rest : List Token)
    (fault fault' : Option LexicalFault) :
    parseTokens setting (ts ++ rest) fault' = parseTokens setting ts fault ∧
      Answered (parseTokens setting ts fault) := by
  obtain ⟨v, last, b, hend, hs⟩ := State.exists_view (s := { unread := ts, fault := fault }) h
  let x : Sides := ⟨last, hend, b, ⟨b.rest ++ rest, fault'⟩⟩
  have hs' : { unread := ts ++ rest, fault := fault' } = v.state x.last x.second := by
    simp only [View.state, State.mk.injEq] at hs ⊢
    simp [x, hs]
  have htemplate : Halts x v (template setting) (template setting) fun _ _ => True :=
    template_halts
  rw [parseTokens, parseTokens, hs, hs']
  cases htemplate with
  | ok hp hq =>
      rw [hp, hq]
      exact ⟨rfl, trivial⟩
  | stop hp hq _ he =>
      rw [hp, hq]
      exact ⟨rfl, he⟩

/-- On tokens with an end token among them the parser halts. -/
structure Halting (setting : Setting) : Prop where
  /-- Views are no restriction. -/
  views : ∀ s : State, (∃ t ∈ s.unread, t.kind = .eof) →
    ∃ (v : View) (last : Token) (b : Beyond), last.kind = .eof ∧ s = v.state last b
  /-- No function of the parser runs out of fuel, leaves more tokens than it found, or is told apart
  by what lies behind the end token, be it a fault or nothing at all. -/
  routines : ∀ {α : Type} {p : Nat → Parser α} {enough : Nat → Nat}, Routine setting p enough →
    ∀ (x : Sides) (v : View) (fuel fuel' : Nat), enough v.left ≤ min fuel fuel' →
      Halts x v (p fuel) (p fuel') fun _ _ => True
  /-- An expression of any level takes a token, also where it is a part of another. -/
  expressions : ∀ (x : Sides) (v : View) (fuel fuel' : Nat) (level : Level),
    16 * v.left + 10 ≤ min fuel fuel' →
      Halts x v (expressionAt fuel level) (expressionAt fuel' level)
        fun _ v' => v'.left < v.left
  skipped : Loops (fun _ _ => skipTag) (fun _ _ => skipPass) fun _ => 0
  operators : ∀ level, Loops (infixes · level) (infixPass level) (16 * ·)
  applications : Loops applications applicationPass (16 * ·)
  arguments : Loops (fun fuel (args : ArgumentsSoFar) => argumentsFrom fuel args.1 args.2)
    argumentPass (16 * · + 10)
  filterArguments : Loops filterArguments filterArgumentPass (16 * · + 10)
  targets : Loops targetsFrom (fun _ => targetPass) id
  parameters : ∀ definition, Loops (parametersFrom setting.unit definition)
    (fun _ => parameterPass setting.unit definition) id
  nodes : ∀ closers, Loops (nodesFrom setting closers) (nodePass setting closers) (8 * ·)
  arms : ∀ opening, Loops (armsFrom setting opening) (armPass setting opening) (8 * · + 2)
  /-- A parse halts whatever kinds the tokens have and in whatever order they come. -/
  answered : ∀ (ts : List Token) (fault : Option LexicalFault), (∃ t ∈ ts, t.kind = .eof) →
    Answered (parseTokens setting ts fault)
  /-- Nothing behind an end token is asked for. -/
  unasked : ∀ (ts rest : List Token) (fault fault' : Option LexicalFault),
    (∃ t ∈ ts, t.kind = .eof) →
      parseTokens setting (ts ++ rest) fault' = parseTokens setting ts fault

/-- The parser halts on all tokens that end. -/
theorem parser_halts (setting : Setting) : Halting setting where
  views _ h := State.exists_view h
  routines h _ _ _ _ hfuel := h.halts hfuel
  expressions x v fuel fuel' level hfuel :=
    (expressionsHalt x fuel fuel').whole level v hfuel
  skipped := skipTag_loop
  operators := infixes_loop
  applications := applications_loop
  arguments := arguments_loop
  filterArguments := filterArguments_loop
  targets := targets_loop
  parameters := parameters_loop setting.unit
  nodes := nodes_loop setting
  arms := arms_loop setting
  answered _ fault h := (parseTokens_append h [] fault fault).2
  unasked _ rest fault fault' h := (parseTokens_append h rest fault fault').1

end TemplateCompiler.Parser
