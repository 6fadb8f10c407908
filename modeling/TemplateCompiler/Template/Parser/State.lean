import TemplateCompiler.Delimiters
import TemplateCompiler.Diagnostic
import TemplateCompiler.Number.Numeral
import TemplateCompiler.Token.Scanner

/-!
# The state of a parser

A parser reads the tokens of one source unit. What it has to remember are the tokens ahead, what
lies behind the last of them, the token just read, the whitespace marker of the last closing
delimiter, and the complaints so far.

A parse stops for one of two kinds of reasons. A syntax problem is caught at the tag it occurred in:
it becomes a complaint, the rest of the tag is skipped and reading goes on, so that one run reports
several independent problems. Everything else ends the run. The state outlives either: what was read
before a problem stays read, and complaints are never lost.
-/

namespace TemplateCompiler

/-! ## Problems -/

/-- What is wrong with a sequence of tokens. -/
inductive SyntaxProblem where
  | unexpectedToken (raw : String)
  /-- A tag that can only continue or end a block, where no such block is open. -/
  | strayTag (word : String)
  | unclosedBlock (construct : String)
  | unknownStatement (word : String)
  | expectedStatement
  | expectedKeyword (word : String)
  | expectedBlockEnd
  | expectedExprEnd
  | expectedCommentBody
  | expectedCommentEnd
  | expectedIdentifier
  | expectedFilterName
  | expectedParameterList
  | expectedAssignment
  | expectedPath
  | expectedExpression
  | expectedParen
  | expectedBracket
  | unclosedParameters
  | unclosedArguments
  | duplicateParameter (parameter definition : String)
  /-- The tokens end in a fault of the text they were read from. -/
  | lexical (problem : LexicalProblem)
deriving DecidableEq

namespace SyntaxProblem

/-- A block tag with nothing but a word in it. -/
def tagText (d : Delimiters) (word : String) : String :=
  s!"{d.blockStart} {word} {d.blockEnd}"

def message (d : Delimiters) : SyntaxProblem → String
  | .unexpectedToken raw => s!"unexpected `{raw}`"
  | .strayTag word => s!"unexpected `{tagText d word}`"
  | .unclosedBlock construct =>
    let word := "end" ++ construct
    s!"expected `{tagText d word}` to close `{construct}` block"
  | .unknownStatement word => s!"unknown statement `{word}`"
  | .expectedStatement => "expected statement"
  | .expectedKeyword word => s!"expected `{word}`"
  | .expectedBlockEnd => s!"expected `{d.blockEnd}`"
  | .expectedExprEnd => s!"expected `{d.exprEnd}`"
  | .expectedCommentBody => "expected comment body"
  | .expectedCommentEnd => s!"expected `{d.commentEnd}`"
  | .expectedIdentifier => "expected identifier"
  | .expectedFilterName => "expected filter name"
  | .expectedParameterList => "expected `(` after macro name"
  | .expectedAssignment => "expected `=` after variable name"
  | .expectedPath => "expected string literal after `include`"
  | .expectedExpression => "expected expression"
  | .expectedParen => "expected `)`"
  | .expectedBracket => "expected `]`"
  | .unclosedParameters => "expected `)` to close macro argument list"
  | .unclosedArguments => "expected `)` to close call argument list"
  | .duplicateParameter parameter definition =>
    s!"duplicate parameter `{parameter}` in macro `{definition}`"
  | .lexical problem => problem.message

end SyntaxProblem

abbrev Complaint := Located SyntaxProblem

namespace Parser

/-- Why a parser stops. -/
inductive Stop where
  /-- A syntax problem, which the tag around it may catch. -/
  | complaint (c : Complaint)
  /-- The tokens end in a lexical fault. -/
  | lexical (fault : LexicalFault)
  /-- The tokens end, and the last one does not say so. -/
  | exhausted
  | badNumber (fault : NumeralFault)
  | reversed (span : ReversedSpan)
  | outOfFuel

def Stop.message (d : Delimiters) : Stop → String
  | .complaint c => c.problem.message d
  | .lexical fault => fault.problem.message
  | .exhausted => "the tokens do not end"
  | .badNumber fault => fault.message
  | .reversed span => span.message
  | .outOfFuel => "out of fuel"

structure State where
  /-- The tokens ahead. An end token stays ahead forever. -/
  unread : List Token
  /-- What ended the tokens, if it was a fault. -/
  fault : Option LexicalFault
  complaints : List Complaint := []
  previous : Option Token := none
  /-- The marker of the closing delimiter before the current text, if there is one. -/
  leftMarker : Option String := none

end Parser

abbrev Parser := EStateM Parser.Stop Parser.State

namespace Parser

open EStateM (Result)

/-! ## Reading tokens -/

/-- What is met behind the last token. -/
def State.beyond (s : State) : Stop :=
  match s.fault with
  | some f => .lexical f
  | none => .exhausted

/-- The state behind a token, with the tokens that follow it. -/
def State.consume (s : State) (t : Token) (rest : List Token) : State :=
  { s with
    unread := rest
    previous := some t
    leftMarker := if t.kind.isCloser then some t.value else s.leftMarker }

/-- The next token. -/
def peek : Parser Token := fun s =>
  match s.unread with
  | [] => .error s.beyond s
  | t :: _ => .ok t s

/-- The token after the next. Nothing follows an end token but itself. -/
def peekSecond : Parser Token := fun s =>
  match s.unread with
  | [] => .error s.beyond s
  | t :: rest =>
    if t.kind = .eof then .ok t s
    else
      match rest with
      | [] => .error s.beyond s
      | u :: _ => .ok u s

def advance : Parser Token := fun s =>
  match s.unread with
  | [] => .error s.beyond s
  | t :: rest => .ok t (s.consume t (if t.kind = .eof then t :: rest else rest))

/-! ## Problems and recovery -/

def complain {α : Type} (problem : SyntaxProblem) (span : Span) : Parser α :=
  throw (.complaint ⟨problem, span⟩)

/-- Adds a complaint and goes on. -/
def note (c : Complaint) : Parser Unit :=
  modify fun s => { s with complaints := s.complaints ++ [c] }

/-- The state behind the closing delimiter that is next among the tokens ahead, or at their end. -/
def skipTagFrom : List Token → State → Result Stop State Unit
  | [], s => .error s.beyond s
  | t :: rest, s =>
    if t.kind = .eof then .ok () s
    else
      let s := s.consume t rest
      if t.kind.isCloser then .ok () s else skipTagFrom rest s

/-- Skips the rest of the current tag. -/
def skipTag : Parser Unit := fun s => skipTagFrom s.unread s

/-- Notes a complaint and resumes behind the tag it occurred in. -/
def recover (c : Complaint) : Parser Unit := do
  note c
  skipTag

/-- What `p` reads, or nothing where `p` meets a syntax problem and recovers from it. -/
def recovering {α : Type} (p : Parser α) : Parser (Option α) :=
  tryCatch (some <$> p) fun
    | .complaint c => do
      recover c
      return none
    | stop => throw stop

/-! ## Expectations -/

def expect (kind : TokenKind) (problem : SyntaxProblem) : Parser Token := do
  let t ← peek
  if t.kind = kind then advance else complain problem t.span

def expectIdentifier : Parser Token :=
  expect .identifier .expectedIdentifier

def expectKeyword (word : String) : Parser Token := do
  let t ← peek
  if t.isKeyword word then advance else complain (.expectedKeyword word) t.span

def expectBlockEnd : Parser Token :=
  expect .blockEnd .expectedBlockEnd

/-! ## Spans -/

def checked {α : Type} : Except ReversedSpan α → Parser α
  | .ok a => pure a
  | .error r => throw (.reversed r)

/-- From the start of one span to the end of another. -/
def join (s t : Span) : Parser Span :=
  checked (s.upTo t)

/-- The end of the token just read, or the start of the first. -/
def previousEnd : Parser Position := do
  match (← get).previous with
  | some t => return t.span.stop
  | none => return (← peek).span.start

/-- From `start` to the end of the token just read. -/
def spanFrom (unit : String) (start : Position) : Parser Span := do
  checked (Span.between start (← previousEnd) unit)

end Parser

end TemplateCompiler
