import TemplateCompiler.Template.Parser.Expression

/-!
# Parsing templates

The nodes of a template, up to the end or up to a block tag that continues or ends the block they
stand in. Text is trimmed here, where the tags around it are known.

A block is read in three parts. A problem in its header is caught at once, so that the body and the
end tag are still read as parts of the block; the block is then left out of the tree. A problem in
the end tag is caught by the list of nodes around the block.

The functions recurse on fuel, of which `Parser.template` takes more than the tokens can use up.
-/

namespace TemplateCompiler.Parser

open Template (Expr Node)

/-- What a parser is told about the unit it reads. -/
structure Setting where
  unit : String
  whitespace : Whitespace

/-! ## Text and comments -/

/-- How to treat text next to a tag with that marker. Next to no tag it is left alone. -/
def Setting.effective (setting : Setting) : Option String → Whitespace
  | none => .preserve
  | some marker => (Whitespace.ofMarker? marker).getD setting.whitespace

/-- Literal text, trimmed towards the tags on both sides. -/
def text (setting : Setting) : Parser (Option Node) := do
  let t ← advance
  let following ← peek
  let right := if following.kind.isOpener then some following.value else none
  let left := (← get).leftMarker
  let trimmed := (setting.effective left).trimLeft t.value.toList
  let value := (setting.effective right).trimRight trimmed
  modify fun s => { s with leftMarker := none }
  return if value.isEmpty then none else some (.text (String.ofList value) t.span)

def comment : Parser Unit := do
  let _ ← advance
  let _ ← expect .comment .expectedCommentBody
  let _ ← expect .commentEnd .expectedCommentEnd

/-! ## Headers and tags without a body -/

def output (setting : Setting) : Parser Node := do
  let opening ← advance
  let e ← expression
  let _ ← expect .exprEnd .expectedExprEnd
  return .output e (← spanFrom setting.unit opening.span.start)

/-- A condition behind its keyword. -/
def condition : Parser Expr := do
  let _ ← advance
  let e ← expression
  let _ ← expectBlockEnd
  return e

/-- The loop variables behind those already read. -/
def targetsFrom : Nat → List String → Parser (List String)
  | 0, _ => throw .outOfFuel
  | fuel + 1, targets => do
    let t ← peek
    if t.kind = .comma then
      let _ ← advance
      let name ← expectIdentifier
      targetsFrom fuel (targets ++ [name.value])
    else return targets

def loopHeader : Parser (List String × Expr) := do
  let _ ← advance
  let first ← expectIdentifier
  let targets ← targetsFrom ((← get).unread.length + 1) [first.value]
  let _ ← expectKeyword "in"
  let iterable ← expression
  let _ ← expectBlockEnd
  return (targets, iterable)

/-- The default of a parameter, if one is given. What follows the sign must look like an
expression. -/
def parameterDefault : Parser (Option Expr) := do
  let t ← peek
  if t.kind = .equals then
    let _ ← advance
    let next ← peek
    if startsExpression next then return some (← expression)
    else complain .unclosedParameters t.span
  else return none

/-- The parameters of a macro behind those already read, through the closing parenthesis. A name
that occurs again is complained about and left out. -/
def parametersFrom (unit definition : String) :
    Nat → List (Parameter Expr) → Parser (List (Parameter Expr))
  | 0, _ => throw .outOfFuel
  | fuel + 1, params => do
    let t ← peek
    match t.kind with
    | .rightParen =>
      let _ ← advance
      return params
    | .identifier =>
      let _ ← advance
      let default ← parameterDefault
      let params ←
        if params.any (·.name = t.value) then
          note ⟨.duplicateParameter t.value definition, t.span⟩
          pure params
        else pure (params ++ [⟨t.value, default, ← spanFrom unit t.span.start⟩])
      let sep ← peek
      match sep.kind with
      | .comma =>
        let _ ← advance
        parametersFrom unit definition fuel params
      | .rightParen =>
        let _ ← advance
        return params
      | _ => complain .unclosedParameters sep.span
    | _ => complain .unclosedParameters t.span

/-- The name of a macro and its parameters. -/
def definitionHeader (setting : Setting) : Parser (Token × List (Parameter Expr)) := do
  let _ ← advance
  let name ← expectIdentifier
  let _ ← expect .leftParen .expectedParameterList
  let params ← parametersFrom setting.unit name.value ((← get).unread.length + 1) []
  let _ ← expectBlockEnd
  return (name, params)

def callHeader : Parser MacroCall := do
  let _ ← advance
  let name ← expectIdentifier
  let opening ← expect .leftParen .expectedParameterList
  let args ← arguments
  let argsSpan ← join opening.span args.close.span
  let span ← join name.span args.close.span
  let _ ← expectBlockEnd
  return ⟨name.value, args.positional, args.named, argsSpan, span⟩

def inclusion (setting : Setting) (opening : Token) : Parser Node := do
  let _ ← advance
  let path ← expect .string .expectedPath
  let _ ← expectBlockEnd
  return .inclusion path.value (← spanFrom setting.unit opening.span.start)

def assignment (setting : Setting) (opening : Token) : Parser Node := do
  let _ ← advance
  let name ← expectIdentifier
  let _ ← expect .equals .expectedAssignment
  let value ← expression
  let _ ← expectBlockEnd
  return .assignment name.value value (← spanFrom setting.unit opening.span.start)

/-- A tag that holds one keyword and ends a block or the first part of one. -/
def endTag (word : String) : Parser Unit := do
  let _ ← advance
  let _ ← expectKeyword word
  let _ ← expectBlockEnd

/-! ## Blocks -/

/-- The words of block tags that continue or end a block. -/
def closingWords : List String :=
  ["elif", "else", "endif", "endfor", "endmacro", "endcall"]

/-- A branch as far as it is read. -/
structure BranchSoFar where
  arms : List (Arm Node)
  /-- The condition of the arm that is being read. -/
  condition : Option Expr
  /-- Where the arm that is being read starts. -/
  armStart : Position
  /-- Was some header unreadable or out of place? -/
  broken : Bool
  /-- Was the arm for all other cases seen? -/
  seenElse : Bool

/-- Reads the header of a further arm, behind the delimiter that opens its tag. -/
def nextArm (b : BranchSoFar) : Parser BranchSoFar := do
  let t ← peek
  if b.seenElse then
    recover ⟨.strayTag t.value, t.span⟩
    return { b with broken := true }
  else if t.isKeyword "else" then
    let _ ← advance
    let _ ← recovering expectBlockEnd
    return { b with seenElse := true, condition := none }
  else
    let header ← recovering condition
    return { b with condition := header, broken := b.broken || header.isNone }

/-- The keyword that ends the current list of nodes, if the next tag starts with one. -/
def closingWord? (closers : List String) (t : Token) : Parser (Option String) := do
  if t.kind = .blockStart then
    let word ← peekSecond
    return if word.kind = .keyword && closers.contains word.value then some word.value else none
  else return none

mutual

/-- The nodes behind those already read, latest first, up to a tag whose keyword is one of
`closers`. That tag is left unread; its keyword is returned, or nothing at the end of the tokens. -/
def nodesFrom (setting : Setting) (closers : List String) :
    Nat → List Node → Parser (List Node × Option String)
  | 0, _ => throw .outOfFuel
  | fuel + 1, nodes => do
    let t ← peek
    match t.kind with
    | .eof => return (nodes.reverse, none)
    | .text =>
      let node ← text setting
      nodesFrom setting closers fuel (node.toList ++ nodes)
    | .commentStart =>
      comment
      nodesFrom setting closers fuel nodes
    | _ =>
      match ← closingWord? closers t with
      | some word => return (nodes.reverse, some word)
      | none =>
        let node ← recovering (tag setting fuel)
        nodesFrom setting closers fuel (node.join.toList ++ nodes)

/-- A tag and, if it opens a block, the whole block. -/
def tag (setting : Setting) : Nat → Parser (Option Node)
  | 0 => throw .outOfFuel
  | fuel + 1 => do
    let t ← peek
    match t.kind with
    | .exprStart => some <$> output setting
    | .blockStart =>
      let opening ← advance
      statement setting opening fuel
    | _ =>
      let _ ← advance
      complain (.unexpectedToken t.raw) t.span

/-- A statement behind the delimiter that opens its tag. -/
def statement (setting : Setting) (opening : Token) : Nat → Parser (Option Node)
  | 0 => throw .outOfFuel
  | fuel + 1 => do
    let t ← peek
    match t.kind with
    | .keyword =>
      match t.value with
      | "if" => branch setting opening fuel
      | "for" => loop setting opening fuel
      | "macro" => definition setting opening fuel
      | "call" => callBlock setting opening fuel
      | "include" => some <$> inclusion setting opening
      | "set" | "let" => some <$> assignment setting opening
      | word =>
        if closingWords.contains word then complain (.strayTag word) t.span
        else complain (.unknownStatement word) t.span
    | .identifier => complain (.unknownStatement t.value) t.span
    | _ => complain .expectedStatement t.span

/-- The nodes of a block, up to a tag that continues or ends it, and that tag's keyword. -/
def body (setting : Setting) (opening : Token) (construct : String) (closers : List String) :
    Nat → Parser (List Node × String)
  | 0 => throw .outOfFuel
  | fuel + 1 => do
    let (nodes, word) ← nodesFrom setting closers fuel []
    match word with
    | some word => return (nodes, word)
    | none => complain (.unclosedBlock construct) opening.span

def branch (setting : Setting) (opening : Token) : Nat → Parser (Option Node)
  | 0 => throw .outOfFuel
  | fuel + 1 => do
    let header ← recovering condition
    armsFrom setting opening fuel
      { arms := []
        condition := header
        armStart := opening.span.start
        broken := header.isNone
        seenElse := false }

/-- The arms of a branch behind those already read, and its end tag. -/
def armsFrom (setting : Setting) (opening : Token) : Nat → BranchSoFar → Parser (Option Node)
  | 0, _ => throw .outOfFuel
  | fuel + 1, b => do
    let (nodes, word) ← body setting opening "if" ["elif", "else", "endif"] fuel
    let arm : Arm Node := ⟨b.condition, nodes, ← spanFrom setting.unit b.armStart⟩
    let arms := b.arms ++ [arm]
    if word = "endif" then
      endTag "endif"
      if b.broken then return none
      else return some (.branch arms (← spanFrom setting.unit opening.span.start))
    else
      let next ← advance
      let b ← nextArm { b with arms := arms, armStart := next.span.start }
      armsFrom setting opening fuel b

def loop (setting : Setting) (opening : Token) : Nat → Parser (Option Node)
  | 0 => throw .outOfFuel
  | fuel + 1 => do
    let header ← recovering loopHeader
    let (nodes, word) ← body setting opening "for" ["else", "endfor"] fuel
    let otherwise ←
      if word = "else" then
        endTag "else"
        pure (← body setting opening "for" ["endfor"] fuel).1
      else pure []
    endTag "endfor"
    match header with
    | none => return none
    | some (targets, iterable) =>
      let span ← spanFrom setting.unit opening.span.start
      return some (.loop targets iterable nodes otherwise span)

def definition (setting : Setting) (opening : Token) : Nat → Parser (Option Node)
  | 0 => throw .outOfFuel
  | fuel + 1 => do
    let header ← recovering (definitionHeader setting)
    let (nodes, _) ← body setting opening "macro" ["endmacro"] fuel
    endTag "endmacro"
    match header with
    | none => return none
    | some (name, params) =>
      let span ← spanFrom setting.unit opening.span.start
      return some (.definition ⟨name.value, params, nodes, name.span, span⟩)

def callBlock (setting : Setting) (opening : Token) : Nat → Parser (Option Node)
  | 0 => throw .outOfFuel
  | fuel + 1 => do
    let header ← recovering callHeader
    let (nodes, _) ← body setting opening "call" ["endcall"] fuel
    endTag "endcall"
    match header with
    | none => return none
    | some call => return some (.callBlock call nodes (← spanFrom setting.unit opening.span.start))

end

/-! ## Whole templates -/

/-- Enough fuel to read a template from so many tokens. -/
def templateFuel (tokens : Nat) : Nat :=
  8 * (tokens + 1)

/-- Reads all nodes. A lexical fault empties the tree and is the last complaint. -/
def templateBody (setting : Setting) : Parser (List Node) := fun s =>
  match nodesFrom setting [] (templateFuel s.unread.length) [] s with
  | .ok (nodes, _) s => .ok nodes s
  | .error (.lexical fault) s =>
    let complaint : Complaint := ⟨.lexical fault.problem, fault.span⟩
    .ok [] { s with fault := none, complaints := s.complaints ++ [complaint] }
  | .error stop s => .error stop s

def template (setting : Setting) : Parser Template := do
  let nodes ← templateBody setting
  return ⟨nodes, ← spanFrom setting.unit .initial⟩

end TemplateCompiler.Parser

namespace TemplateCompiler

/-- A template and what was wrong with its source. -/
structure Parsed where
  template : Template
  complaints : List Complaint

/-- Reads a template from tokens; `fault` is what ended them, if not their end. -/
def parseTokens (setting : Parser.Setting) (tokens : List Token) (fault : Option LexicalFault) :
    Except Parser.Stop Parsed :=
  match Parser.template setting { unread := tokens, fault := fault } with
  | .ok template s => .ok ⟨template, s.complaints⟩
  | .error stop _ => .error stop

def parse (setting : Parser.Setting) (delimiters : Delimiters) (source : String) :
    Except Parser.Stop Parsed :=
  let (tokens, fault) := tokenize source setting.unit delimiters
  parseTokens setting tokens fault

def Parsed.diagnostics (p : Parsed) (delimiters : Delimiters) : List Diagnostic :=
  p.complaints.map (·.diagnostic (SyntaxProblem.message delimiters))

end TemplateCompiler
