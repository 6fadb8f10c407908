import TemplateCompiler.Template.Basic
import TemplateCompiler.Template.Parser.State

/-!
# Parsing expressions

Expressions have levels, from the loosest operators to applications of attributes, indexes, calls
and filters. A level of infix operators reads one operand of the next tighter level and then, as
long as an operator of the level follows, another, so all infix operators are left-associative. What
tells the infix levels apart is the table `Level.operator?` alone.

The functions recurse on fuel. `Parser.expression` starts them with more than the tokens ahead can
use up: at most one level after the other is entered before a token is read.
-/

namespace TemplateCompiler.Parser

open Template (Expr)

/-! ## Levels -/

inductive Level where
  | disjunction
  | conjunction
  | negation
  | comparison
  | concatenation
  | sum
  | product
  | sign
  | application
deriving DecidableEq

namespace Level

/-- The level of the operands. -/
def tighter : Level → Level
  | .disjunction => .conjunction
  | .conjunction => .negation
  | .negation => .comparison
  | .comparison => .concatenation
  | .concatenation => .sum
  | .sum => .product
  | .product => .sign
  | .sign => .application
  | .application => .application

/-- The infix operators of each level that are a single word. -/
def words : Level → List (String × BinaryOperator)
  | .disjunction => [("or", .or)]
  | .conjunction => [("and", .and)]
  | .comparison => [("in", .isIn)]
  | _ => []

/-- The infix operators of each level that are a sign. -/
def signs : Level → List (String × BinaryOperator)
  | .comparison => [("==", .eq), ("!=", .ne), ("<", .lt), ("<=", .le), (">", .gt), (">=", .ge)]
  | .concatenation => [("~", .concat)]
  | .sum => [("+", .add), ("-", .sub)]
  | .product => [("*", .mul), ("/", .div), ("//", .floorDiv), ("%", .mod)]
  | _ => []

def operator? (level : Level) (t : Token) : Option BinaryOperator :=
  match t.kind with
  | .keyword => level.words.lookup t.value
  | .operator => level.signs.lookup t.value
  | _ => none

end Level

/-- Reads an infix operator of the level, if one is next. Only `not in` takes two tokens. -/
def nextOperator? (level : Level) : Parser (Option BinaryOperator) := do
  let t ← peek
  match level.operator? t with
  | some op =>
    let _ ← advance
    return some op
  | none =>
    if level = .comparison && t.isKeyword "not" then
      let second ← peekSecond
      if second.isKeyword "in" then
        let _ ← advance
        let _ ← advance
        return some .notIn
      else return none
    else return none

/-- The sign that a token puts in front of an operand. -/
def signOperator? (t : Token) : Option UnaryOperator :=
  if t.kind = .operator then
    if t.value = "-" then some .minus else if t.value = "+" then some .plus else none
  else none

/-! ## Atoms -/

def constant? (t : Token) : Option Literal :=
  if t.kind = .keyword then
    [("true", Literal.boolean true), ("True", .boolean true), ("false", .boolean false),
      ("False", .boolean false), ("none", .none), ("None", .none)].lookup t.value
  else none

/-- A number with a point is real, any other an integer. -/
def readNumber (text : String) : Except NumeralFault Literal :=
  if text.toList.contains '.' then Literal.real <$> Numeral.readReal text
  else Literal.integer <$> Numeral.readInteger text

/-- May an expression start with this token? -/
def startsExpression (t : Token) : Bool :=
  match t.kind with
  | .identifier | .string | .number | .leftParen => true
  | .keyword => (constant? t).isSome || t.value = "not"
  | .operator => (signOperator? t).isSome
  | _ => false

/-! ## Expressions -/

/-- The arguments of a call, in order, and the parenthesis that ends them. -/
structure Arguments where
  positional : List Expr
  named : List (NamedArgument Expr)
  close : Token

/-- Reads what may stand between two arguments: a comma, or the parenthesis that ends them. -/
def argumentEnd : Parser Token := do
  let t ← peek
  if t.kind = .comma || t.kind = .rightParen then advance else complain .unclosedArguments t.span

/-- Is the next argument passed by name? -/
def namedArgumentAhead (t : Token) : Parser Bool := do
  if t.kind = .identifier then
    let second ← peekSecond
    return second.kind = .equals
  else return false

mutual

def expressionAt : Nat → Level → Parser Expr
  | 0, _ => throw .outOfFuel
  | fuel + 1, .negation => do
    let t ← peek
    if t.isKeyword "not" then
      let _ ← advance
      let operand ← expressionAt fuel .negation
      return .unary .not operand (← join t.span operand.span)
    else expressionAt fuel .comparison
  | fuel + 1, .sign => do
    let t ← peek
    match signOperator? t with
    | some op =>
      let _ ← advance
      let operand ← expressionAt fuel .sign
      return .unary op operand (← join t.span operand.span)
    | none => expressionAt fuel .application
  | fuel + 1, .application => do
    let e ← atom fuel
    applications fuel e
  | fuel + 1, level => do
    let left ← expressionAt fuel level.tighter
    infixes fuel level left

/-- The operators of a level and their right operands, behind the first operand. -/
def infixes : Nat → Level → Expr → Parser Expr
  | 0, _, _ => throw .outOfFuel
  | fuel + 1, level, left => do
    match ← nextOperator? level with
    | none => return left
    | some op =>
      let right ← expressionAt fuel level.tighter
      infixes fuel level (.binary op left right (← join left.span right.span))

/-- Attributes, indexes, calls and filters behind an expression. -/
def applications : Nat → Expr → Parser Expr
  | 0, _ => throw .outOfFuel
  | fuel + 1, e => do
    let t ← peek
    match t.kind with
    | .dot =>
      let _ ← advance
      let name ← expectIdentifier
      applications fuel (.attribute e name.value (← join e.span name.span))
    | .leftBracket =>
      let _ ← advance
      let position ← expressionAt fuel .disjunction
      let close ← expect .rightBracket .expectedBracket
      applications fuel (.index e position (← join e.span close.span))
    | .leftParen =>
      let _ ← advance
      let args ← argumentsFrom fuel [] []
      let argsSpan ← join t.span args.close.span
      let span ← join e.span args.close.span
      applications fuel (.call e args.positional args.named argsSpan span)
    | .pipe =>
      let _ ← advance
      let name ← expect .identifier .expectedFilterName
      let next ← peek
      if next.kind = .leftParen then
        let _ ← advance
        let (args, close) ← filterArguments fuel []
        applications fuel (.filter name.value e args (← join e.span close.span))
      else applications fuel (.filter name.value e [] (← join e.span name.span))
    | _ => return e

def atom : Nat → Parser Expr
  | 0 => throw .outOfFuel
  | fuel + 1 => do
    let t ← peek
    match t.kind with
    | .identifier =>
      let _ ← advance
      return .var t.value t.span
    | .string =>
      let _ ← advance
      return .literal (.string t.value) t.span
    | .number =>
      let _ ← advance
      match readNumber t.value with
      | .ok value => return .literal value t.span
      | .error fault => throw (.badNumber fault)
    | .keyword =>
      match constant? t with
      | some value =>
        let _ ← advance
        return .literal value t.span
      | none => complain .expectedExpression t.span
    | .leftParen =>
      let _ ← advance
      let e ← expressionAt fuel .disjunction
      let _ ← expect .rightParen .expectedParen
      return e
    | _ => complain .expectedExpression t.span

/-- The arguments of a call behind those already read, through the closing parenthesis. Positional
and named ones come in any order, and a comma may follow the last. -/
def argumentsFrom : Nat → List Expr → List (NamedArgument Expr) → Parser Arguments
  | 0, _, _ => throw .outOfFuel
  | fuel + 1, positional, named => do
    let t ← peek
    if t.kind = .rightParen then
      let close ← advance
      return ⟨positional, named, close⟩
    else if ← namedArgumentAhead t then
      let _ ← advance
      let _ ← advance
      let value ← expressionAt fuel .disjunction
      let named := named ++ [⟨t.value, value, t.span, ← join t.span value.span⟩]
      let sep ← argumentEnd
      if sep.kind = .comma then argumentsFrom fuel positional named
      else return ⟨positional, named, sep⟩
    else
      let value ← expressionAt fuel .disjunction
      let positional := positional ++ [value]
      let sep ← argumentEnd
      if sep.kind = .comma then argumentsFrom fuel positional named
      else return ⟨positional, named, sep⟩

/-- The arguments of a filter behind those already read, and the closing parenthesis. -/
def filterArguments : Nat → List Expr → Parser (List Expr × Token)
  | 0, _ => throw .outOfFuel
  | fuel + 1, args => do
    let t ← peek
    if t.kind = .rightParen then
      let close ← advance
      return (args, close)
    else
      let value ← expressionAt fuel .disjunction
      let args := args ++ [value]
      let sep ← argumentEnd
      if sep.kind = .comma then filterArguments fuel args else return (args, sep)

end

/-- Enough fuel to read an expression from so many tokens. -/
def expressionFuel (tokens : Nat) : Nat :=
  16 * (tokens + 1)

/-- Reads an expression of any level. -/
def expression : Parser Expr := fun s =>
  expressionAt (expressionFuel s.unread.length) .disjunction s

/-- Reads the arguments of a call behind its opening parenthesis. -/
def arguments : Parser Arguments := fun s =>
  argumentsFrom (expressionFuel s.unread.length) [] [] s

end TemplateCompiler.Parser
