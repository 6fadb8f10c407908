import TemplateCompiler.Number.Shortest
import TemplateCompiler.Proofs.ExpressionGrammar
import TemplateCompiler.Token.Scanner

/-!
# Templates as they are written

A template is written with one space between what stands in a tag, with no whitespace markers, and
with parentheses only where an expression would else be another one. It is first spelled out as a
sequence of text and tags, each tag as a sequence of lexemes, and then as characters.

Not every tree can be written. `Expr.Writable` and `Node.Writable` ask for names that are names and
for values that have a literal, and for what the parser never builds otherwise; `Legible` asks that
text is seen as text by the scanner.
-/

namespace TemplateCompiler

open Template (Expr Node)
open TemplateCompiler.Parser (Level)

/-! ## Lexemes -/

/-- The kind of a token and its value. -/
abbrev Lexeme :=
  TokenKind × String

/-- A string is written between double quotes, and these and backslashes in it are escaped. -/
def escape (c : Char) : List Char :=
  if c = '"' ∨ c = '\\' then ['\\', c] else [c]

def Lexeme.text : Lexeme → List Char
  | (.string, value) => '"' :: (value.toList.flatMap escape ++ ['"'])
  | (_, value) => value.toList

/-- Lexemes with commas between them. -/
def commaSeparatedLexemes : List (List Lexeme) → List Lexeme
  | [] => []
  | [item] => item
  | item :: next :: items => item ++ (.comma, ",") :: commaSeparatedLexemes (next :: items)

def parenthesized (inside : List Lexeme) : List Lexeme :=
  (.leftParen, "(") :: (inside ++ [(.rightParen, ")")])

/-! ## Expressions -/

/-- The level of the rule that an expression is built by. -/
def Template.Expr.level : Expr → Level
  | .binary op _ _ _ => op.level
  | .unary op _ _ => op.level
  | _ => .application

/-- An expression of one level where another is wanted. -/
def enclosed (wanted level : Level) (inside : List Lexeme) : List Lexeme :=
  if wanted.rank ≤ level.rank then inside else parenthesized inside

/-- A parenthesis behind the name of a filter opens the arguments of the filter, so a filter without
arguments is enclosed where it is called. -/
def enclosedCallee (func : Expr) (inside : List Lexeme) : List Lexeme :=
  match func with
  | .filter _ _ [] _ => parenthesized inside
  | _ => enclosed .application func.level inside

def Literal.lexeme : Literal → Lexeme
  | .string value => (.string, value)
  | .integer n => (.number, toString n)
  | .real x => (.number, x.toText)
  | .boolean b => (.keyword, if b then "true" else "false")
  | .none => (.keyword, "none")

namespace Template

mutual

def Expr.spelling : Expr → List Lexeme
  | .literal value _ => [value.lexeme]
  | .var name _ => [(.identifier, name)]
  | .binary op left right _ =>
    enclosed op.level left.level left.spelling ++ op.lexemes ++
      enclosed op.level.tighter right.level right.spelling
  | .unary op operand _ => op.lexeme :: enclosed op.level operand.level operand.spelling
  | .filter name value args _ =>
    enclosed .application value.level value.spelling ++ (.pipe, "|") :: (.identifier, name) ::
      if args.isEmpty then [] else parenthesized (commaSeparatedLexemes (spellings args))
  | .index value position _ =>
    enclosed .application value.level value.spelling ++
      (.leftBracket, "[") :: (position.spelling ++ [(.rightBracket, "]")])
  | .attribute value name _ =>
    enclosed .application value.level value.spelling ++ [(.dot, "."), (.identifier, name)]
  | .call func args named _ _ =>
    enclosedCallee func func.spelling ++
      parenthesized (commaSeparatedLexemes (spellings args ++ namedSpellings named))

def spellings : List Expr → List (List Lexeme)
  | [] => []
  | e :: es => e.spelling :: spellings es

def namedSpellings : List (NamedArgument Expr) → List (List Lexeme)
  | [] => []
  | a :: as =>
    ((.identifier, a.name) :: (.equals, "=") :: a.value.spelling) :: namedSpellings as

end

end Template

/-! ## Text and tags -/

inductive Segment where
  | text (value : String)
  | block (inside : List Lexeme)
  | output (inside : List Lexeme)

namespace Segment

/-- Each lexeme stands behind a space, and one more stands before the closing delimiter. -/
def tagSource (opener closer : String) (inside : List Lexeme) : List Char :=
  opener.toList ++ (inside.flatMap (fun l => ' ' :: l.text) ++ ' ' :: closer.toList)

def source : Segment → List Char
  | .text value => value.toList
  | .block inside => tagSource Delimiters.standard.blockStart Delimiters.standard.blockEnd inside
  | .output inside => tagSource Delimiters.standard.exprStart Delimiters.standard.exprEnd inside

def lexemes : Segment → List Lexeme
  | .text value => [(.text, value)]
  | .block inside => (.blockStart, "") :: (inside ++ [(.blockEnd, "")])
  | .output inside => (.exprStart, "") :: (inside ++ [(.exprEnd, "")])

/-- A block tag with nothing but that word in it. -/
def word (w : String) : Segment :=
  .block [(.keyword, w)]

end Segment

def Parameter.spelling (p : Parameter Expr) : List Lexeme :=
  (.identifier, p.name) ::
    match p.default with
    | some e => (.equals, "=") :: e.spelling
    | none => []

def MacroCall.spelling (c : MacroCall) : List Lexeme :=
  (.identifier, c.name) ::
    parenthesized
      (commaSeparatedLexemes (Template.spellings c.args ++ Template.namedSpellings c.named))

/-- The header of an arm. The first arm of a branch starts with `if`. -/
def armHeader (word : String) : Option Expr → Segment
  | some c => .block ((.keyword, word) :: c.spelling)
  | none => .word "else"

namespace Template

mutual

def Node.segments : Node → List Segment
  | .text value _ => [.text value]
  | .output e _ => [.output e.spelling]
  | .branch arms _ => armSegments "if" arms ++ [.word "endif"]
  | .loop targets iterable body otherwise _ =>
    .block ((.keyword, "for") ::
      (commaSeparatedLexemes (targets.map fun name => [(.identifier, name)]) ++
        (.keyword, "in") :: iterable.spelling)) ::
      (nodeSegments body ++
        ((if otherwise.isEmpty then [] else .word "else" :: nodeSegments otherwise) ++
          [.word "endfor"]))
  | .definition ⟨name, params, body, _, _⟩ =>
    .block ((.keyword, "macro") :: (.identifier, name) ::
      parenthesized (commaSeparatedLexemes (params.map Parameter.spelling))) ::
      (nodeSegments body ++ [.word "endmacro"])
  | .callBlock call body _ =>
    .block ((.keyword, "call") :: call.spelling) :: (nodeSegments body ++ [.word "endcall"])
  | .inclusion path _ => [.block [(.keyword, "include"), (.string, path)]]
  | .assignment name value _ =>
    [.block ((.keyword, "set") :: (.identifier, name) :: (.equals, "=") :: value.spelling)]

def nodeSegments : List Node → List Segment
  | [] => []
  | n :: ns => n.segments ++ nodeSegments ns

def armSegments (word : String) : List (Arm Node) → List Segment
  | [] => []
  | ⟨condition, body, _⟩ :: arms =>
    armHeader word condition :: (nodeSegments body ++ armSegments "elif" arms)

end

/-- The source text of a template. -/
def source (t : Template) : String :=
  String.ofList ((nodeSegments t.body).flatMap Segment.source)

end Template

/-! ## What can be written -/

/-- An identifier that is no keyword. -/
def IsName (name : String) : Prop :=
  (∃ c rest, name.toList = c :: rest ∧ Token.startsIdentifier c ∧
    ∀ d ∈ rest, Token.continuesIdentifier d) ∧ name ∉ Token.keywords

/-- Values that have a literal. A negative number is written with a prefix operator. -/
inductive Literal.Writable : Literal → Prop
  | string {value : String} (h : '\x00' ∉ value.toList) : Writable (.string value)
  | integer {n : Nat} (h : (toString n).length ≤ Numeral.digitLimit) : Writable (.integer n)
  | boolean {b : Bool} : Writable (.boolean b)
  | none : Writable .none

inductive Template.Expr.Writable : Expr → Prop
  | literal {value span} (h : value.Writable) : Writable (.literal value span)
  | var {name span} (h : IsName name) : Writable (.var name span)
  | binary {op left right span} (hl : Writable left) (hr : Writable right) :
      Writable (.binary op left right span)
  | unary {op operand span} (h : Writable operand) : Writable (.unary op operand span)
  | filter {name value args span} (hname : IsName name) (h : Writable value)
      (hargs : ∀ e ∈ args, Writable e) : Writable (.filter name value args span)
  | index {value position span} (h : Writable value) (hp : Writable position) :
      Writable (.index value position span)
  | attribute {value name span} (h : Writable value) (hname : IsName name) :
      Writable (.attribute value name span)
  | call {func args named argsSpan span} (h : Writable func) (hargs : ∀ e ∈ args, Writable e)
      (hnames : ∀ a ∈ named, IsName a.name) (hnamed : ∀ a ∈ named, Writable a.value) :
      Writable (.call func args named argsSpan span)

structure Parameter.Writable (p : Parameter Expr) : Prop where
  name : IsName p.name
  default : ∀ e, p.default = some e → e.Writable

structure MacroCall.Writable (c : MacroCall) : Prop where
  name : IsName c.name
  args : ∀ e ∈ c.args, e.Writable
  names : ∀ a ∈ c.named, IsName a.name
  named : ∀ a ∈ c.named, a.value.Writable

inductive Template.Node.Writable : Node → Prop
  | text {value span} (hne : value ≠ "") (hnul : '\x00' ∉ value.toList) :
      Writable (.text value span)
  | output {e span} (he : e.Writable) : Writable (.output e span)
  /-- The first arm has a condition, and only the last may have none. -/
  | branch {arms : List (Arm Node)} {span} (hne : arms ≠ [])
      (hfirst : ∀ a ∈ arms.head?, a.condition.isSome)
      (hlast : ∀ a ∈ arms.dropLast, a.condition.isSome)
      (hconditions : ∀ a ∈ arms, ∀ c, a.condition = some c → c.Writable)
      (hbodies : ∀ a ∈ arms, ∀ n ∈ a.body, Writable n) : Writable (.branch arms span)
  | loop {targets : List String} {iterable : Expr} {body otherwise : List Node} {span}
      (hne : targets ≠ []) (hnames : ∀ name ∈ targets, IsName name) (he : iterable.Writable)
      (hbody : ∀ n ∈ body, Writable n) (hotherwise : ∀ n ∈ otherwise, Writable n) :
      Writable (.loop targets iterable body otherwise span)
  | definition {d : MacroDefinition Node} (hname : IsName d.name)
      (hparams : ∀ p ∈ d.params, p.Writable) (hdistinct : (d.params.map (·.name)).Nodup)
      (hbody : ∀ n ∈ d.body, Writable n) : Writable (.definition d)
  | callBlock {call : MacroCall} {body : List Node} {span} (hcall : call.Writable)
      (hbody : ∀ n ∈ body, Writable n) : Writable (.callBlock call body span)
  | inclusion {path span} (h : '\x00' ∉ path.toList) : Writable (.inclusion path span)
  | assignment {name value span} (hname : IsName name) (he : value.Writable) :
      Writable (.assignment name value span)

/-- No text has another one directly behind it, and no opening delimiter starts in a text, be it
that it ends in what follows. -/
def Legible : List Segment → Prop
  | [] => True
  | .text value :: rest =>
    (∀ other more, rest ≠ .text other :: more) ∧
      (∀ n < value.toList.length, ∀ opener ∈ Delimiters.standard.openers,
        ¬ opener.toList <+: (value.toList ++ rest.flatMap Segment.source).drop n) ∧ Legible rest
  | _ :: rest => Legible rest

structure Template.Writable (t : Template) : Prop where
  nodes : ∀ n ∈ t.body, n.Writable
  legible : Legible (Template.nodeSegments t.body)

end TemplateCompiler
