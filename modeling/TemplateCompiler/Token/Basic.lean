import TemplateCompiler.Source
import TemplateCompiler.Text.Properties

/-!
# Tokens

The vocabulary of a template: literal text, the three parts of a comment, the delimiters of tags and
what stands between them. A token keeps its decoded value, the source text it was read from, and its
place. The value of a delimiter is its whitespace marker, or nothing.
-/

namespace TemplateCompiler

inductive TokenKind where
  | text
  | blockStart
  | blockEnd
  | exprStart
  | exprEnd
  | commentStart
  | comment
  | commentEnd
  | identifier
  | keyword
  | operator
  | string
  | number
  | comma
  | leftParen
  | rightParen
  | leftBracket
  | rightBracket
  | equals
  | dot
  | pipe
  | colon
  | eof
deriving DecidableEq

namespace TokenKind

def isOpener : TokenKind → Bool
  | .blockStart | .exprStart | .commentStart => true
  | _ => false

def isCloser : TokenKind → Bool
  | .blockEnd | .exprEnd | .commentEnd => true
  | _ => false

end TokenKind

structure Token where
  kind : TokenKind
  value : String
  raw : String
  span : Span
deriving DecidableEq

namespace Token

/-! ## Words and signs -/

def keywords : List String :=
  ["if", "elif", "else", "endif", "for", "in", "endfor", "macro", "endmacro", "call", "endcall",
    "include", "set", "let", "and", "or", "not", "true", "false", "none", "True", "False", "None"]

/-- Operator signs. A sign stands before those that begin it, so that the first match is the
longest. -/
def operators : List String :=
  ["==", "!=", "<=", ">=", "//", "<", ">", "+", "-", "*", "/", "%", "~"]

def punctuation? : Char → Option TokenKind
  | ',' => some .comma
  | '(' => some .leftParen
  | ')' => some .rightParen
  | '[' => some .leftBracket
  | ']' => some .rightBracket
  | '.' => some .dot
  | '|' => some .pipe
  | ':' => some .colon
  | '=' => some .equals
  | _ => none

/-- May an identifier start with `c`? -/
def startsIdentifier (c : Char) : Bool :=
  Text.isLetter c || c = '_'

/-- May an identifier go on with `c`? -/
def continuesIdentifier (c : Char) : Bool :=
  Text.isLetterOrNumeral c || c = '_'

/-! ## Views -/

def isKeyword (t : Token) (word : String) : Bool :=
  t.kind = .keyword && t.value = word

end Token

end TemplateCompiler
