import TemplateCompiler.Delimiters
import TemplateCompiler.Token.Basic
import TemplateCompiler.Whitespace

/-!
# The scanner

A `Scanner` is a place in a source text together with the mode of reading there: between tags, in a
tag, or at one of the inner parts of a comment. `Scanner.next` reads one token and gives the scanner
behind it, so that two readers of one text never disturb each other, and what holds of a whole token
sequence follows from what holds of one step.

Between tags the text runs up to the nearest opener. In a tag blanks are skipped, a closing
delimiter of either kind ends the tag, and everything else is a word, a number, a string or a sign.
The first fault ends the sequence.
-/

namespace TemplateCompiler

/-- Why a text cannot be read as tokens. -/
inductive LexicalProblem where
  | nulCharacter
  | unterminatedComment
  | unterminatedString
  | unknownEscape (c : Char)
  | invalidCharacter (c : Char)
deriving DecidableEq

def LexicalProblem.message : LexicalProblem → String
  | .nulCharacter => "NUL character in source"
  | .unterminatedComment => "unterminated comment"
  | .unterminatedString => "unterminated string literal"
  | .unknownEscape c => s!"unknown escape sequence `\\{c}`"
  | .invalidCharacter c => s!"invalid character `{c}`"

abbrev LexicalFault := Located LexicalProblem

/-- How the text at the scanner's place is to be read. -/
inductive ScanMode where
  /-- Between tags. -/
  | text
  /-- Behind the opening delimiter of a block or an expression. -/
  | tag
  /-- Behind the opening delimiter of a comment, which starts at `opened`. -/
  | comment (opened : Position)
  /-- Behind the body of a comment, before its whitespace marker and closing delimiter. -/
  | commentEnd (marker : List Char)
  /-- At the end, or behind a fault: nothing more is read. -/
  | finished

structure Scanner where
  delimiters : Delimiters
  unit : String
  position : Position
  rest : List Char
  mode : ScanMode

/-- What one step of a scanner comes to. -/
inductive ScanStep where
  | token (token : Token) (next : Scanner)
  | fault (fault : LexicalFault)
  | finished

namespace Scanner

def ofSource (source : String) (unit : String) (delimiters : Delimiters) : Scanner where
  delimiters := delimiters
  unit := unit
  position := .initial
  rest := source.toList
  mode := .text

/-! ## Pieces of text -/

def beginsWith (text : List Char) (delimiter : String) : Bool :=
  delimiter.toList.isPrefixOf text

/-- Which kind of tag an opening delimiter opens. Of equal delimiters the comment's counts first,
then the block's. -/
def openerKind (d : Delimiters) (opener : String) : TokenKind :=
  if opener = d.commentStart then .commentStart
  else if opener = d.blockStart then .blockStart
  else .exprStart

/-- The opening delimiter that the text begins with, and its kind. -/
def opener? (d : Delimiters) (text : List Char) : Option (String × TokenKind) :=
  (d.openers.find? (beginsWith text)).map fun opener => (opener, openerKind d opener)

/-- The text up to the first opener, or all of it. -/
def beforeOpener (d : Delimiters) : List Char → List Char
  | [] => []
  | c :: rest => if (opener? d (c :: rest)).isSome then [] else c :: beforeOpener d rest

/-- The text up to the first place where `delimiter` stands. -/
def beforeDelimiter? (delimiter : String) : List Char → Option (List Char)
  | [] => if beginsWith [] delimiter then some [] else none
  | c :: rest =>
    if beginsWith (c :: rest) delimiter then some []
    else (beforeDelimiter? delimiter rest).map (c :: ·)

/-- The body of a comment and the whitespace marker at its end. -/
def splitMarker (body : List Char) : List Char × List Char :=
  match body.getLast? with
  | some c => if Whitespace.isMarker c then (body.dropLast, [c]) else (body, [])
  | none => (body, [])

/-- The marker that the text begins with. -/
def leadingMarker (text : List Char) : List Char :=
  (text.take 1).filter Whitespace.isMarker

def isTagBlank (c : Char) : Bool :=
  c = ' ' || c = '\t' || c = '\r' || c = '\n'

/-- The closing delimiter that the text begins with, and its kind. -/
def closer? (d : Delimiters) (text : List Char) : Option (String × TokenKind) :=
  if beginsWith text d.blockEnd then some (d.blockEnd, .blockEnd)
  else if beginsWith text d.exprEnd then some (d.exprEnd, .exprEnd)
  else none

/-- The closing delimiter that the text begins with, and the marker in front of it. A marker counts
as one only if a delimiter follows. -/
def markedCloser? (d : Delimiters) (text : List Char) : Option (List Char × String × TokenKind) :=
  let marked : Option (List Char × String × TokenKind) :=
    match text with
    | c :: rest => if Whitespace.isMarker c then (closer? d rest).map ([c], ·) else none
    | [] => none
  marked.or ((closer? d text).map ([], ·))

/-! ## Numbers -/

def continuesNumber (c : Char) : Bool :=
  Text.isDigit c || c = '_'

/-- A number as written: digits and low lines, and behind a point that a digit follows, more of
them. -/
def numberText (text : List Char) : List Char :=
  let whole := text.takeWhile continuesNumber
  match text.dropWhile continuesNumber with
  | '.' :: c :: rest =>
    if Text.isDigit c then whole ++ '.' :: (c :: rest).takeWhile continuesNumber else whole
  | _ => whole

/-! ## Strings -/

def escaped? : Char → Option Char
  | '\\' => some '\\'
  | '"' => some '"'
  | '\'' => some '\''
  | 'n' => some '\n'
  | 't' => some '\t'
  | 'r' => some '\r'
  | _ => none

/-- What stands between the quotes of a string, decoded, and the text behind the closing quote.
`place` is where the text stands, and the fault is reported at a place given by its two ends. -/
def stringBody (opened : Position) (quote : Char) (place : Position) (decoded : List Char) :
    List Char → Except (LexicalProblem × Position × Position) (List Char × List Char)
  | [] => .error (.unterminatedString, opened, place)
  | c :: rest =>
    if c = quote then .ok (decoded.reverse, rest)
    else if c = '\\' then
      match rest with
      | [] => .error (.unterminatedString, opened, place.next c)
      | e :: rest =>
        match escaped? e with
        | some d => stringBody opened quote ((place.next c).next e) (d :: decoded) rest
        | none => .error (.unknownEscape e, place, (place.next c).next e)
    else if c = '\x00' then .error (.nulCharacter, place, place)
    else stringBody opened quote (place.next c) (c :: decoded) rest

/-! ## One step -/

/-- The token of that kind and value that reads `raw` at the scanner's place, and the scanner behind
it. -/
def emit (s : Scanner) (kind : TokenKind) (value raw : List Char) (mode : ScanMode) : ScanStep :=
  let stop := s.position.advance raw
  .token ⟨kind, String.ofList value, String.ofList raw, ⟨s.position, stop, s.unit⟩⟩
    { s with position := stop, rest := s.rest.drop raw.length, mode := mode }

def fail (s : Scanner) (problem : LexicalProblem) (start stop : Position) : ScanStep :=
  .fault ⟨problem, ⟨start, stop, s.unit⟩⟩

/-- The last token, which reads nothing. -/
def finish (s : Scanner) : ScanStep :=
  s.emit .eof [] [] .finished

/-- The opening delimiter at the scanner's place, with the marker behind it. -/
def nextOpener (s : Scanner) (opener : String) (kind : TokenKind) : ScanStep :=
  let opener := opener.toList
  let marker := leadingMarker (s.rest.drop opener.length)
  s.emit kind marker (opener ++ marker)
    (if kind = .commentStart then .comment s.position else .tag)

def nextText (s : Scanner) : ScanStep :=
  match s.rest with
  | [] => s.finish
  | _ =>
    match opener? s.delimiters s.rest with
    | some (opener, kind) => s.nextOpener opener kind
    | none =>
      let text := beforeOpener s.delimiters s.rest
      if text.contains '\x00' then
        let place := s.position.advance (text.takeWhile (· ≠ '\x00'))
        s.fail .nulCharacter place place
      else s.emit .text text text .text

/-- The body of a comment. One that is never closed is reported at its opening delimiter. -/
def nextComment (s : Scanner) (opened : Position) : ScanStep :=
  match beforeDelimiter? s.delimiters.commentEnd s.rest with
  | none => s.fail .unterminatedComment opened s.position
  | some all =>
    let (body, marker) := splitMarker all
    s.emit .comment body body (.commentEnd marker)

def nextCommentEnd (s : Scanner) (marker : List Char) : ScanStep :=
  s.emit .commentEnd marker (marker ++ s.delimiters.commentEnd.toList) .text

def nextWord (s : Scanner) : ScanStep :=
  let word := s.rest.takeWhile Token.continuesIdentifier
  let kind := if Token.keywords.contains (String.ofList word) then .keyword else .identifier
  s.emit kind word word .tag

def nextNumber (s : Scanner) : ScanStep :=
  let text := numberText s.rest
  s.emit .number (text.filter (· ≠ '_')) text .tag

def nextString (s : Scanner) (quote : Char) (body : List Char) : ScanStep :=
  match stringBody s.position quote (s.position.next quote) [] body with
  | .error (problem, start, stop) => s.fail problem start stop
  | .ok (value, rest) => s.emit .string value (s.rest.take (s.rest.length - rest.length)) .tag

def nextSign (s : Scanner) (c : Char) : ScanStep :=
  match Token.operators.find? (beginsWith s.rest) with
  | some sign => s.emit .operator sign.toList sign.toList .tag
  | none =>
    match Token.punctuation? c with
    | some kind => s.emit kind [c] [c] .tag
    | none => s.fail (.invalidCharacter c) s.position (s.position.next c)

/-- The scanner behind the blanks at its place. -/
def skipBlanks (s : Scanner) : Scanner :=
  { s with
    position := s.position.advance (s.rest.takeWhile isTagBlank)
    rest := s.rest.dropWhile isTagBlank }

/-- What stands in a tag, where no blank does. -/
def nextInTag (s : Scanner) : ScanStep :=
  match s.rest with
  | [] => s.finish
  | c :: rest =>
    match markedCloser? s.delimiters s.rest with
    | some (marker, closer, kind) => s.emit kind marker (marker ++ closer.toList) .text
    | none =>
      if c = '\x00' then s.fail .nulCharacter s.position s.position
      else if Token.startsIdentifier c then s.nextWord
      else if Text.isDigit c then s.nextNumber
      else if c = '"' || c = '\'' then s.nextString c rest
      else s.nextSign c

def next (s : Scanner) : ScanStep :=
  match s.mode with
  | .text => s.nextText
  | .tag => s.skipBlanks.nextInTag
  | .comment opened => s.nextComment opened
  | .commentEnd marker => s.nextCommentEnd marker
  | .finished => .finished

/-! ## Whole sequences -/

/-- Reads up to `fuel` tokens. -/
def run : Nat → Scanner → List Token × Option LexicalFault
  | 0, _ => ([], none)
  | fuel + 1, s =>
    match s.next with
    | .finished => ([], none)
    | .fault f => ([], some f)
    | .token t s => let (ts, f) := run fuel s; (t :: ts, f)

/-- Enough steps for every source: of four in a row, one reads a character. -/
def fuelFor (source : List Char) : Nat :=
  4 * source.length + 4

end Scanner

/-- The tokens of a source text, up to and including the end, or up to the fault that ended it. -/
def tokenize (source : String) (unit : String) (delimiters : Delimiters) :
    List Token × Option LexicalFault :=
  (Scanner.ofSource source unit delimiters).run (Scanner.fuelFor source.toList)

end TemplateCompiler
