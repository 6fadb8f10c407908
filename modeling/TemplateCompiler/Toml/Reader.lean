import TemplateCompiler.Number.Numeral
import TemplateCompiler.Text.Hexadecimal
import TemplateCompiler.Toml.Document

/-!
# Reading TOML

Version 1.0 of the format. A reader takes characters and gives what it read and the characters
behind it, and every reader of a value, of which arrays and inline tables hold more, recurses on
fuel: no value nests deeper than the text is long.

Line ends are line feeds; a carriage return before one is dropped beforehand.
-/

namespace TemplateCompiler.Toml

/-- Why a text is no document. -/
inductive Fault where
  | malformed
  /-- A number that has the form of one and cannot be read all the same. -/
  | number (fault : NumeralFault)

/-- What was read, and the characters behind it. -/
abbrev Read (α : Type) := α × List Char

def malformed {α : Type} : Except Fault α :=
  .error .malformed

/-! ## Characters -/

def isSpace (c : Char) : Bool :=
  c = ' ' || c = '\t'

def isBareKey (c : Char) : Bool :=
  c.isAlphanum || c = '-' || c = '_'

/-- Control characters, of which none but the tab may stand in a line of text. -/
def isControl (c : Char) : Bool :=
  (c.toNat < 0x20 && c ≠ '\t') || c = '\x7f'

def skipSpaces (text : List Char) : List Char :=
  text.dropWhile isSpace

/-- What stands behind a comment, if the text begins with one. -/
def skipComment (text : List Char) : Except Fault (List Char) :=
  match text with
  | '#' :: rest =>
    if (rest.takeWhile (· ≠ '\n')).any isControl then .error .malformed
    else .ok (rest.dropWhile (· ≠ '\n'))
  | _ => .ok text

/-- Skips spaces, line ends and comments. -/
def skipFiller (inComment : Bool) : List Char → Except Fault (List Char)
  | [] => .ok []
  | c :: rest =>
    if c = '\n' then skipFiller false rest
    else if inComment then if isControl c then .error .malformed else skipFiller true rest
    else if isSpace c then skipFiller false rest
    else if c = '#' then skipFiller true rest
    else .ok (c :: rest)

/-! ## Strings -/

def simpleEscape? : Char → Option Char
  | 'b' => some '\x08'
  | 't' => some '\t'
  | 'n' => some '\n'
  | 'f' => some '\x0c'
  | 'r' => some '\r'
  | '"' => some '"'
  | '\\' => some '\\'
  | _ => none

/-- The character with the code that so many hexadecimal digits give. -/
def codePoint (width : Nat) (text : List Char) : Except Fault Char :=
  let digits := text.take width
  if digits.length = width && digits.all Text.isHexDigit then
    let n := Text.hexValue digits
    if n.isValidChar then .ok (Char.ofNat n) else .error .malformed
  else .error .malformed

/-- A string between quotes in one line, behind the opening quote. `due` counts the characters of an
escape that were read with it. -/
def basicString (decoded : List Char) (due : Nat) : List Char → Except Fault (Read String)
  | [] => malformed
  | c :: rest =>
    if 0 < due then basicString decoded (due - 1) rest
    else if c = '"' then .ok (String.ofList decoded.reverse, rest)
    else if c = '\\' then
      match rest with
      | 'u' :: digits => do basicString ((← codePoint 4 digits) :: decoded) 5 rest
      | 'U' :: digits => do basicString ((← codePoint 8 digits) :: decoded) 9 rest
      | e :: _ =>
        match simpleEscape? e with
        | some d => basicString (d :: decoded) 1 rest
        | none => malformed
      | [] => malformed
    else if isControl c then malformed
    else basicString (c :: decoded) 0 rest

/-- Drops what a line continuation covers: spaces up to the line end, and all blanks behind it. At
the end of the text there need be no line end. -/
def continuation? (text : List Char) : Option Nat :=
  let spaces := (text.takeWhile isSpace).length
  match text.dropWhile isSpace with
  | [] => if spaces = 0 then none else some spaces
  | '\n' :: rest => some (spaces + 1 + (rest.takeWhile fun c => isSpace c || c = '\n').length)
  | _ => none

/-- A string of several lines, behind the opening quotes. -/
def multilineString (decoded : List Char) (due : Nat) : List Char → Except Fault (Read (List Char))
  | [] => malformed
  | c :: rest =>
    if 0 < due then multilineString decoded (due - 1) rest
    else if c = '"' then
      match rest with
      | '"' :: '"' :: rest => .ok (decoded.reverse, rest)
      | _ => multilineString (c :: decoded) 0 rest
    else if c = '\\' then
      match continuation? rest with
      | some n => multilineString decoded n rest
      | none =>
        match rest with
        | 'u' :: digits => do multilineString ((← codePoint 4 digits) :: decoded) 5 rest
        | 'U' :: digits => do multilineString ((← codePoint 8 digits) :: decoded) 9 rest
        | e :: _ =>
          match simpleEscape? e with
          | some d => multilineString (d :: decoded) 1 rest
          | none => malformed
        | [] => malformed
    else if isControl c && c ≠ '\n' then malformed
    else multilineString (c :: decoded) 0 rest

/-- A string without escapes in one line, behind the opening quote. -/
def literalString (text : List Char) : Except Fault (Read String) :=
  let body := text.takeWhile (· ≠ '\'')
  match text.dropWhile (· ≠ '\'') with
  | _ :: rest => if body.any isControl then malformed else .ok (String.ofList body, rest)
  | [] => malformed

/-- A string of several lines without escapes, behind the opening quotes. -/
def multilineLiteral (read : List Char) : List Char → Except Fault (Read (List Char))
  | [] => malformed
  | '\'' :: '\'' :: '\'' :: rest => .ok (read.reverse, rest)
  | c :: rest =>
    if isControl c && c ≠ '\n' then malformed else multilineLiteral (c :: read) rest

/-- Up to two quotes that stand behind the closing ones belong to the string. -/
def withClosingQuotes (quote : Char) (body : List Char) (rest : List Char) : String × List Char :=
  let extra := (rest.take 2).takeWhile (· = quote)
  (String.ofList (body ++ extra), rest.drop extra.length)

/-- A line end directly behind opening quotes is not part of the string. -/
def dropLineEnd : List Char → List Char
  | '\n' :: rest => rest
  | text => text

/-! ## Keys -/

def keyPart (text : List Char) : Except Fault (Read String) :=
  match text with
  | '"' :: rest => basicString [] 0 rest
  | '\'' :: rest => literalString rest
  | _ =>
    let bare := text.takeWhile isBareKey
    if bare.isEmpty then malformed else .ok (String.ofList bare, text.dropWhile isBareKey)

/-- The further parts of a dotted key. -/
def keyParts : Nat → List Char → Except Fault (Read (List String))
  | 0, _ => malformed
  | fuel + 1, text =>
    match skipSpaces text with
    | '.' :: rest => do
      let (part, rest) ← keyPart (skipSpaces rest)
      let (parts, rest) ← keyParts fuel rest
      return (part :: parts, rest)
    | rest => .ok ([], rest)

/-- A key and the spaces behind it. -/
def key (text : List Char) : Except Fault (Read (String × List String)) := do
  let (first, rest) ← keyPart text
  let (more, rest) ← keyParts (text.length + 1) rest
  return ((first, more), rest)

/-! ## Numbers -/

/-- Digits of a kind, with single low lines between them. -/
def digitRun (isOne : Char → Bool) : List Char → List Char
  | [] => []
  | c :: rest =>
    if isOne c then c :: digitRun isOne rest
    else
      match rest with
      | d :: _ => if c = '_' && isOne d then c :: digitRun isOne rest else []
      | [] => []

/-- A run that starts with a digit. -/
def digitsAt (isOne : Char → Bool) (text : List Char) : List Char :=
  match text with
  | c :: _ => if isOne c then digitRun isOne text else []
  | [] => []

/-- An integer in a base other than ten, behind its mark. -/
def basedInteger? (text : List Char) : Option (Value × List Char) :=
  let read := fun (isOne : Char → Bool) (base : Nat) (rest : List Char) =>
    let run := digitsAt isOne rest
    if run.isEmpty then none
    else
      let value := (run.filter (· ≠ '_')).foldl (fun n c => base * n + Text.hexValue [c]) 0
      some (Value.integer value, rest.drop run.length)
  match text with
  | '0' :: 'x' :: rest => read Text.isHexDigit 16 rest
  | '0' :: 'o' :: rest => read (fun c => '0' ≤ c && c ≤ '7') 8 rest
  | '0' :: 'b' :: rest => read (fun c => c = '0' || c = '1') 2 rest
  | _ => none

def signText : List Char → List Char
  | '+' :: _ => ['+']
  | '-' :: _ => ['-']
  | _ => []

/-- The digits of a decimal number before its point: a zero alone, or no zero at the start. -/
def wholeText (text : List Char) : List Char :=
  match text with
  | '0' :: _ => ['0']
  | _ => digitsAt Char.isDigit text

def fractionText (text : List Char) : List Char :=
  match text with
  | '.' :: rest =>
    let digits := digitsAt Char.isDigit rest
    if digits.isEmpty then [] else '.' :: digits
  | _ => []

def exponentText (text : List Char) : List Char :=
  match text with
  | c :: rest =>
    let sign := signText rest
    let digits := digitsAt Char.isDigit (rest.drop sign.length)
    if (c = 'e' || c = 'E') && !digits.isEmpty then c :: (sign ++ digits) else []
  | [] => []

def decimal? (text : List Char) : Option (Except Fault (Read Value)) :=
  let sign := signText text
  let whole := wholeText (text.drop sign.length)
  if whole.isEmpty then none
  else
    let rest := text.drop (sign.length + whole.length)
    let fraction := fractionText rest
    let rest := rest.drop fraction.length
    let exponent := exponentText rest
    let rest := rest.drop exponent.length
    let number := String.ofList (sign ++ whole ++ fraction ++ exponent)
    let value :=
      if fraction.isEmpty && exponent.isEmpty then Value.integer <$> Numeral.readInteger number
      else Value.real <$> Numeral.readReal number
    match value with
    | .ok v => some (.ok (v, rest))
    | .error f => some (.error (.number f))

/-- Infinity and what is not a number, with or without a sign. -/
def special? (text : List Char) : Option (Value × List Char) :=
  let sign := signText text
  let rest := text.drop sign.length
  match rest.take 3 with
  | ['i', 'n', 'f'] => some (.real ⟨sign = ['-'], .infinite⟩, rest.drop 3)
  | ['n', 'a', 'n'] => some (.notANumber, rest.drop 3)
  | _ => none

/-! ## Dates and times -/

/-- So many digits that give a number in a range. -/
def fixedNumber? (width low high : Nat) (text : List Char) : Option (Nat × List Char) :=
  let digits := text.take width
  if digits.length = width && digits.all Char.isDigit then
    let n := Numeral.digitsValue digits
    if low ≤ n && n ≤ high then some (n, text.drop width) else none
  else none

def sign? (c : Char) : List Char → Option (List Char)
  | d :: rest => if d = c then some rest else none
  | [] => none

/-- A fraction of a second, of which six digits count. -/
def microseconds (text : List Char) : Nat × List Char :=
  match text with
  | '.' :: rest =>
    let digits := rest.takeWhile Char.isDigit
    if digits.isEmpty then (0, text)
    else
      let six := digits.take 6
      (Numeral.digitsValue (six ++ List.replicate (6 - six.length) '0'),
        rest.dropWhile Char.isDigit)
  | _ => (0, text)

def time? (text : List Char) : Option (Time × List Char) := do
  let (hour, rest) ← fixedNumber? 2 0 23 text
  let (minute, rest) ← fixedNumber? 2 0 59 (← sign? ':' rest)
  let (second, rest) ← fixedNumber? 2 0 59 (← sign? ':' rest)
  let (microsecond, rest) := microseconds rest
  return (⟨hour, minute, second, microsecond⟩, rest)

def offset (text : List Char) : Offset × List Char :=
  match text with
  | 'Z' :: rest | 'z' :: rest => (some 0, rest)
  | _ =>
    let sign := signText text
    let numbers := do
      let (hours, rest) ← fixedNumber? 2 0 23 (text.drop 1)
      let (minutes, rest) ← fixedNumber? 2 0 59 (← sign? ':' rest)
      return (hours * 60 + minutes, rest)
    match sign, numbers with
    | ['+'], some (n, rest) => (some n, rest)
    | ['-'], some (n, rest) => (some (-(n : Int)), rest)
    | _, _ => (none, text)

def isLeapYear (year : Nat) : Bool :=
  year % 4 = 0 && (year % 100 ≠ 0 || year % 400 = 0)

def daysIn (year month : Nat) : Nat :=
  if month = 2 then if isLeapYear year then 29 else 28
  else if month = 4 || month = 6 || month = 9 || month = 11 then 30
  else 31

def Date.exists (d : Date) : Bool :=
  0 < d.year && d.day ≤ daysIn d.year d.month

def date? (text : List Char) : Option (Date × List Char) := do
  let (year, rest) ← fixedNumber? 4 0 9999 text
  let (month, rest) ← fixedNumber? 2 1 12 (← sign? '-' rest)
  let (day, rest) ← fixedNumber? 2 1 31 (← sign? '-' rest)
  return (⟨year, month, day⟩, rest)

/-- The time behind a date, with a letter or a space between them. -/
def timeBehind? : List Char → Option (Time × List Char)
  | 'T' :: rest | 't' :: rest | ' ' :: rest => time? rest
  | _ => none

/-- A date, a time or both. A date that no calendar has is malformed. -/
def moment? (text : List Char) : Option (Except Fault (Read Value)) :=
  match date? text with
  | some (d, rest) =>
    let (m, rest) :=
      match timeBehind? rest with
      | some (t, rest) =>
        let (zone, rest) := offset rest
        (Moment.dateTime d t zone, rest)
      | none => (Moment.date d, rest)
    some (if d.exists then .ok (.moment m, rest) else malformed)
  | none => (time? text).map fun (t, rest) => .ok (.moment (.time t), rest)

/-! ## Values -/

/-- A value that holds no others and is no string. -/
def plainValue (text : List Char) : Except Fault (Read Value) :=
  match text with
  | 't' :: 'r' :: 'u' :: 'e' :: rest => .ok (.boolean true, rest)
  | 'f' :: 'a' :: 'l' :: 's' :: 'e' :: rest => .ok (.boolean false, rest)
  | _ =>
    match moment? text with
    | some reading => reading
    | none =>
      match basedInteger? text with
      | some reading => .ok reading
      | none =>
        match decimal? text with
        | some reading => reading
        | none =>
          match special? text with
          | some reading => .ok reading
          | none => malformed

def stringValue? (text : List Char) : Option (Except Fault (Read Value)) :=
  match text with
  | '"' :: '"' :: '"' :: rest => some do
    let (body, rest) ← multilineString [] 0 (dropLineEnd rest)
    let (s, rest) := withClosingQuotes '"' body rest
    return (.string s, rest)
  | '"' :: rest => some do
    let (s, rest) ← basicString [] 0 rest
    return (.string s, rest)
  | '\'' :: '\'' :: '\'' :: rest => some do
    let (body, rest) ← multilineLiteral [] (dropLineEnd rest)
    let (s, rest) := withClosingQuotes '\'' body rest
    return (.string s, rest)
  | '\'' :: rest => some do
    let (s, rest) ← literalString rest
    return (.string s, rest)
  | _ => none

/-- A key, the sign behind it and the spaces around that. -/
def assignedKey (text : List Char) : Except Fault (Read (String × List String)) := do
  let (k, rest) ← key text
  match rest with
  | '=' :: rest => return (k, skipSpaces rest)
  | _ => malformed

mutual

def value : Nat → List Char → Except Fault (Read Value)
  | 0, _ => malformed
  | fuel + 1, text =>
    match text with
    | '[' :: rest => do
      let rest ← skipFiller false rest
      let (items, rest) ← arrayItems fuel [] rest
      return (.array items, rest)
    | '\x7b' :: rest => do
      match skipSpaces rest with
      | '\x7d' :: rest => return (.table [], rest)
      | rest =>
        let (entries, rest) ← inlineEntries fuel [] rest
        return (.table (finishEntries entries), rest)
    | _ => (stringValue? text).getD (plainValue text)

/-- The items of an array behind those already read, through the closing bracket. -/
def arrayItems : Nat → List Value → List Char → Except Fault (Read (List Value))
  | 0, _, _ => malformed
  | fuel + 1, items, text =>
    match text with
    | ']' :: rest => .ok (items, rest)
    | _ => do
      let (v, rest) ← value fuel text
      let items := items ++ [v]
      match ← skipFiller false rest with
      | ']' :: rest => return (items, rest)
      | ',' :: rest => arrayItems fuel items (← skipFiller false rest)
      | _ => malformed

/-- The entries of an inline table behind those already read, through the closing brace. -/
def inlineEntries : Nat → Entries → List Char → Except Fault (Read Entries)
  | 0, _, _ => malformed
  | fuel + 1, entries, text => do
    let ((first, more), rest) ← assignedKey text
    let (v, rest) ← value fuel rest
    match entries.assign first more v with
    | none => malformed
    | some entries =>
      match skipSpaces rest with
      | '\x7d' :: rest => return (entries, rest)
      | ',' :: rest => inlineEntries fuel entries (skipSpaces rest)
      | _ => malformed

end

/-! ## Documents -/

def orMalformed {α : Type} : Option α → Except Fault α
  | some a => .ok a
  | none => .error .malformed

/-- A header or an assignment, where one starts. -/
def statement (d : Document) (text : List Char) : Except Fault (Read Document) :=
  match text with
  | '[' :: '[' :: rest => do
    let ((first, more), rest) ← key (skipSpaces rest)
    let d ← orMalformed (d.openArray first more)
    match rest with
    | ']' :: ']' :: rest => return (d, rest)
    | _ => malformed
  | '[' :: rest => do
    let ((first, more), rest) ← key (skipSpaces rest)
    let d ← orMalformed (d.openTable first more)
    match rest with
    | ']' :: rest => return (d, rest)
    | _ => malformed
  | _ => do
    let ((first, more), rest) ← assignedKey text
    let (v, rest) ← value (2 * text.length + 2) rest
    return (← orMalformed (d.assign first more v), rest)

/-- The lines of a document behind those already read. -/
def lines : Nat → Document → List Char → Except Fault Document
  | 0, _, _ => .error .malformed
  | fuel + 1, d, text =>
    match skipSpaces text with
    | [] => .ok d
    | '\n' :: rest => lines fuel d rest
    | c :: rest => do
      let (d, rest) ← if c = '#' then pure (d, c :: rest) else statement d (c :: rest)
      match ← skipComment (skipSpaces rest) with
      | [] => return d
      | '\n' :: rest => lines fuel d rest
      | _ => .error .malformed

/-- Line ends of two characters become line feeds. -/
def unifyLineEnds : List Char → List Char
  | [] => []
  | '\r' :: '\n' :: rest => '\n' :: unifyLineEnds rest
  | c :: rest => c :: unifyLineEnds rest

/-- The top-level table of a document. -/
def read (text : List Char) : Except Fault (List (String × Value)) := do
  let text := unifyLineEnds text
  return (← lines (text.length + 1) {} text).finish

end TemplateCompiler.Toml
