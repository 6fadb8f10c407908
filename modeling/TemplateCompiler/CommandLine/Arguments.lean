import TemplateCompiler.Number.Numeral
import TemplateCompiler.Template.Printer
import TemplateCompiler.Whitespace

/-!
# Command-line arguments

The words of a command line name templates and set options. An option is written by a short name of
one letter or by a long one, and a long name may be cut short as long as no other option is meant by
the rest. Short options without values can share a word, and a value can stand in the word of its
option or in the next one. A value `--` in the word of its option takes back what was set before.
Standing alone, the first `--` ends the options.

The words are read twice. First each is classified on its own, because what an abbreviation means
depends on no other word; then they are carried out in order. So a word that is ambiguous is refused
before any other fault is seen, and a missing template before a word that means nothing.
-/

namespace TemplateCompiler.CommandLine

/-! ## Options -/

/-- An option that is set by naming it. -/
inductive Flag where
  | help
  | dump
  | verbose
deriving DecidableEq

/-- An option that has a value. -/
inductive Setting where
  | config
  | syntaxName
  | whitespace
  | jobs
deriving DecidableEq

inductive Switch where
  | flag (f : Flag)
  | setting (s : Setting)
deriving DecidableEq

/-- The names of the options, in the order in which they are listed. -/
def spellings : List (String × Switch) :=
  [("-h", .flag .help), ("--help", .flag .help), ("-c", .setting .config),
    ("--config", .setting .config), ("--syntax", .setting .syntaxName),
    ("--whitespace", .setting .whitespace), ("-j", .setting .jobs), ("--jobs", .setting .jobs),
    ("--dump", .flag .dump), ("-v", .flag .verbose), ("--verbose", .flag .verbose)]

/-- All names of an option. -/
def Switch.label (s : Switch) : String :=
  "/".intercalate ((spellings.filter (·.2 = s)).map (·.1))

/-- The option that one letter names. -/
def short? (c : Char) : Option Switch :=
  spellings.lookup (String.ofList ['-', c])

/-- The options with a name that starts like this. No name starts with another one, so a whole name
means its option alone. -/
def completions (start : List Char) : List (String × Switch) :=
  spellings.filter fun entry => start.isPrefixOf entry.1.toList

/-! ## Faults -/

inductive UsageFault where
  | ambiguous (word : String) (names : List String)
  /-- A value for an option that has none. -/
  | ignoredValue (f : Flag) (value : String)
  | missingValue (s : Setting)
  | unknownWhitespace (value : String)
  | badJobCount (value : String)
  | tooFewJobs (value : String)
  | noTemplates
  | strayWords (words : List String)

def UsageFault.message : UsageFault → String
  | .ambiguous word names => s!"ambiguous option: {word} could match {commaSeparated names}"
  | .ignoredValue f value =>
    inOption (.flag f) s!"ignored explicit argument {Text.quoted value}"
  | .missingValue s => inOption (.setting s) "expected one argument"
  | .unknownWhitespace value =>
    let choices := commaSeparated (Whitespace.all.map fun w => Text.quoted w.name)
    inOption (.setting .whitespace)
      s!"invalid choice: {Text.quoted value} (choose from {choices})"
  | .badJobCount value => inOption (.setting .jobs) s!"invalid job count: {value}"
  | .tooFewJobs value => inOption (.setting .jobs) s!"job count must be at least 1: {value}"
  | .noTemplates => "the following arguments are required: TEMPLATE"
  | .strayWords words => "unrecognized arguments: " ++ " ".intercalate words
where
  inOption (s : Switch) (text : String) : String := s!"argument {s.label}: {text}"

/-! ## Words -/

/-- One of the things that a word asks for. -/
inductive Request where
  | flag (f : Flag)
  | value (s : Setting) (text : String)
  /-- Leaves a setting without a value. -/
  | unset (s : Setting)
  /-- A setting whose value is the next word. -/
  | awaiting (s : Setting)
  /-- What is written like an option and is none. -/
  | stray (text : String)

inductive Word where
  | plain (text : String)
  /-- The word that ends the options. -/
  | separator
  /-- A word of options. If its parts do not fit together, that is a fault where the word is carried
  out. -/
  | options (requests : Except UsageFault (List Request))

/-- An option with no value in its word. -/
def Switch.alone : Switch → Request
  | .flag f => .flag f
  | .setting s => .awaiting s

/-- A setting with a value in its word. -/
def Setting.assign (s : Setting) (value : List Char) : Request :=
  if value = ['-', '-'] then .unset s else .value s (String.ofList value)

/-- A long option with a value behind an equals sign. -/
def Switch.assign (value : List Char) : Switch → Except UsageFault Request
  | .flag f => .error (.ignoredValue f (String.ofList value))
  | .setting s => .ok (s.assign value)

/-- A short option and what follows its letter in the word: nothing, a value, or the letter of
another option. -/
def cluster : Switch → List Char → Except UsageFault (List Request)
  | s, [] => .ok [s.alone]
  | .setting s, rest => .ok [s.assign rest]
  | .flag f, c :: rest =>
    match short? c with
    | some next => (cluster next rest).map (.flag f :: ·)
    | none => .error (.ignoredValue f (String.ofList (c :: rest)))

/-- A word that starts with a short option. An equals sign right behind the first letter is left
out, but then something has to follow if the option has no value. -/
def shortWord : Switch → List Char → Except UsageFault (List Request)
  | .setting s, '=' :: value => .ok [s.assign value]
  | .flag f, ['='] => .error (.ignoredValue f "")
  | s, '=' :: rest => cluster s rest
  | s, rest => cluster s rest

/-- Is this a number, behind its minus sign? A line feed at the end does not count. -/
def isNumber (body : List Char) : Bool :=
  let isDigit := fun c : Char => (Text.decimalValue? c).isSome
  let body := if body.getLast? = some '\n' then body.dropLast else body
  match body.dropWhile isDigit with
  | [] => !body.isEmpty
  | '.' :: places => !places.isEmpty && places.all isDigit
  | _ => false

/-- A word that is written like an option and is none. Numbers are not meant as options, nor are
words with spaces in them. -/
def unknownWord (chars : List Char) : Word :=
  let text := String.ofList chars
  if isNumber (chars.drop 1) || chars.contains ' ' then .plain text
  else .options (.ok [.stray text])

/-- Classifies a word before the separator. -/
def Word.ofChars : List Char → Except UsageFault Word
  | '-' :: '-' :: rest =>
    let chars := '-' :: '-' :: rest
    match completions (chars.takeWhile (· ≠ '=')) with
    | [] => .ok (unknownWord chars)
    | [(_, s)] =>
      match chars.dropWhile (· ≠ '=') with
      | [] => .ok (.options (.ok [s.alone]))
      | _ :: value => .ok (.options ((s.assign value).map ([·])))
    | several => .error (.ambiguous (String.ofList chars) (several.map (·.1)))
  | '-' :: c :: rest =>
    match short? c with
    | some s => .ok (.options (shortWord s rest))
    | none => .ok (unknownWord ('-' :: c :: rest))
  | chars => .ok (.plain (String.ofList chars))

def Word.ofTexts : List String → Except UsageFault (List Word)
  | [] => .ok []
  | "--" :: rest => .ok (.separator :: rest.map .plain)
  | text :: rest => do return (← Word.ofChars text.toList) :: (← Word.ofTexts rest)

/-! ## Reading -/

/-- What a command line asks for. -/
structure Arguments where
  templates : List String := []
  config : Option String := none
  syntaxName : Option String := none
  whitespace : Option Whitespace := none
  /-- How many templates may be compiled at a time. It is missing if it was taken back. -/
  jobs : Option Nat := some 1
  dump : Bool := false
  verbose : Bool := false

/-- Why nothing is compiled. -/
inductive Refusal where
  /-- Help is asked for. -/
  | help
  | misuse (fault : UsageFault)

/-- The arguments read so far. -/
structure Reading where
  arguments : Arguments := {}
  /-- The templates stand together. Plain words behind a later option are none. -/
  closed : Bool := false
  strays : List String := []

namespace Reading

def addPlain (r : Reading) (text : String) : Reading :=
  if r.closed then { r with strays := r.strays ++ [text] }
  else { r with arguments.templates := r.arguments.templates ++ [text] }

def addSeparator (r : Reading) : Reading :=
  if r.closed then { r with strays := r.strays ++ ["--"] } else r

/-- An option ends the templates, if it is not before them. -/
def close (r : Reading) : Reading :=
  { r with closed := !r.arguments.templates.isEmpty }

def setJobs (r : Reading) (text : String) : Except UsageFault Reading :=
  match Numeral.readInteger text with
  | .error _ => .error (.badJobCount text)
  | .ok n =>
    if n < 1 then .error (.tooFewJobs text) else .ok { r with arguments.jobs := some n.toNat }

def set (r : Reading) (text : String) : Setting → Except UsageFault Reading
  | .config => .ok { r with arguments.config := some text }
  | .syntaxName => .ok { r with arguments.syntaxName := some text }
  | .whitespace =>
    match Whitespace.ofName? text with
    | some mode => .ok { r with arguments.whitespace := some mode }
    | none => .error (.unknownWhitespace text)
  | .jobs => r.setJobs text

def unset (r : Reading) : Setting → Reading
  | .config => { r with arguments.config := none }
  | .syntaxName => { r with arguments.syntaxName := none }
  | .whitespace => { r with arguments.whitespace := none }
  | .jobs => { r with arguments.jobs := none }

def carryOut (r : Reading) : Request → Except Refusal Reading
  | .flag .help => .error .help
  | .flag .dump => .ok { r with arguments.dump := true }
  | .flag .verbose => .ok { r with arguments.verbose := true }
  | .value s text => (r.set text s).mapError .misuse
  | .unset s => .ok (r.unset s)
  | .awaiting s => .error (.misuse (.missingValue s))
  | .stray text => .ok { r with strays := r.strays ++ [text] }

/-- Carries out words in order. A word whose last option waits for a value takes the next word with
it, and without one nothing of it is carried out. -/
def words (r : Reading) : List Word → Except Refusal Reading
  | [] => .ok r
  | .plain text :: rest => (r.addPlain text).words rest
  | .separator :: rest => r.addSeparator.words rest
  | .options (.error fault) :: _ => .error (.misuse fault)
  | .options (.ok requests) :: rest =>
    match requests.getLast?, rest with
    | some (.awaiting s), .plain text :: rest => do
      (← (requests.dropLast ++ [Request.value s text]).foldlM carryOut r.close).words rest
    | some (.awaiting s), _ => .error (.misuse (.missingValue s))
    | _, rest => do (← requests.foldlM carryOut r.close).words rest

/-- The arguments, if there are templates and no strays. -/
def finish (r : Reading) : Except UsageFault Arguments :=
  if r.arguments.templates.isEmpty then .error .noTemplates
  else if !r.strays.isEmpty then .error (.strayWords r.strays)
  else .ok r.arguments

end Reading

/-- Reads a command line. -/
def Arguments.read (texts : List String) : Except Refusal Arguments := do
  let words ← (Word.ofTexts texts).mapError .misuse
  let reading ← Reading.words {} words
  reading.finish.mapError .misuse

end TemplateCompiler.CommandLine
