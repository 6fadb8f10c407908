import TemplateCompiler.Number.Binary64
import TemplateCompiler.Text.Quoted

/-!
# Reading and writing numbers

An integer is an optional sign and decimal digits of any script, a real number may have a point and
an exponent as well. Blanks around the number are no part of it, and a single low line may stand
between two digits. An integer has at most `digitLimit` digits, which is checked before what follows
the digits is looked at, and one with more digits is not written either.
-/

namespace TemplateCompiler

/-- Why a text is no number, or a number has no text. -/
inductive NumeralFault where
  | notAnInteger (text : String)
  | notAReal (text : String)
  | tooManyDigits (count : Nat)
  | tooLongToWrite
deriving DecidableEq

namespace Numeral

def digitLimit : Nat := 4300

/-! ## Characters -/

/-- Blanks around a number. Of the ASCII characters fewer count than elsewhere. -/
def isBlank (c : Char) : Bool :=
  if c.toNat < 127 then c = ' ' || ('\t' ≤ c && c ≤ '\r') else Text.isBlank c

/-- A decimal digit in its ASCII form, and any other character as it is. -/
def asciiDigit (c : Char) : Char :=
  match Text.decimalValue? c with
  | some v => Char.ofNat ('0'.toNat + v)
  | none => c

def isDigit (c : Char) : Bool :=
  '0' ≤ c && c ≤ '9'

/-- The text without the blanks around it, in ASCII digits. -/
def normalized (text : List Char) : List Char :=
  (((text.dropWhile isBlank).reverse.dropWhile isBlank).reverse).map asciiDigit

/-- The sign that a number starts with, as "is negative", and the rest. -/
def splitSign : List Char → Bool × List Char
  | '-' :: rest => (true, rest)
  | '+' :: rest => (false, rest)
  | rest => (false, rest)

/-- The number that ASCII digits stand for. -/
def digitsValue (digits : List Char) : Nat :=
  digits.foldl (fun n c => 10 * n + (c.toNat - '0'.toNat)) 0

/-- Removes the low lines from a text, if each stands between two digits. `afterDigit` says whether
a digit stands before the text. -/
def joinGroups? (afterDigit : Bool) : List Char → Option (List Char)
  | [] => some []
  | '_' :: c :: rest =>
    if afterDigit && isDigit c then (joinGroups? true rest).map (c :: ·) else none
  | ['_'] => none
  | c :: rest => (joinGroups? (isDigit c) rest).map (c :: ·)

/-! ## Integers -/

def readInteger (text : String) : Except NumeralFault Int :=
  let (negative, body) := splitSign (normalized text.toList)
  let continues := fun c : Char => isDigit c || c = '_'
  match joinGroups? false (body.takeWhile continues) with
  | none => .error (.notAnInteger text)
  | some digits =>
    if digitLimit < digits.length then .error (.tooManyDigits digits.length)
    else if digits.isEmpty || !(body.dropWhile continues).isEmpty then .error (.notAnInteger text)
    else
      let n : Int := digitsValue digits
      .ok (if negative then -n else n)

def writeInteger (n : Int) : Except NumeralFault String :=
  if digitLimit < (toString n.natAbs).length then .error .tooLongToWrite else .ok (toString n)

/-! ## Real numbers -/

/-- The exponent that ends a number: a letter, a sign and digits, or nothing at all. -/
def exponent? : List Char → Option Int
  | [] => some 0
  | c :: rest =>
    let (negative, digits) := splitSign rest
    if (c = 'e' || c = 'E') && !digits.isEmpty && digits.all isDigit then
      let n : Int := digitsValue digits
      some (if negative then -n else n)
    else none

def readReal (text : String) : Except NumeralFault Binary64 :=
  let fault := .error (.notAReal text)
  match joinGroups? false (normalized text.toList) with
  | none => fault
  | some body =>
    let (negative, body) := splitSign body
    let whole := body.takeWhile isDigit
    let rest := body.dropWhile isDigit
    let (fraction, rest) :=
      match rest with
      | '.' :: rest => (rest.takeWhile isDigit, rest.dropWhile isDigit)
      | rest => ([], rest)
    match exponent? rest with
    | none => fault
    | some exponent =>
      if whole.isEmpty && fraction.isEmpty then fault
      else
        let digits := digitsValue (whole ++ fraction)
        .ok ⟨negative, Binary64.ofDecimal digits (exponent - fraction.length)⟩

end Numeral

/-- A refused integer is quoted up to 200 characters. -/
def NumeralFault.message : NumeralFault → String
  | .notAnInteger text =>
    let shown := String.ofList ((Text.quoted text).toList.take 200)
    s!"invalid literal for int() with base 10: {shown}"
  | .notAReal text => s!"could not convert string to float: {Text.quoted text}"
  | .tooManyDigits count =>
    s!"Exceeds the limit (4300 digits) for integer string conversion: value has {count} digits; " ++
      "use sys.set_int_max_str_digits() to increase the limit"
  | .tooLongToWrite =>
    "Exceeds the limit (4300 digits) for integer string conversion; " ++
      "use sys.set_int_max_str_digits() to increase the limit"

end TemplateCompiler
