import TemplateCompiler.Number.Numeral
import TemplateCompiler.Number.Shortest
import TemplateCompiler.Text.Quoted

/-!
# Configuration values

The values that a TOML document can hold, and their text. A configuration takes text from values of
every kind: a string is its own text, and other values have the text that is shown here. Inside an
array or a table strings are quoted and dates are written as constructions. An integer with too many
digits has no text, and neither has what holds one.
-/

namespace TemplateCompiler.Toml

/-! ## Dates and times -/

structure Date where
  year : Nat
  month : Nat
  day : Nat
deriving DecidableEq

structure Time where
  hour : Nat
  minute : Nat
  second : Nat
  microsecond : Nat
deriving DecidableEq

/-- An offset from universal time in minutes, if one is given. -/
abbrev Offset := Option Int

inductive Moment where
  | date (d : Date)
  | time (t : Time)
  | dateTime (d : Date) (t : Time) (offset : Offset)
deriving DecidableEq

/-- A number in decimal, padded with zeros. -/
def padded (width n : Nat) : String :=
  let digits := Nat.toDigits 10 n
  String.ofList (List.replicate (width - digits.length) '0' ++ digits)

def Date.display (d : Date) : String :=
  s!"{padded 4 d.year}-{padded 2 d.month}-{padded 2 d.day}"

/-- A fraction of a second has six digits, or is left out when it is zero. -/
def Time.display (t : Time) : String :=
  s!"{padded 2 t.hour}:{padded 2 t.minute}:{padded 2 t.second}" ++
    if t.microsecond = 0 then "" else "." ++ padded 6 t.microsecond

def displayOffset : Offset → String
  | none => ""
  | some minutes =>
    (if minutes < 0 then "-" else "+") ++ padded 2 (minutes.natAbs / 60) ++ ":" ++
      padded 2 (minutes.natAbs % 60)

namespace Moment

/-- The type that a moment has in messages. -/
def typeName : Moment → String
  | .date _ => "datetime.date"
  | .time _ => "datetime.time"
  | .dateTime _ _ _ => "datetime.datetime"

def display : Moment → String
  | .date d => d.display
  | .time t => t.display
  | .dateTime d t offset => s!"{d.display} {t.display}" ++ displayOffset offset

/-- The fields of a time. Of the last two, those at the end that are zero are left out. -/
def timeFields (t : Time) : List Nat :=
  [t.hour, t.minute] ++
    (if t.microsecond ≠ 0 then [t.second, t.microsecond]
     else if t.second ≠ 0 then [t.second] else [])

/-- An offset as a construction: a negative one as a day less, and the rest of that day. -/
def offsetField : Offset → List String
  | none => []
  | some minutes =>
    let zone :=
      if minutes = 0 then "datetime.timezone.utc"
      else
        let delta :=
          if minutes < 0 then s!"days=-1, seconds={86400 + minutes * 60}"
          else s!"seconds={minutes * 60}"
        s!"datetime.timezone(datetime.timedelta({delta}))"
    [s!"tzinfo={zone}"]

def construction (m : Moment) : String :=
  let fields :=
    match m with
    | .date d => [d.year, d.month, d.day].map toString
    | .time t => (timeFields t).map toString
    | .dateTime d t offset =>
      ([d.year, d.month, d.day] ++ timeFields t).map toString ++ offsetField offset
  let arguments := ", ".intercalate fields
  s!"{m.typeName}({arguments})"

end Moment

/-! ## Values -/

inductive Value where
  /-- No value. A document holds none of these, but a table from elsewhere can. -/
  | nothing
  | string (s : String)
  | integer (n : Int)
  | real (x : Binary64)
  | notANumber
  | boolean (b : Bool)
  | moment (m : Moment)
  | array (items : List Value)
  | table (fields : List (String × Value))

namespace Value

mutual

/-- A value inside an array or a table. -/
def nested : Value → Except NumeralFault String
  | .nothing => .ok "None"
  | .string s => .ok (Text.quoted s)
  | .integer n => Numeral.writeInteger n
  | .real x => .ok x.toText
  | .notANumber => .ok "nan"
  | .boolean b => .ok (if b then "True" else "False")
  | .moment m => .ok m.construction
  | .array items => do return "[" ++ ", ".intercalate (← nestedItems items) ++ "]"
  | .table fields => do return "\x7b" ++ ", ".intercalate (← nestedFields fields) ++ "\x7d"

def nestedItems : List Value → Except NumeralFault (List String)
  | [] => .ok []
  | v :: vs => do return (← v.nested) :: (← nestedItems vs)

def nestedFields : List (String × Value) → Except NumeralFault (List String)
  | [] => .ok []
  | (k, v) :: rest => do
    return (Text.quoted k ++ ": " ++ (← v.nested)) :: (← nestedFields rest)

end

/-- The text of a value. -/
def display : Value → Except NumeralFault String
  | .string s => .ok s
  | .moment m => .ok m.display
  | v => v.nested

def field? (name : String) : Value → Option Value
  | .table fields => fields.lookup name
  | _ => none

/-- The type that a value has in messages. -/
def typeName : Value → String
  | .nothing => "NoneType"
  | .string _ => "str"
  | .integer _ => "int"
  | .real _ | .notANumber => "float"
  | .boolean _ => "bool"
  | .moment m => m.typeName
  | .array _ => "list"
  | .table _ => "dict"

end Value

end TemplateCompiler.Toml
