import TemplateCompiler.Number.Binary64

/-!
# The shortest decimal of a floating-point value

A value is written with the fewest decimal digits that round back to it, and of the candidates with
that many digits with the one nearest to the value. The reals that round to a value form an
interval; on each decimal grid, from coarse to fine, only the two points around the value are
tried, since if any point of the grid lies in the interval, one of those two does.
-/

namespace TemplateCompiler.Shortest

/-! ## The digits -/

/-- The interval of reals that round to a finite value, as fractions over one denominator: lower
end, value, upper end, denominator, and whether the ends belong to it. -/
structure Interval where
  low : Nat
  value : Nat
  high : Nat
  den : Nat
  closed : Bool

/-- The gap to the next smaller value is half as wide below a power of two. -/
def interval (significand : Nat) (exponent : Int) : Interval :=
  let narrow :=
    significand = Nat.pow 2 (Binary64.precision - 1) && Binary64.leastExponent < exponent
  let scale := fun quarter : Nat => (Binary64.scaled quarter 4 exponent).1
  { low := scale (4 * significand - if narrow then 1 else 2)
    value := scale (4 * significand)
    high := scale (4 * significand + 2)
    den := (Binary64.scaled 1 4 exponent).2
    closed := significand % 2 = 0 }

/-- `n * 10 ^ k` over the interval's denominator compares with its ends, which are multiplied by
`unit` where `k` is negative. -/
structure Grid where
  step : Nat
  unit : Nat

def grid (i : Interval) (k : Int) : Grid :=
  if 0 ≤ k then ⟨i.den * Nat.pow 10 k.toNat, 1⟩ else ⟨i.den, Nat.pow 10 (-k).toNat⟩

def Interval.holds (i : Interval) (g : Grid) (n : Nat) : Bool :=
  let point := n * g.step
  let low := i.low * g.unit
  let high := i.high * g.unit
  if i.closed then low ≤ point && point ≤ high else low < point && point < high

/-- The point of the grid of `10 ^ k` that stands for the value, if one does. Of two points the
nearer is taken, and of two equally near ones the even. -/
def onGrid? (i : Interval) (k : Int) : Option Nat :=
  let g := grid i k
  let value := i.value * g.unit
  let below := value / g.step
  let rest := value % g.step
  match i.holds g below, i.holds g (below + 1) with
  | true, true =>
    if 2 * rest < g.step || (2 * rest = g.step && below % 2 = 0) then some below
    else some (below + 1)
  | true, false => some below
  | false, true => some (below + 1)
  | false, false => none

/-- The least `k` with `value < 10 ^ k`, found by counting up from a bound. -/
def decimalSize (i : Interval) : Nat → Int → Int
  | 0, k => k
  | fuel + 1, k =>
    let g := grid i k
    if i.value * g.unit < g.step then k else decimalSize i fuel (k + 1)

/-- The first of the grids from `10 ^ k` down that has a point for the value. -/
def firstGrid (i : Interval) : Nat → Int → Nat × Int
  | 0, k => ((onGrid? i k).getD 0, k)
  | fuel + 1, k =>
    match onGrid? i k with
    | some n => (n, k)
    | none => firstGrid i fuel (k - 1)

/-- The shortest decimal of a positive finite value, as `digits * 10 ^ exponent`. -/
def decimal (significand : Nat) (exponent : Int) : Nat × Int :=
  let i := interval significand exponent
  firstGrid i 20 (decimalSize i 700 (-330))

/-! ## The layout -/

/-- Digits without the zeros at their end, and how many those were. -/
def withoutTrailingZeros (digits : List Char) : List Char × Nat :=
  let zeros := (digits.reverse.takeWhile (· = '0')).length
  (digits.take (digits.length - zeros), zeros)

def zeros (n : Nat) : List Char :=
  List.replicate n '0'

/-- Positional between `10 ^ -4` and `10 ^ 16`, always with a point; else with an exponent of at
least two digits, and a point only if digits follow it. -/
def layout (digits : List Char) (exponent : Int) : List Char :=
  let (digits, dropped) := withoutTrailingZeros digits
  let exponent := exponent + dropped
  let leading : Int := exponent + digits.length - 1
  if leading < -4 || 16 ≤ leading then
    let mantissa :=
      match digits with
      | [] => []
      | [d] => [d]
      | d :: rest => d :: '.' :: rest
    let size := Nat.toDigits 10 leading.natAbs
    mantissa ++ ['e', if leading < 0 then '-' else '+'] ++ zeros (2 - size.length) ++ size
  else if 0 ≤ exponent then
    digits ++ zeros exponent.toNat ++ ['.', '0']
  else if leading < 0 then
    '0' :: '.' :: (zeros (-leading - 1).toNat ++ digits)
  else
    let whole := (leading + 1).toNat
    digits.take whole ++ '.' :: digits.drop whole

def magnitude : Magnitude → List Char
  | .infinite => "inf".toList
  | .finite 0 _ => "0.0".toList
  | .finite significand exponent =>
    let (n, k) := decimal significand exponent
    layout (Nat.toDigits 10 n) k

end TemplateCompiler.Shortest

namespace TemplateCompiler

/-- The text of a floating-point value. -/
def Binary64.toText (x : Binary64) : String :=
  String.ofList ((if x.negative then ['-'] else []) ++ Shortest.magnitude x.magnitude)

end TemplateCompiler
