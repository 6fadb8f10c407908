/-!
# Binary floating point

A value of the 64-bit format is kept as what it stands for, a sign and `significand * 2 ^ exponent`,
in exact integers. A decimal is rounded to the nearest such value, and of two equally near ones to
the one with the even significand.
-/

namespace TemplateCompiler

/-- The size of a floating-point value. -/
inductive Magnitude where
  /-- `significand * 2 ^ exponent`. The significand lies below `2 ^ 53`, and from `2 ^ 52` on unless
  the exponent is the least one, so that each value is written in one way. -/
  | finite (significand : Nat) (exponent : Int)
  | infinite
deriving DecidableEq

structure Binary64 where
  negative : Bool
  magnitude : Magnitude
deriving DecidableEq

namespace Binary64

/-- Significands have at most this many bits. -/
def precision : Nat := 53

def leastExponent : Int := -1074

def greatestExponent : Int := 971

/-- A fraction of natural numbers times a power of two, as one fraction. -/
def scaled (num den : Nat) (exponent : Int) : Nat × Nat :=
  if 0 ≤ exponent then (num * Nat.pow 2 exponent.toNat, den)
  else (num, den * Nat.pow 2 (-exponent).toNat)

/-- The quotient to the nearest integer, a half to the even neighbour. -/
def roundDiv (num den : Nat) : Nat :=
  let q := num / den
  let twice := 2 * (num % den)
  if twice < den || (twice = den && q % 2 = 0) then q else q + 1

/-- The exponent at which `num / den` has a significand of full precision, or the least exponent. -/
def exponentOf (num den : Nat) : Int :=
  let guess : Int := (Nat.log2 num : Int) - Nat.log2 den - precision
  let (n, d) := scaled num den (-guess)
  max (if n < d * Nat.pow 2 precision then guess else guess + 1) leastExponent

/-- The magnitude nearest to `num / den`. -/
def nearest (num den : Nat) : Magnitude :=
  if num = 0 then .finite 0 leastExponent
  else
    let exponent := exponentOf num den
    let (n, d) := scaled num den (-exponent)
    let significand := roundDiv n d
    let (significand, exponent) :=
      if significand = Nat.pow 2 precision then (Nat.pow 2 (precision - 1), exponent + 1)
      else (significand, exponent)
    if greatestExponent < exponent then .infinite else .finite significand exponent

/-- The magnitude nearest to `digits * 10 ^ exponent`. What lies far outside the range of the format
is settled by the number of digits alone. -/
def ofDecimal (digits : Nat) (exponent : Int) : Magnitude :=
  let size : Int := (Nat.toDigits 10 digits).length + exponent
  if digits = 0 || size < -400 then .finite 0 leastExponent
  else if 400 < size then .infinite
  else if 0 ≤ exponent then nearest (digits * Nat.pow 10 exponent.toNat) 1
  else nearest digits (Nat.pow 10 (-exponent).toNat)

end Binary64

end TemplateCompiler
