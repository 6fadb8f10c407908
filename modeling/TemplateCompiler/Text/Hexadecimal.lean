/-!
# Hexadecimal digits

Escapes of several kinds write a number in hexadecimal digits: those of quoted text and of
percent-encoded addresses, and the ones that TOML strings are written with.
-/

namespace TemplateCompiler.Text

/-- The lower-case hexadecimal digits of `n`, padded with zeros to `width`. -/
def hexDigits (width n : Nat) : List Char :=
  let digits := Nat.toDigits 16 n
  List.replicate (width - digits.length) '0' ++ digits

def isHexDigit (c : Char) : Bool :=
  c.isDigit || ('a' ≤ c && c ≤ 'f') || ('A' ≤ c && c ≤ 'F')

/-- The number that hexadecimal digits of either case stand for. -/
def hexValue (digits : List Char) : Nat :=
  digits.foldl (fun n c =>
    16 * n +
      if c.isDigit then c.toNat - '0'.toNat
      else if 'a' ≤ c then c.toNat - 'a'.toNat + 10
      else c.toNat - 'A'.toNat + 10) 0

end TemplateCompiler.Text
