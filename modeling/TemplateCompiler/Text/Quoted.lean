import TemplateCompiler.Text.Hexadecimal
import TemplateCompiler.Text.Properties

/-!
# Quoted text

Outlines and messages show a piece of text between quotes, in a form that holds no line break and no
invisible character. The quote is `'`, or `"` when the text holds the first and not the second, so
that most texts need no escaped quote at all.
-/

namespace TemplateCompiler.Text

namespace Quoted

/-- The quote that goes around a text. -/
def delimiter (text : List Char) : Char :=
  if text.contains '\'' && !text.contains '"' then '"' else '\''

/-- The numeric escape of a character: two, four or eight hexadecimal digits, the fewest that
hold it. -/
def numericEscape (c : Char) : List Char :=
  let n := c.toNat
  if n < 0x100 then '\\' :: 'x' :: hexDigits 2 n
  else if n < 0x10000 then '\\' :: 'u' :: hexDigits 4 n
  else '\\' :: 'U' :: hexDigits 8 n

def escape (quote c : Char) : List Char :=
  if c = quote || c = '\\' then ['\\', c]
  else if c = '\n' then ['\\', 'n']
  else if c = '\r' then ['\\', 'r']
  else if c = '\t' then ['\\', 't']
  else if isPrintable c then [c]
  else numericEscape c

def encode (text : List Char) : List Char :=
  let quote := delimiter text
  quote :: (text.flatMap (escape quote) ++ [quote])

end Quoted

/-- The text between quotes, with whatever cannot be shown escaped. -/
def quoted (text : String) : String :=
  String.ofList (Quoted.encode text.toList)

end TemplateCompiler.Text
