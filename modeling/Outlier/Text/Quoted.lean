import Outlier.Text.Digits
import Outlier.Text.Printable

/-! # Quoted text

The form in which names and values are shown inside messages: between double quotes, with a
backslash before a quote or a backslash, short escapes for the common controls, and the code
point in lower-case hexadecimal for every other character that cannot be shown as it is. -/

namespace Outlier.Text

/-- One character of quoted text. -/
def escape (c : Char) : List Char :=
  if c = '"' then ['\\', '"']
  else if c = '\\' then ['\\', '\\']
  else if c = '\n' then ['\\', 'n']
  else if c = '\r' then ['\\', 'r']
  else if c = '\t' then ['\\', 't']
  else if c = '\x00' then ['\\', '0']
  else if isPrintable c then [c]
  else ['\\', 'u', '{'] ++ hexDigits c.toNat ++ ['}']

/-- The text between quotes, with escapes. -/
def quoted (s : String) : String :=
  String.ofList (['"'] ++ s.toList.flatMap escape ++ ['"'])

end Outlier.Text
