/-
# Text.Quoted -- text in double quotes

Messages quote names and paths so that every character can be seen.  A double
quote, a backslash and the four common controls have two-character escapes, any
other character that cannot be shown is written as its code point in braces, and
the rest stands for itself.
-/
import NetRegistry.Text.Numeral
import NetRegistry.Text.Printable

namespace NetRegistry.Text

set_option autoImplicit false

/-- How a character is written inside quotes. -/
def quoteChar (c : Char) : List Char :=
  if c = '\x00' then ['\\', '0']
  else if c = '\t' then ['\\', 't']
  else if c = '\r' then ['\\', 'r']
  else if c = '\n' then ['\\', 'n']
  else if c = '"' then ['\\', '"']
  else if c = '\\' then ['\\', '\\']
  else if isPrintable c then [c]
  else ['\\', 'u', '\x7b'] ++ numeral 16 c.toNat ++ ['\x7d']

def quoted (s : String) : String :=
  String.ofList ('"' :: s.toList.flatMap quoteChar ++ ['"'])

end NetRegistry.Text
