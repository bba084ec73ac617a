import Intendant.Text.Hex
import Intendant.Text.Shown

/-! # Quoted text for logs

Names in log lines and in labels that have no wire form stand between double quotes. A quote, a backslash
and the usual control characters get a backslash, and any other character that does not show is written by
its code point in hexadecimal. -/

namespace Intendant.Text

/-- How one character is written inside quotes. -/
def quotedChar (c : Char) : List Char :=
  if c = '\x00' then ['\\', '0']
  else if c = '\t' then ['\\', 't']
  else if c = '\r' then ['\\', 'r']
  else if c = '\n' then ['\\', 'n']
  else if c = '\\' then ['\\', '\\']
  else if c = '"' then ['\\', '"']
  else if shows c then [c]
  else ['\\', 'u', '\x7b'] ++ hexDigits c.toNat ++ ['\x7d']

/-- A text between quotes, as a log shows it. -/
def quoted (s : List Char) : List Char := '"' :: s.flatMap quotedChar ++ ['"']

end Intendant.Text
