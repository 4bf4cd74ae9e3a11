/-
Restyle.Text.Quoted — a text in double quotes, on one line and without
invisible characters.

The quote and the backslash are escaped with a backslash, and so are line
feed, carriage return, tab and null by a letter or digit each. Any other
character that does not print by itself, or that would attach to the one
before it, is written by its code point in hexadecimal. A single quote
stands as it is.
-/
import Restyle.Unicode.GraphemeExtend
import Restyle.Unicode.Printable

namespace Restyle.Quoted

/-- A number in lower case hexadecimal, without leading zeros. -/
def hex (n : Nat) : List Char := Nat.toDigits 16 n

/-- How one character is written. -/
def encodeChar (c : Char) : List Char :=
  if c = '\x22' then ['\\', '\x22']
  else if c = '\\' then ['\\', '\\']
  else if c = '\n' then ['\\', 'n']
  else if c = '\r' then ['\\', 'r']
  else if c = '\t' then ['\\', 't']
  else if c = '\x00' then ['\\', '0']
  else if Unicode.isGraphemeExtend c || !Unicode.isPrintable c then
    ['\\', 'u', '\x7b'] ++ hex c.toNat ++ ['\x7d']
  else [c]

/-- The quoted form of a text. -/
def encode (s : String) : String :=
  String.ofList (['\x22'] ++ s.toList.flatMap encodeChar ++ ['\x22'])

end Restyle.Quoted
