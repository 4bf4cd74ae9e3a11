/-
Restyle.Ascii — character classes over code points.

The lexers ask only about ASCII: a code point of 128 or more is in none
of these classes, so characters of several bytes never start or go on
with a token by accident.
-/

namespace Restyle.Ascii

/-- A decimal digit. -/
def isDigit (c : Nat) : Bool := 0x30 ≤ c && c ≤ 0x39

/-- An upper case letter. -/
def isUpper (c : Nat) : Bool := 0x41 ≤ c && c ≤ 0x5A

/-- A lower case letter. -/
def isLower (c : Nat) : Bool := 0x61 ≤ c && c ≤ 0x7A

/-- A letter or digit. -/
def isAlphanumeric (c : Nat) : Bool := isDigit c || isUpper c || isLower c

/-- A hexadecimal digit. -/
def isHexDigit (c : Nat) : Bool :=
  isDigit c || (0x41 ≤ c && c ≤ 0x46) || (0x61 ≤ c && c ≤ 0x66)

/-- An octal digit. -/
def isOctalDigit (c : Nat) : Bool := 0x30 ≤ c && c ≤ 0x37

/-- Space, tab, or a line control character. -/
def isSpace (c : Nat) : Bool := c == 0x20 || (0x09 ≤ c && c ≤ 0x0D)

/-- Whether a code point is one of the characters listed. -/
def oneOf (set : List Char) (c : Nat) : Bool := set.any (·.toNat == c)

/-- The code point in lower case, if it is an upper case letter. -/
def toLower (c : Nat) : Nat := if isUpper c then c + 32 else c

/-- The text with its ASCII letters in lower case. -/
def lowered (s : String) : String :=
  String.ofList (s.toList.map fun c => Char.ofNat (toLower c.toNat))

/-- Equality of texts up to the case of ASCII letters. -/
def eqIgnoringCase (a b : String) : Bool := lowered a == lowered b

/-! Characters that quote, by name. -/

def doubleQuote : Char := '\x22'

def singleQuote : Char := '\x27'

def backtick : Char := '\x60'

def backslash : Char := '\x5c'

end Restyle.Ascii
