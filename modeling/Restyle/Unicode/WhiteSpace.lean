/-
Restyle.Unicode.WhiteSpace — the Unicode property White_Space, and the
two operations on text that depend on it: cutting it off at both ends
and splitting into words.
-/

namespace Restyle.Unicode

/-- The characters of property White_Space. The zero width space and the
byte order mark are not among them. -/
def isWhiteSpace (c : Char) : Bool :=
  let n := c.toNat
  (0x09 ≤ n && n ≤ 0x0D) || n == 0x20 || n == 0x85 || n == 0xA0 || n == 0x1680
    || (0x2000 ≤ n && n ≤ 0x200A) || n == 0x2028 || n == 0x2029 || n == 0x202F
    || n == 0x205F || n == 0x3000

/-- The text without white space at its ends. -/
def trim (s : String) : String :=
  String.ofList ((s.toList.dropWhile isWhiteSpace).reverse.dropWhile isWhiteSpace).reverse

/-- The words of a text: its maximal pieces without white space. -/
def words (s : String) : List String :=
  ((s.toList.splitOnP isWhiteSpace).filter (· ≠ [])).map String.ofList

end Restyle.Unicode
