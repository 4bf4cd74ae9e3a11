/-
Restyle.Toml.Lexeme — the smallest parts of a TOML document: blanks and
comments, strings, keys and numbers.

A reader takes characters and gives what it read with the rest, or none
where the text is not of its kind. Readers that loop carry a bound on
their rounds, for which the length of the text is enough.
-/
import Restyle.Ascii
import Restyle.Toml.Value

namespace Restyle.Toml

/-- Reads something from the start of a text and gives the rest. -/
abbrev Reader (α : Type) : Type := List Char → Option (α × List Char)

/-! ## Blanks, line ends and comments -/

/-- A space or a tab. -/
def isBlank (c : Char) : Bool := c == ' ' || c == '\t'

/-- The text after its blanks. -/
def skipBlanks (text : List Char) : List Char := text.dropWhile isBlank

/-- The text after one line end. -/
def lineEnd? : List Char → Option (List Char)
  | '\n' :: rest => some rest
  | '\r' :: '\n' :: rest => some rest
  | _ => none

/-- A character that may stand in a comment or, but for quotes and escapes, in a string. -/
def isText (c : Char) : Bool := c == '\t' || (0x20 ≤ c.toNat && c.toNat != 0x7F)

/-- The text after a comment, if one starts it. -/
def skipComment : List Char → List Char
  | '#' :: rest => rest.dropWhile isText
  | text => text

/-- The text after what may follow on a line: blanks, a comment, and its end or the end
of the text. -/
def finishLine? (text : List Char) : Option (List Char) :=
  match skipComment (skipBlanks text) with
  | [] => some []
  | rest => lineEnd? rest

/-- The text after blanks, line ends, and comments that end with their line. -/
def skipLines : Nat → List Char → List Char
  | 0, text => text
  | fuel + 1, text =>
    let text := skipBlanks text
    match lineEnd? (skipComment text) with
    | some rest => skipLines fuel rest
    | none => text

/-! ## Strings -/

/-- The value of a digit in bases up to sixteen. -/
def digitValue (c : Char) : Nat :=
  if Ascii.isDigit c.toNat then c.toNat - 0x30 else Ascii.toLower c.toNat - 0x61 + 10

/-- The number that digits stand for. -/
def digitsValue (base : Nat) (digits : List Char) : Nat :=
  digits.foldl (fun n c => n * base + digitValue c) 0

/-- Exactly `count` hexadecimal digits, as a character. -/
def codePoint (count : Nat) : Reader Char := fun text =>
  let digits := text.take count
  let n := digitsValue 16 digits
  if digits.length = count ∧ digits.all (fun c => Ascii.isHexDigit c.toNat) ∧ n.isValidChar then
    some (Char.ofNat n, text.drop count)
  else none

/-- What stands after a backslash. -/
def escape : Reader Char
  | 'b' :: rest => some ('\x08', rest)
  | 't' :: rest => some ('\t', rest)
  | 'n' :: rest => some ('\n', rest)
  | 'f' :: rest => some ('\x0c', rest)
  | 'r' :: rest => some ('\r', rest)
  | '\x22' :: rest => some ('\x22', rest)
  | '\\' :: rest => some ('\\', rest)
  | 'u' :: rest => codePoint 4 rest
  | 'U' :: rest => codePoint 8 rest
  | _ => none

/-- Puts characters in front of what was read. -/
def prepend (front : List Char) (read : Option (List Char × List Char)) :
    Option (List Char × List Char) :=
  read.map fun (text, rest) => (front ++ text, rest)

/-- The rest of a string in double quotes. -/
def basicRest : Nat → Reader (List Char)
  | 0, _ => none
  | _, [] => none
  | fuel + 1, c :: rest =>
    if c = '\x22' then some ([], rest)
    else if c = '\\' then
      match escape rest with
      | some (e, rest) => prepend [e] (basicRest fuel rest)
      | none => none
    else if isText c then prepend [c] (basicRest fuel rest)
    else none

/-- The rest of a string in single quotes. -/
def literalRest : Reader (List Char)
  | [] => none
  | c :: rest =>
    if c = '\x27' then some ([], rest)
    else if isText c then prepend [c] (literalRest rest)
    else none

/-- Whether a backslash before this text joins lines: blanks and a line end follow. -/
def joinsLines (text : List Char) : Bool := (lineEnd? (skipBlanks text)).isSome

/-- The text after blanks and line ends. -/
def skipBlankLines : Nat → List Char → List Char
  | 0, text => text
  | fuel + 1, text =>
    match lineEnd? (skipBlanks text) with
    | some rest => skipBlankLines fuel rest
    | none => skipBlanks text

/-- The rest of a string in three quotes `q`, with escapes if it is in double quotes. One
or two quotes are text; of three or more the last three close it, and at most two stand
before those. -/
def multiLineRest (q : Char) : Nat → Reader (List Char)
  | 0, _ => none
  | _, [] => none
  | fuel + 1, c :: rest =>
    if c = q then
      let run := 1 + (rest.takeWhile (· == q)).length
      if 3 ≤ run then some (List.replicate (min run 5 - 3) q, (c :: rest).drop (min run 5))
      else prepend (List.replicate run q) (multiLineRest q fuel ((c :: rest).drop run))
    else if c = '\\' ∧ q = '\x22' then
      if joinsLines rest then multiLineRest q fuel (skipBlankLines rest.length rest)
      else
        match escape rest with
        | some (e, rest) => prepend [e] (multiLineRest q fuel rest)
        | none => none
    else
      match lineEnd? (c :: rest) with
      | some rest => prepend ['\n'] (multiLineRest q fuel rest)
      | none => if isText c then prepend [c] (multiLineRest q fuel rest) else none

/-- The text after a line end, if one starts it. -/
def skipLineEnd (text : List Char) : List Char := (lineEnd? text).getD text

/-- A string of any kind. -/
def string : Reader String := fun text =>
  let read :=
    match text with
    | '\x22' :: '\x22' :: '\x22' :: rest => multiLineRest '\x22' text.length (skipLineEnd rest)
    | '\x27' :: '\x27' :: '\x27' :: rest => multiLineRest '\x27' text.length (skipLineEnd rest)
    | '\x22' :: rest => basicRest text.length rest
    | '\x27' :: rest => literalRest rest
    | _ => none
  read.map fun (s, rest) => (String.ofList s, rest)

/-! ## Keys -/

/-- One part of a key: bare, or a string on one line. -/
def keyPart : Reader String := fun text =>
  match text with
  | '\x22' :: rest => (basicRest text.length rest).map fun (s, rest) => (String.ofList s, rest)
  | '\x27' :: rest => (literalRest rest).map fun (s, rest) => (String.ofList s, rest)
  | _ =>
    match text.takeWhile isBareChar with
    | [] => none
    | name => some (String.ofList name, text.dropWhile isBareChar)

/-- Parts with dots between them and blanks around each. -/
def keyParts : Nat → Reader (List String)
  | 0, _ => none
  | fuel + 1, text =>
    match keyPart (skipBlanks text) with
    | none => none
    | some (part, rest) =>
      match skipBlanks rest with
      | '.' :: rest => (keyParts fuel rest).map fun (parts, rest) => (part :: parts, rest)
      | rest => some ([part], rest)

/-- The most levels that values or keys may nest, plus one. -/
def depthLimit : Nat := 80

/-- A key as the path of its parts. -/
def key : Reader (List String) := fun text =>
  match keyParts (text.length + 1) text with
  | some (parts, rest) => if parts.length < depthLimit then some (parts, rest) else none
  | none => none

/-! ## Numbers -/

/-- The rest of a run of digits, in which single underscores may stand between digits. -/
def digitsRest (isDigit : Char → Bool) : Nat → List Char → List Char × List Char
  | 0, text => ([], text)
  | fuel + 1, text =>
    match text with
    | '_' :: c :: rest =>
      if isDigit c then
        let (digits, rest) := digitsRest isDigit fuel rest
        (c :: digits, rest)
      else ([], text)
    | c :: rest =>
      if isDigit c then
        let (digits, rest) := digitsRest isDigit fuel rest
        (c :: digits, rest)
      else ([], text)
    | [] => ([], [])

/-- One or more digits. -/
def digits (isDigit : Char → Bool) : Reader (List Char)
  | c :: rest =>
    if isDigit c then
      let (more, rest) := digitsRest isDigit rest.length rest
      some (c :: more, rest)
    else none
  | [] => none

/-- A decimal digit. -/
def isDecimal (c : Char) : Bool := Ascii.isDigit c.toNat

/-- A sign, whether it is a minus, and the text after it. -/
def sign : List Char → Bool × List Char
  | '-' :: rest => (true, rest)
  | '+' :: rest => (false, rest)
  | rest => (false, rest)

/-- Decimal digits without leading zeros. -/
def decimalDigits : Reader (List Char)
  | '0' :: rest => some (['0'], rest)
  | text => digits isDecimal text

/-- An integer if it fits into 64 bits. -/
def integerOf? (negative : Bool) (n : Nat) : Option Value :=
  if negative then if n ≤ 0x8000000000000000 then some (.integer (-n)) else none
  else if n < 0x8000000000000000 then some (.integer n) else none

/-- An integer with a prefix that names its base. -/
def integerInBase (base : Nat) (isDigit : Char → Bool) : Reader Value := fun text =>
  match digits isDigit text with
  | some (ds, rest) => (integerOf? false (digitsValue base ds)).map (·, rest)
  | none => none

/-- The digits after a decimal point, if one stands here. -/
def fraction (text : List Char) : Option (List Char × List Char) :=
  match text with
  | '.' :: rest => digits isDecimal rest
  | _ => some ([], text)

/-- The exponent, if one stands here. -/
def exponent (text : List Char) : Option (Option Int × List Char) :=
  match text with
  | c :: rest =>
    if c = 'e' ∨ c = 'E' then
      let (negative, rest) := sign rest
      (digits isDecimal rest).map fun (ds, rest) =>
        let n : Int := digitsValue 10 ds
        (some (if negative then -n else n), rest)
    else some (none, text)
  | [] => some (none, [])

/-- A decimal number: an integer, or a float if it has a fraction or an exponent. A
float must not be too large upwards. -/
def decimal (negative : Bool) : Reader Value := fun text =>
  match decimalDigits text with
  | none => none
  | some (whole, afterWhole) =>
    match fraction afterWhole with
    | none => none
    | some (part, afterPart) =>
      match exponent afterPart with
      | none => none
      | some (e, rest) =>
        if part = [] ∧ e = none then
          (integerOf? negative (digitsValue 10 whole)).map (·, rest)
        else
          let x := Binary64.ofDecimal negative (digitsValue 10 (whole ++ part))
            (e.getD 0 - part.length)
          if x = .infinite false then none else some (.float x, rest)

/-- A number of any kind. -/
def number : Reader Value := fun text =>
  match text with
  | '0' :: 'x' :: rest => integerInBase 16 (fun c => Ascii.isHexDigit c.toNat) rest
  | '0' :: 'o' :: rest => integerInBase 8 (fun c => Ascii.isOctalDigit c.toNat) rest
  | '0' :: 'b' :: rest => integerInBase 2 (fun c => c == '0' || c == '1') rest
  | _ =>
    let (negative, rest) := sign text
    match rest with
    | 'i' :: 'n' :: 'f' :: rest => some (.float (.infinite negative), rest)
    | 'n' :: 'a' :: 'n' :: rest => some (.float .nan, rest)
    | _ => decimal negative rest

/-- A truth value. -/
def boolean : Reader Value
  | 't' :: 'r' :: 'u' :: 'e' :: rest => some (.boolean true, rest)
  | 'f' :: 'a' :: 'l' :: 's' :: 'e' :: rest => some (.boolean false, rest)
  | _ => none

/-- A value that holds no others. -/
def scalar : Reader Value := fun text =>
  match string text with
  | some (s, rest) => some (.string s, rest)
  | none =>
    match boolean text with
    | some read => some read
    | none => number text

end Restyle.Toml
