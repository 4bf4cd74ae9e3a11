/-
Restyle.Token — the classes a highlighter puts bytes into.

One list covers both grammars; each uses a part of it. A token has a
stable number, under which hosts store it, and a name, under which
reports show it.
-/

namespace Restyle

/-- What a run of bytes is. -/
inductive Token where
  /-- White space and everything unrecognised. -/
  | plain
  /-- A name found in no word list. -/
  | identifier
  | keyword
  | number
  /-- Text in double quotes. -/
  | string
  /-- A character literal. -/
  | char
  /-- Operators and punctuation. -/
  | operator
  /-- A capitalised name: constructor or type. -/
  | capital
  /-- A module name after `import` or `module`. -/
  | moduleName
  /-- A comment that ends with its line. -/
  | lineComment
  /-- A comment that nests. -/
  | blockComment
  | pragma
  /-- A preprocessor line. -/
  | directive
  /-- A function of the base or default packages. -/
  | baseFunction
  /-- A function of another package. -/
  | otherFunction
  /-- Text in single quotes. -/
  | singleQuoted
  /-- A name in backticks. -/
  | backticked
  /-- An operator between percent signs. -/
  | percentOperator
  /-- A percent operator that its line leaves open. -/
  | openPercentOperator
  /-- A raw string in double quotes. -/
  | rawString
  /-- A raw string in single quotes. -/
  | rawSingleQuoted
  deriving DecidableEq, Repr, Inhabited

namespace Token

/-- Every token, in the order of their numbers. -/
def all : List Token :=
  [plain, identifier, keyword, number, string, char, operator, capital, moduleName,
   lineComment, blockComment, pragma, directive, baseFunction, otherFunction, singleQuoted,
   backticked, percentOperator, openPercentOperator, rawString, rawSingleQuoted]

/-- The number a host stores. -/
def id : Token → Nat
  | plain => 0
  | identifier => 1
  | keyword => 2
  | number => 3
  | string => 4
  | char => 5
  | operator => 6
  | capital => 7
  | moduleName => 8
  | lineComment => 9
  | blockComment => 10
  | pragma => 11
  | directive => 12
  | baseFunction => 13
  | otherFunction => 14
  | singleQuoted => 15
  | backticked => 16
  | percentOperator => 17
  | openPercentOperator => 18
  | rawString => 19
  | rawSingleQuoted => 20

/-- The token with a stored number; unknown numbers are plain text. -/
def ofId (n : Nat) : Token := all.getD n plain

/-- The name in reports. -/
def name : Token → String
  | plain => "Default"
  | identifier => "Identifier"
  | keyword => "Keyword"
  | number => "Number"
  | string => "String"
  | char => "Char"
  | operator => "Operator"
  | capital => "Capital"
  | moduleName => "Module"
  | lineComment => "CommentLine"
  | blockComment => "CommentBlock"
  | pragma => "Pragma"
  | directive => "Preprocessor"
  | baseFunction => "BaseKeyword"
  | otherFunction => "OtherKeyword"
  | singleQuoted => "String2"
  | backticked => "Backticks"
  | percentOperator => "Infix"
  | openPercentOperator => "InfixEol"
  | rawString => "RawString"
  | rawSingleQuoted => "RawString2"

/-- The token of a name, exactly as reports spell it. -/
def ofName? (s : String) : Option Token := all.find? (·.name == s)

/-- Comments of either kind. -/
def isComment (k : Token) : Bool := k == lineComment || k == blockComment

theorem ofId_id (k : Token) : ofId k.id = k := by cases k <;> rfl

end Token

end Restyle
