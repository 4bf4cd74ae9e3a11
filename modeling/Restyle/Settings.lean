/-
Restyle.Settings — named switches over a record of options.

A lexer keeps its options in a plain record. Its `Property` list says
under which names they can be read, described and set from text. The
text of a switch is one of a few words in any case, with or without
white space around it.
-/
import Restyle.Error
import Restyle.Unicode.LowerCase
import Restyle.Unicode.WhiteSpace

namespace Restyle

/-- The switch that a text stands for, if it stands for one. -/
def parseSwitch (text : String) : Option Bool :=
  let word := Unicode.toLower (Unicode.trim text)
  if ["true", "yes", "on", "1"].contains word then some true
  else if ["false", "no", "off", "0", ""].contains word then some false
  else none

/-- A named switch among the options `σ`. -/
structure Property (σ : Type) where
  name : String
  description : String
  get : σ → Bool
  set : Bool → σ → σ

namespace Property

variable {σ : Type}

/-- The property of a name. -/
def find? (properties : List (Property σ)) (name : String) : Option (Property σ) :=
  properties.find? (·.name == name)

/-- Sets the property of a name from text. -/
def assign (properties : List (Property σ)) (options : σ) (name value : String) :
    Except Error σ :=
  match find? properties name with
  | none => .error (.unknownProperty name)
  | some p =>
    match parseSwitch value with
    | none => .error (.invalidValue name value)
    | some on => .ok (p.set on options)

end Property

end Restyle
