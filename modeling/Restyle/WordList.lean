/-
Restyle.WordList — sets of words, matched by their exact text.

A list is written as words between white space, as property files do.
It is kept in order and without repetition, so two lists of the same
words are equal.
-/
import Restyle.Unicode.WhiteSpace

namespace Restyle

/-- A set of words, in increasing order. -/
structure WordList where
  words : List String
  deriving DecidableEq, Repr, Inhabited

namespace WordList

/-- The list of no words. -/
def empty : WordList := ⟨[]⟩

/-- Puts a word into its place among words in order, once. -/
def insertWord (w : String) : List String → List String
  | [] => [w]
  | x :: xs =>
    if w = x then x :: xs
    else if w < x then w :: x :: xs
    else x :: insertWord w xs

/-- The words of a text. -/
def ofText (text : String) : WordList := ⟨(Unicode.words text).foldr insertWord []⟩

/-- Whether the exact word is listed. -/
def contains (l : WordList) (w : String) : Bool := l.words.contains w

/-- Number of words. -/
def size (l : WordList) : Nat := l.words.length

/-- Whether there are no words. -/
def isEmpty (l : WordList) : Bool := l.words.isEmpty

end WordList

end Restyle
