/-
Restyle.Pattern — patterns for the first lines of files.

A pattern is written in the usual way: characters for themselves, `.` for
any but the line feed, `^` and `$` for the ends of the text, `\b` for a
word boundary, a backslash before a mark for the mark itself, brackets to
group, bars between alternatives, and `*`, `+` and `?` after what may
repeat or be absent. What does not follow these rules is no pattern.

`ends` gives every position where a match that starts at a position can
end, so matching is a question about finite sets.
-/
import Restyle.Unicode.WordCharacter

namespace Restyle

/-- A pattern for text. -/
inductive Pattern where
  | empty
  | char (c : Char)
  /-- Any character but the line feed. -/
  | any
  | textStart
  | textEnd
  | wordBoundary
  | seq (first second : Pattern)
  | either (first second : Pattern)
  | star (body : Pattern)
  deriving DecidableEq, Repr, Inhabited

namespace Pattern

/-! ## Matching -/

/-- Whether a word character stands at `i`. -/
def isWordAt (text : Array Char) (i : Nat) : Bool :=
  match text[i]? with
  | some c => Unicode.isWordCharacter c
  | none => false

/-- Whether a word starts or ends before `i`. -/
def isBoundary (text : Array Char) (i : Nat) : Bool :=
  (0 < i && isWordAt text (i - 1)) != isWordAt text i

/-- What can be reached from `frontier` by any number of steps, beside what was `seen`; at
most `fuel` rounds. -/
def reach (step : Nat → List Nat) : Nat → List Nat → List Nat → List Nat
  | 0, seen, _ => seen
  | fuel + 1, seen, frontier =>
    let new := ((frontier.flatMap step).eraseDups).filter fun i => !seen.contains i
    if new = [] then seen else reach step fuel (seen ++ new) new

/-- Where matches that start at `i` can end. -/
def ends (text : Array Char) : Pattern → Nat → List Nat
  | empty, i => [i]
  | char c, i => if text[i]? = some c then [i + 1] else []
  | any, i =>
    match text[i]? with
    | some c => if c = '\n' then [] else [i + 1]
    | none => []
  | textStart, i => if i = 0 then [i] else []
  | textEnd, i => if i = text.size then [i] else []
  | wordBoundary, i => if isBoundary text i then [i] else []
  | seq first second, i => ((ends text first i).flatMap (ends text second)).eraseDups
  | either first second, i => (ends text first i ++ ends text second i).eraseDups
  | star body, i => reach (ends text body) (text.size + 1) [i] [i]

/-- Whether the pattern matches anywhere in a text. -/
def isMatch (p : Pattern) (text : String) : Bool :=
  let chars := text.toList.toArray
  (List.range (chars.size + 1)).any fun i => p.ends chars i ≠ []

/-! ## Reading -/

/-- An open group: the alternatives before, and the items since the last bar, the last
one first. -/
structure Group where
  before : Option Pattern
  items : List Pattern
  deriving Inhabited

/-- Nothing read yet. -/
def Group.new : Group := ⟨none, []⟩

/-- The items since the last bar as one pattern. -/
def Group.branch (g : Group) : Pattern :=
  match g.items.reverse with
  | [] => .empty
  | p :: ps => ps.foldl .seq p

/-- The whole group as one pattern. -/
def Group.close (g : Group) : Pattern :=
  match g.before with
  | none => g.branch
  | some p => .either p g.branch

/-- Adds an item. -/
def Group.add (g : Group) (p : Pattern) : Group := { g with items := p :: g.items }

/-- Changes the last item, if there is one. -/
def Group.changeLast (g : Group) (f : Pattern → Pattern) : Option Group :=
  match g.items with
  | [] => none
  | p :: ps => some { g with items := f p :: ps }

/-- The item of an escaped character. -/
def escaped? (c : Char) : Option Pattern :=
  if c = 'b' then some .wordBoundary
  else if 0x21 ≤ c.toNat ∧ c.toNat ≤ 0x7E ∧ !c.isAlphanum then some (.char c)
  else none

/-- The item of a character that stands for itself or for a place or class. -/
def item? (c : Char) : Option Pattern :=
  if c = '.' then some .any
  else if c = '^' then some .textStart
  else if c = '$' then some .textEnd
  else if ['\\', '[', ']', '\x7b', '\x7d', '(', ')', '|', '*', '+', '?'].contains c then none
  else some (.char c)

/-- Reads on in group `g` inside the groups `outer`. -/
def readGroups : Group → List Group → List Char → Option Pattern
  | g, [], [] => some g.close
  | _, _ :: _, [] => none
  | g, outer, '\\' :: c :: rest =>
    match escaped? c with
    | some p => readGroups (g.add p) outer rest
    | none => none
  | g, outer, '(' :: rest => readGroups .new (g :: outer) rest
  | g, o :: outer, ')' :: rest => readGroups (o.add g.close) outer rest
  | g, outer, '|' :: rest => readGroups ⟨some g.close, []⟩ outer rest
  | g, outer, '*' :: rest =>
    match g.changeLast .star with
    | some g => readGroups g outer rest
    | none => none
  | g, outer, '+' :: rest =>
    match g.changeLast fun p => .seq p (.star p) with
    | some g => readGroups g outer rest
    | none => none
  | g, outer, '?' :: rest =>
    match g.changeLast fun p => .either p .empty with
    | some g => readGroups g outer rest
    | none => none
  | g, outer, c :: rest =>
    match item? c with
    | some p => readGroups (g.add p) outer rest
    | none => none

/-- Reads a pattern. -/
def parse? (text : String) : Option Pattern := readGroups .new [] text.toList

end Pattern

end Restyle
