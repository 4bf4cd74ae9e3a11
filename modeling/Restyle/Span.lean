/-
Restyle.Span — a classified run of bytes.
-/
import Restyle.Token

namespace Restyle

/-- The bytes from `start` up to `stop`, all of class `token`. -/
structure Span where
  start : Nat
  stop : Nat
  token : Token
  deriving DecidableEq, Repr, Inhabited

namespace Span

/-- Whether the span covers position `pos`. -/
def contains (s : Span) (pos : Nat) : Bool := s.start ≤ pos && pos < s.stop

/-- Number of bytes covered. -/
def size (s : Span) : Nat := s.stop - s.start

/-- Whether the span covers nothing. -/
def isEmpty (s : Span) : Bool := s.stop ≤ s.start

/-! ## Runs -/

/-- The runs of `tokens`, which stand at `pos`, when a run of `token` is open since `start`. -/
def runsFrom (start : Nat) (token : Token) (pos : Nat) : List Token → List Span
  | [] => [⟨start, pos, token⟩]
  | k :: rest =>
    if k = token then runsFrom start token (pos + 1) rest
    else ⟨start, pos, token⟩ :: runsFrom pos k (pos + 1) rest

/-- The maximal runs of equal tokens, in order. -/
def runs : List Token → List Span
  | [] => []
  | k :: rest => runsFrom 0 k 1 rest

end Span

end Restyle
