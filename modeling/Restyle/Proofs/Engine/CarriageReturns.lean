/-
Restyle.Proofs.Engine.CarriageReturns — machines over a text and over the
same text with CRLF for LF.

The second has more to walk over, so it may take several rounds where the
first takes one. If it catches up with every round, the two runs say the
same of all bytes but line feeds, and note the same for all lines
(`Sound.whole_crlf`).
-/
import Restyle.Proofs.Engine.Walks
import Restyle.Proofs.Scanner.CarriageReturns

namespace Restyle

/-- The second styling says of a text with CRLF for LF what the first says of the text: the same
tokens for all bytes but line feeds, and the same states for all lines. -/
structure Styling.Moved (t : Text) (r r' : Styling) : Prop where
  tokens : ∀ p < t.size, t.byteAt p ≠ 10 → r'.tokenAt? (t.crlfPos p) = r.tokenAt? p
  states : ∀ line ≤ t.lastLine, r'.stateOf? line = r.stateOf? line

namespace Engine

open Scanner (Matched)

variable {E : Engine} {t : Text} (hE : E.Sound) {L : E.State t → E.State t.crlf → Prop}
include hE

/-- If the machine over the text with CRLF catches up with each round of the other, both say
the same. -/
theorem Sound.whole_crlf (ht : t.NoReturns)
    (hscan : ∀ m m', L m m' → Matched 0 (E.scan m) (E.scan m'))
    (hround : ∀ m m', L m m' → (E.scan m).more = true → ∃ r', E.Comes m' r' ∧ L (E.round m) r')
    (hstart : L (E.start t 0 t.size .plain 0) (E.start t.crlf 0 t.crlf.size .plain 0)) :
    Styling.Moved t (E.whole t) (E.whole t.crlf) := by
  have hends := hE.ends_start t 0 t.size .plain 0
  have hends' := hE.ends_start t.crlf 0 t.crlf.size .plain 0
  have hlast := hscan _ _ (hends.simulates hround (fun m m' hm hno => by
    have hs := hscan m m' hm
    have hstop := hs.stop
    have hstop' := hs.stop'
    have hpos' := hs.pos
    rw [Cursor.more, decide_eq_false_iff_not] at hno ⊢
    have hlt := Text.crlfPos_lt (t := t) (p := t.size) (q := (E.scan m).pos) (by omega)
    rw [← Text.size_crlf ht] at hlt
    omega) hends' hstart)
  have hpos : t.size + 1 ≤ (E.scan (E.last t 0 t.size .plain 0)).pos := by
    have hno := hends.more
    rw [Cursor.more, decide_eq_false_iff_not, hlast.stop] at hno
    omega
  constructor
  · intro p hp hb
    have hp' := Text.crlfPos_lt_size ht hp
    rw [whole, whole, Resumable.tokenAt?_style hE .plain 0 (by omega) (by omega),
      Resumable.tokenAt?_style hE .plain 0 (by omega) (by omega)]
    exact hlast.look p (by omega) hp hb
  · intro line hline
    have hmono := t.lineAt_mono hpos
    rw [t.lineAt_size_succ] at hmono
    rw [whole, whole, Resumable.stateOf?_style, Resumable.stateOf?_style]
    exact hlast.noted line (by omega)

end Engine

end Restyle
