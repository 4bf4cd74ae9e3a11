/-
Restyle.Proofs.Lexer.Operators — operators in a Haskell buffer.

A run of operator characters that is met outside every token is one span
in a buffer that was lexed as a whole, unless it starts a line comment or
a directive. Its style is given by its first sign, or behind two dashes
or more by the first that is no dash (`haskell_operators`). So a colon
behind dashes makes a constructor operator of a run that does not start
with one (`operator_behind_dashes`).
-/
import Mathlib.Data.Nat.Init
import Restyle.Proofs.Haskell.Operators
import Restyle.Proofs.Lexer.Resume

namespace Restyle

namespace Lexer

open Haskell (MeetsIn OperatorRun DashesOnly OpensDirective Decides operatorStyle)

variable {b : Buffer} {p stop : Nat}

/-- A run of operator characters is one span, in the style that its first sign gives it, unless
it starts with two dashes or more and a colon behind them. -/
theorem haskell_operators (g : Haskell.Settings) (firstImport : Option Nat) (hb : b.WellFormed)
    {mode : Haskell.Mode} (hp : MeetsIn g b.text mode p) (hrun : OperatorRun b.text p stop)
    (hno : ¬DashesOnly b.text p stop) (hdir : ¬OpensDirective b.text mode p) :
    let lexed := (haskell g firstImport).lex b.clearLog 0 b.size .plain
    ∃ d, Decides b.text p d
      ∧ ⟨p, stop, operatorStyle b.text d stop⟩ ∈ lexed.log
      ∧ (∀ x, p ≤ x → x < stop → lexed.tokenAt x = operatorStyle b.text d stop)
      ∧ (d = p ∨ b.text.byteAt d ≠ ':'.toNat →
        operatorStyle b.text d stop = operatorStyle b.text p stop) := by
  obtain ⟨d, hdecides, hmem⟩ := Haskell.exists_operatorStyle g hp hrun hno hdir
  obtain ⟨hlog, htoken⟩ := (haskell g firstImport).mem_log_lex_whole hb hmem
  exact ⟨d, hdecides, hlog, htoken, hdecides.operatorStyle_eq⟩

/-- An arrow of three dashes behind a name. -/
theorem haskell_operators_of_arrow :
    let b := Buffer.ofText (.ofBytes #[0x61, 0x2D, 0x2D, 0x2D, 0x3E, 0x3A, 0x0A] .utf8)
    let lexed := (haskell {} none).lex b.clearLog 0 b.size .plain
    MeetsIn {} b.text .code 1 ∧ OperatorRun b.text 1 6 ∧ ¬DashesOnly b.text 1 6
      ∧ ¬OpensDirective b.text .code 1
      ∧ ∃ d, Decides b.text 1 d
        ∧ ⟨1, 6, operatorStyle b.text d 6⟩ ∈ lexed.log
        ∧ (∀ x, 1 ≤ x → x < 6 → lexed.tokenAt x = operatorStyle b.text d 6)
        ∧ (d = 1 ∨ b.text.byteAt d ≠ ':'.toNat →
          operatorStyle b.text d 6 = operatorStyle b.text 1 6) := by
  have hmeets : MeetsIn {}
      (.ofBytes #[0x61, 0x2D, 0x2D, 0x2D, 0x3E, 0x3A, 0x0A] .utf8) .code 1 :=
    ⟨_, .round (.round .refl (by decide)) (by decide), by decide, by decide, by decide, by decide⟩
  have hrun : OperatorRun
      (.ofBytes #[0x61, 0x2D, 0x2D, 0x2D, 0x3E, 0x3A, 0x0A] .utf8) 1 6 :=
    ⟨by decide, by decide, by decide⟩
  have hno : ¬DashesOnly (.ofBytes #[0x61, 0x2D, 0x2D, 0x2D, 0x3E, 0x3A, 0x0A] .utf8) 1 6 :=
    fun h => absurd (h.2 4 (by decide) (by decide)) (by decide)
  exact ⟨hmeets, hrun, hno, by decide,
    haskell_operators {} none (Buffer.wellFormed_ofText _) hmeets hrun hno (by decide)⟩

/-- The run of two dashes and a colon does not start with the colon, but is styled by it. -/
theorem operator_behind_dashes :
    let b := Buffer.ofText (.ofBytes #[0x2D, 0x2D, 0x3A] .utf8)
    let lexed := (haskell {} none).lex b.clearLog 0 b.size .plain
    MeetsIn {} b.text .code 0 ∧ OperatorRun b.text 0 3 ∧ ¬DashesOnly b.text 0 3
      ∧ ¬OpensDirective b.text .code 0
      ∧ b.text.byteAt 0 ≠ ':'.toNat ∧ operatorStyle b.text 0 3 = .operator
      ∧ ⟨0, 3, .operator⟩ ∉ lexed.log ∧ lexed.log = #[⟨0, 3, .capital⟩]
      ∧ ∀ x < 3, lexed.tokenAt x = .capital :=
  ⟨⟨_, .refl, by decide, by decide, by decide, by decide⟩, ⟨by decide, by decide, by decide⟩,
    fun h => absurd (h.2 2 (by decide) (by decide)) (by decide), by decide, by decide, by decide,
    by decide +kernel, by decide +kernel, by decide +kernel⟩

end Lexer

end Restyle
