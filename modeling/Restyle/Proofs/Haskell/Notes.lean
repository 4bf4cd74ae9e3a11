/-
Restyle.Proofs.Haskell.Notes — where the Haskell lexer notes line states.

A round makes its notes where it starts, and behind a backslash in quoted
text. No line ends at a backslash, so if a line starts where the range
ends, both are places before it, and that line is spared (`spares_step`).
Nothing else that a round does makes a note.
-/
import Restyle.Proofs.Haskell.Rounds
import Restyle.Proofs.Scanner.Notes

namespace Restyle.Haskell

namespace Machine

open Scanner (Spares)

variable {t : Text} {k : Nat}

/-! ## 1. What makes no notes -/

@[simp] theorem lineStates_operatorRun (s : Scanner t) :
    (operatorRun s).lineStates = s.lineStates := by
  simp [operatorRun]

@[simp] theorem lineStates_skipHash (o : Options) (two : Bool) (s : Scanner t) :
    (skipHash o two s).lineStates = s.lineStates := by
  rw [skipHash]
  dsimp only
  repeat' split
  all_goals rfl

@[simp] theorem lineStates_numeral (o : Options) (radix : Radix) (s : Scanner t) :
    (numeral o radix s).lineStates = s.lineStates := by
  rw [numeral]
  dsimp only
  repeat' split
  all_goals simp

theorem lineStates_nameRest (o : Options) (fuel : Nat) : ∀ (token : Token) (s : Scanner t),
    (nameRest o fuel token s).2.lineStates = s.lineStates := by
  induction fuel with
  | zero => exact fun _ _ => rfl
  | succ fuel ih =>
    intro token s
    rw [nameRest]
    dsimp only
    repeat' split
    all_goals simp [ih]

@[simp] theorem lineStates_word (g : Settings) (m : Machine t) :
    (m.word g).scan.lineStates = m.scan.lineStates := by
  simp [word, name, lineStates_nameRest]

@[simp] theorem lineStates_lineComment (m : Machine t) :
    m.lineComment.scan.lineStates = m.scan.lineStates := by
  rw [lineComment]
  repeat' split
  all_goals simp [map]

@[simp] theorem lineStates_blockComment (m : Machine t) :
    m.blockComment.scan.lineStates = m.scan.lineStates := by
  rw [blockComment]
  dsimp only
  repeat' split
  all_goals simp [map]

@[simp] theorem lineStates_pragma (s : Scanner t) : (pragma s).lineStates = s.lineStates := by
  rw [pragma]
  split <;> simp

@[simp] theorem lineStates_directive (o : Options) (s : Scanner t) :
    (directive o s).lineStates = s.lineStates := by
  rw [directive]
  repeat' split
  all_goals simp

@[simp] theorem lineStates_startNumeral (m : Machine t) :
    m.startNumeral.scan.lineStates = m.scan.lineStates := by
  rw [startNumeral]
  repeat' split
  all_goals simp

@[simp] theorem lineStates_startQuote (o : Options) (s : Scanner t) :
    (startQuote o s).lineStates = s.lineStates := by
  rw [startQuote]
  repeat' split
  all_goals simp

@[simp] theorem lineStates_plain (o : Options) (m : Machine t) :
    (m.plain o).scan.lineStates = m.scan.lineStates := by
  rw [plain]
  dsimp only
  repeat' split
  all_goals simp [map]

@[simp] theorem lineStates_passLineEnd (s : Scanner t) :
    (passLineEnd s).lineStates = s.lineStates := by
  rw [passLineEnd]
  split <;> rfl

/-! ## 2. Rounds -/

section

variable {m : Machine t} (h : m.scan.Spares k) (hmore : m.scan.more = true)
include h hmore

theorem spares_saveLine : m.saveLine.scan.Spares k := h.note hmore _

/-- The character behind a backslash stands before `k`, so it is still the time for a note. -/
theorem spares_quoted (o : Options) (quote : Char) : (m.quoted o quote).scan.Spares k := by
  rw [quoted]
  dsimp only
  split
  · exact (h.forward.of_reach (reach_skipHash ..) (by simp)).switch _
  · split
    · rename_i hslash
      have hnext := h.more_forward_of_isSign hmore (Scanner.isSign_of_sees (by decide) hslash)
      split
      · exact (spares_saveLine h.forward hnext).forward
      · exact h.forward.forward
    · split
      · exact (h.switch .plain).forward
      · exact h.forward

theorem spares_stepToken (g : Settings) : (m.stepToken g).scan.Spares k := by
  have hreach := (moves_stepToken g m).reach
  rw [stepToken] at hreach ⊢
  split at hreach
  case h_2 | h_3 => exact spares_quoted h hmore ..
  all_goals exact h.of_reach hreach (by simp [map])

/-- A round that starts before `k` spares the line there. -/
theorem spares_step (g : Settings) : (m.step g).scan.Spares k := by
  have hrest (m : Machine t) (h : m.scan.Spares k) (hmore : m.scan.more = true) :
      (if continues m.scan then m.saveLine.map passLineEnd else m.stepToken g).scan.Spares k := by
    split
    · exact (spares_saveLine h hmore).of_reach (advances_passLineEnd _).reach
        (lineStates_passLineEnd _)
    · exact spares_stepToken h hmore g
  rw [step]
  split
  · exact hrest m.saveLine (spares_saveLine h hmore) hmore
  · exact hrest m h hmore

end

end Machine

end Restyle.Haskell
