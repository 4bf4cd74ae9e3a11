/-
Restyle.Proofs.Highlighter.UpToDate — what is right after styling up to a
position.

A highlighter remembers a byte position, but an edit can change what its
line holds before it. `keptTo` is how far its buffer is right for sure: up
to the line that is styled in part. A call that has something to style
takes that beyond the position asked for (`le_keptTo_ensure`), and one that
has nothing to style leaves it where it was. So after any session the
tokens are right as far as asked, but perhaps for those of an edited line
that a call passed over, and the states of all lines that end there are
(`ensure_upToDate`). That one call passes over a token is shown by
`ensure_passes_over_edited_line`.
-/
import Restyle.Proofs.Highlighter.Incremental

namespace Restyle.Highlighter

variable {l : Lexer} {h : Highlighter} {b : Buffer} {pos : Nat}

/-! ## 1. How far a buffer is right -/

/-- Up to where the buffer of a highlighter is right for sure: everywhere if nothing is left to
style, and else before the line that is styled in part. -/
def keptTo (h : Highlighter) (b : Buffer) : Nat :=
  if b.size ≤ h.styledTo then b.size + 1 else h.restart b

theorem Kept.styled_keptTo (hk : Kept l h b) (hpos : 0 < b.size) : l.Styled b (h.keptTo b) := by
  unfold keptTo
  split
  · exact (hk.done hpos ‹_›).styled
  · exact hk.styled

/-- The lines that end before the position remembered are among those that are right. -/
theorem lt_lineAt_keptTo {line : Nat} (hline : line ≤ b.text.lastLine)
    (hend : b.text.lineStart (line + 1) ≤ min h.styledTo b.size) :
    line < b.text.lineAt (h.keptTo b) := by
  unfold keptTo
  split
  · rw [show b.text.lineAt (b.size + 1) = b.text.lastLine + 1 from b.text.lineAt_size_succ]
    omega
  · rename_i hlt
    have hlast : line < b.text.lastLine := by
      rcases Nat.lt_or_eq_of_le hline with hlast | rfl
      · exact hlast
      · rw [b.text.lineStart_of_lastLine_lt (Nat.lt_succ_self _)] at hend
        exact absurd hend (by simp only [Buffer.size] at hlt ⊢; omega)
    have hle := b.text.lineOf_le_lastLine (min h.styledTo b.size)
    rw [b.text.lineAt_of_le (b.text.le_size_of_mem_starts (h.restart_mem_starts b)), restart,
      b.text.lineOf_lineStart hle]
    exact (b.text.lineStart_le_iff hlast _).1 hend

/-! ## 2. Calls -/

/-- A call that has something to style makes its buffer right as far as it was asked to. -/
theorem le_keptTo_ensure (hlt : min h.styledTo b.size < min pos b.size) :
    min pos b.size ≤ (h.ensure b pos).1.keptTo (h.ensure b pos).2 := by
  have htext := text_ensure h b pos
  have hsize : (h.ensure b pos).2.size = b.size := congrArg Text.size htext
  have hle := h.le_styledTo_ensure b pos
  unfold keptTo
  split
  · omega
  · obtain ⟨f, levels, he⟩ := exists_ensure_of_lt hlt
    have hgoal : (h.ensure b pos).1.styledTo = goal b pos := by rw [he]
    have hstart := (goal_mem_starts b pos).resolve_right (by omega)
    rw [restart, htext, hsize, hgoal, Nat.min_eq_left (goal_le b pos),
      (b.text.lineStart_lineOf_eq_iff _).2 (b.text.mem_starts_iff.1 hstart), ← hgoal]
    exact hle

/-- The bytes asked for have their tokens if the call has something to style, or if they stand
before the line that is styled in part. -/
theorem Kept.token_ensure (hk : Kept l h b) (hsize : b.size < l.limit) {p : Nat}
    (hp : p < min pos b.size)
    (hright : min h.styledTo b.size < min pos b.size ∨ p < h.keptTo b) :
    (l.whole b.text).tokenAt? p = some ((h.ensure b pos).2.tokenAt p) := by
  have hpos : 0 < b.size := by omega
  rcases Nat.lt_or_ge (min h.styledTo b.size) (min pos b.size) with hlt | hge
  · have htext := text_ensure h b pos
    have hsame : (h.ensure b pos).2.size = b.size := congrArg Text.size htext
    have hstyled := (hk.ensure hsize pos).styled_keptTo (by rw [hsame]; exact hpos)
    rw [← htext]
    exact hstyled.token p (Nat.lt_of_lt_of_le hp (le_keptTo_ensure hlt)) (by omega)
  · rw [ensure_of_le hpos hge]
    exact (hk.styled_keptTo hpos).token p (hright.resolve_left (Nat.not_lt_of_ge hge)) (by omega)

/-- The lines that end before the position asked for have their states. -/
theorem Kept.state_ensure (hk : Kept l h b) (hsize : b.size < l.limit) (hpos : 0 < b.size)
    {line : Nat} (hline : line ≤ b.text.lastLine)
    (hend : b.text.lineStart (line + 1) ≤ min pos b.size) :
    (l.whole b.text).stateOf? line = some ((h.ensure b pos).2.lineState line) := by
  have htext := text_ensure h b pos
  have hsame : (h.ensure b pos).2.size = b.size := congrArg Text.size htext
  have hle := h.le_styledTo_ensure b pos
  have hstyled := (hk.ensure hsize pos).styled_keptTo (by rw [hsame]; exact hpos)
  rw [← htext]
  apply hstyled.state
  apply lt_lineAt_keptTo
  · rw [htext]
    exact hline
  · rw [htext, hsame]
    omega

/-! ## 3. Sessions -/

/-- The buffer that a new highlighter makes of a text. -/
def fromScratch (l : Lexer) (t : Text) : Buffer := ((start l).ensure (.ofText t) t.size).2

theorem text_fromScratch (l : Lexer) (t : Text) : (fromScratch l t).text = t := text_ensure ..

theorem done_fromScratch {t : Text} (hsize : t.size < l.limit) (hpos : 0 < t.size) :
    Done l (fromScratch l t) := by
  have hsame : (fromScratch l t).size = t.size := congrArg Text.size (text_fromScratch l t)
  apply ((kept_start l t).ensure hsize t.size).done
  · show 0 < (fromScratch l t).size
    omega
  · show (fromScratch l t).size ≤ _
    rw [hsame]
    exact size_le_styledTo (start l) (.ofText t)

/-- However a text was edited and styled, styling it up to a position then gives the bytes
before it the tokens, and the lines that end before it the states, that a new highlighter gives
them. Only the tokens of a line that was styled in part are left out, if the call has nothing to
style. -/
theorem ensure_upToDate (l : Lexer) (t : Text) (commands : List Command) (pos : Nat)
    (hfits : Fits (2 ^ 23) (start l, .ofText t) commands) :
    let edited := runAll (start l, .ofText t) commands
    let styled := (edited.1.ensure edited.2 pos).2
    let scratch := fromScratch l edited.2.text
    (∀ p < min pos edited.2.size,
        min edited.1.styledTo edited.2.size < min pos edited.2.size
          ∨ p < edited.1.keptTo edited.2 →
        styled.tokenAt p = scratch.tokenAt p)
      ∧ ∀ line ≤ edited.2.text.lastLine,
        edited.2.text.lineStart (line + 1) ≤ min pos edited.2.size →
        styled.lineState line = scratch.lineState line := by
  intro edited styled scratch
  obtain ⟨hkept, hsize⟩ := kept_runAll l.le_limit commands (kept_start l t) hfits
  have hlimit : edited.2.size < l.limit := Nat.lt_of_lt_of_le hsize l.le_limit
  have htext : scratch.text = edited.2.text := text_fromScratch ..
  rcases Nat.eq_zero_or_pos edited.2.size with hzero | hpos
  · constructor
    · intro p hp
      omega
    · intro line _ _
      obtain ⟨-, hstates, -⟩ := ensure_empty_unique (kept_start l edited.2.text) hkept rfl hzero
        edited.2.text.size pos
      exact congrArg (·.getD line 0) hstates
  · have hdone : Done l scratch := done_fromScratch hlimit hpos
    constructor
    · intro p hp hright
      have htoken := hdone.styled.token p
        (by rw [Buffer.size, htext]; show p < edited.2.size + 1; omega)
        (by rw [Buffer.size, htext]; show p < edited.2.size; omega)
      rw [htext, hkept.token_ensure hlimit hp hright] at htoken
      exact Option.some.inj htoken
    · intro line hline hend
      have hstate := hdone.styled.state line (by
        rw [Buffer.size, htext, Text.lineAt_size_succ]
        omega)
      rw [htext, hkept.state_ensure hlimit hpos hline hend] at hstate
      exact Option.some.inj hstate

/-- Styles are asked for up to the middle of a line that an edit before has joined with the next
one. -/
theorem ensure_upToDate_of_joined_lines :
    let l := Lexer.haskell {} none
    let t := Text.ofBytes #[0x78, 0x0A, 0x7B, 0x2D, 0x0A, 0x79, 0x0A, 0x7A] .utf8
    let commands := [.ensure 8, .delete 4 5, .ensure 1]
    let edited := runAll (start l, .ofText t) commands
    let styled := (edited.1.ensure edited.2 5).2
    let scratch := fromScratch l edited.2.text
    Fits (2 ^ 23) (start l, .ofText t) commands
      ∧ (∀ p < min 5 edited.2.size,
        min edited.1.styledTo edited.2.size < min 5 edited.2.size
          ∨ p < edited.1.keptTo edited.2 →
        styled.tokenAt p = scratch.tokenAt p)
      ∧ ∀ line ≤ edited.2.text.lastLine,
        edited.2.text.lineStart (line + 1) ≤ min 5 edited.2.size →
        styled.lineState line = scratch.lineState line :=
  ⟨by decide +kernel, ensure_upToDate _ _ _ _ (by decide +kernel)⟩

/-- A bracket makes the start of a raw string of what was a name and a string. The call after
that has nothing to style, as the byte asked for stands before the edit, and leaves the name. -/
theorem ensure_passes_over_edited_line :
    let l := Lexer.r {}
    let t := Text.ofBytes #[0x72, 0x22, 0x61] .utf8
    let commands := [.ensure 3, .insert 2 #[0x28]]
    let edited := runAll (start l, .ofText t) commands
    Fits (2 ^ 23) (start l, .ofText t) commands
      ∧ ¬ ∀ p < min 1 edited.2.size,
        (edited.1.ensure edited.2 1).2.tokenAt p = (fromScratch l edited.2.text).tokenAt p := by
  decide +kernel

end Restyle.Highlighter
