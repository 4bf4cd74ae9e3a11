/-
Restyle.Proofs.Highlighter.WholeLines — a call for styles does whole lines
and nothing else.

Wherever a highlighter stands and whatever its buffer holds, a call for
styles hands a range of whole lines to its lexer, or nothing at all. The
range starts where the line of the position remembered starts, and ends
behind the line of the last byte asked for (`restart_lt_goal`,
`goal_cases`). No lexer paints beyond such an end, as a walk by characters
never passes over the start of a line (`tokenAt_lex_of_wholeLines`).
Nor does one go on for ever: the R lexer could, if it came behind the end
of its range with a raw string that closes with a space, but whole lines
end in neither spaces nor dashes (`R.not_runsOn_of_wholeLines`).
-/
import Restyle.Proofs.Haskell.Termination
import Restyle.Proofs.Highlighter.Incremental
import Restyle.Proofs.Lexer.Spans
import Restyle.Proofs.R.Termination

namespace Restyle

/-! ## 1. Whole lines come to an end -/

namespace R

theorem not_runsOver_of_wholeLines {t : Text} {d : Delimiter} {stop x : Nat}
    (hspace : d.close = 0x20) (hstop : stop ∈ t.starts ∨ stop = t.size) :
    ¬RunsOver t d stop x := by
  intro hover
  have hlt := hover.lt
  rcases hstop with hstart | rfl
  · have hbreak := (t.mem_starts_iff.1 hstart).resolve_left (by omega)
    have hlast := t.byteAt_of_breaksAfter hbreak
    have hdash : '-'.toNat = 45 := rfl
    -- the byte before the line start is the bracket itself or one of the dashes
    rcases Nat.lt_or_eq_of_le (Nat.le_sub_one_of_lt hlt) with hbehind | rfl
    · have hdashes := hover.dashes (stop - 1) hbehind (by omega)
      omega
    · have hbracket := hover.bracket
      omega
  · exact absurd (hover.lt_size hspace) (Nat.lt_irrefl _)

theorem not_runsOn_of_wholeLines {t : Text} {start stop : Nat}
    (hstop : stop ∈ t.starts ∨ stop = t.size) (token : Token) (saved : Option Delimiter) :
    ¬RunsOn t start stop token saved := by
  rintro ⟨-, d, -, hspace, x, -, hover, -⟩
  exact not_runsOver_of_wholeLines hspace hstop hover

end R

namespace Lexer

/-- A call comes to an end. After some rounds the range is done, and what is said then is what the
buffer is styled by; and the loops inside the rounds, as far as their length is not known before,
end as well. -/
def Halts (b : Buffer) (start length : Nat) (token : Token) : Lexer → Prop
  | haskell g firstImport =>
    let m i := (Haskell.Machine.step g)^[i] (Haskell.Machine.start b.text start length token
      (Haskell.LineState.unpack (savedBefore b start)))
    (∃ n, (m n).scan.more = false
        ∧ (haskell g firstImport).lex b start length token = b.restyle (m n).scan.finish.styling)
      ∧ ∀ s, (m 0).scan.Reach s →
        Exits (Haskell.Machine.passOver Haskell.isOperatorChar) s (s.skip Haskell.isOperatorChar)
        ∧ ∀ scanned, Exits (Haskell.Machine.nameStep g.options) (scanned, s)
          (Haskell.Machine.nameRest g.options (s.stop - s.pos) scanned s)
  | r g =>
    let m i := (R.Machine.step g)^[i] (R.Machine.start b.text start length token
      (R.LineState.unpack (savedBefore b start)))
    ∃ n, (m n).scan.more = false
      ∧ (r g).lex b start length token = b.restyle (m n).scan.finish.styling
      ∧ ∀ i < n, (m i).RoundEnds

variable (l : Lexer) {b : Buffer} {start length : Nat} (h : start + length ≤ b.size)
  (hstop : start + length ∈ b.text.starts ∨ start + length = b.size) (token : Token)
include h hstop

theorem halts_of_wholeLines : l.Halts b start length token := by
  obtain ⟨n, -, heq, hbefore, hdone⟩ :=
    l.sound.last_eq_iterate (t := b.text) start length token (savedBefore b start)
  cases l with
  | haskell g firstImport =>
    have hstart := Cursor.measured_start b.text start length
    refine ⟨⟨n, hdone, ?_⟩, fun s hs => ?_⟩
    · rw [lex, styling_eq, Engine.style, heq]
      rfl
    · have hm := hs.measured hstart
      exact ⟨Haskell.Machine.exits_skip hm,
        fun scanned => Haskell.Machine.exits_nameRest g.options _ scanned hm (Nat.le_refl _)⟩
  | r g =>
    refine ⟨n, hdone, ?_, fun i hi => ?_⟩
    · rw [lex, styling_eq, Engine.style, heq]
      rfl
    · by_contra hno
      have hruns := (R.Machine.runsOn_iff g h token _ hbefore hdone).2 ⟨i, hi, hno⟩
      exact R.not_runsOn_of_wholeLines hstop token _ hruns

/-- A call for whole lines paints nothing else. -/
theorem tokenAt_lex_of_wholeLines {p : Nat} (hp : p < start ∨ start + length ≤ p) :
    (l.lex b start length token).tokenAt p = b.tokenAt p := by
  obtain ⟨stop, -, hwalk, htile⟩ := l.exists_tile h token
  obtain rfl := hwalk.eq_goal (Nat.le_add_right ..) hstop
  apply Buffer.tokenAt_restyle_of_none
  rw [← Option.not_isSome_iff_eq_none, Styling.isSome_tokenAt?_iff htile]
  omega

end Lexer

/-! ## 2. Calls for styles -/

namespace Highlighter

variable {h : Highlighter} {b : Buffer} {pos : Nat}

theorem restart_lt_goal (hlt : min h.styledTo b.size < min pos b.size) :
    h.restart b < goal b pos :=
  lt_goal (Nat.lt_of_le_of_lt (h.restart_le b) hlt)

/-- Styling ends where the next line starts, or at the end of the text. -/
theorem goal_cases (b : Buffer) (pos : Nat) :
    let line := b.text.lineOf (min pos b.size - 1)
    line < b.text.lastLine ∧ goal b pos = b.text.lineStart (line + 1)
      ∨ line = b.text.lastLine ∧ goal b pos = b.size := by
  intro line
  rcases Nat.lt_or_eq_of_le (b.text.lineOf_le_lastLine (min pos b.size - 1)) with hlt | heq
  · exact Or.inl ⟨hlt, rfl⟩
  · exact Or.inr ⟨heq, b.text.lineStart_of_lastLine_lt (by omega)⟩

theorem styledTo_ensure_le (h : Highlighter) (b : Buffer) (pos : Nat) :
    (h.ensure b pos).1.styledTo ≤ b.size := by
  obtain ⟨-, he⟩ | ⟨-, he⟩ | ⟨-, f, levels, he⟩ := h.ensure_cases b pos <;> rw [he]
  · exact Nat.zero_le _
  · exact Nat.min_le_right ..
  · exact goal_le b pos

/-- The same call again has nothing to style. -/
theorem ensure_ensure (h : Highlighter) (hsize : 0 < b.size) (pos : Nat) :
    (h.ensure b pos).1.ensure (h.ensure b pos).2 pos = h.ensure b pos := by
  have hsame : (h.ensure b pos).2.size = b.size := congrArg Text.size (text_ensure h b pos)
  have hle := h.styledTo_ensure_le b pos
  have hdone := h.le_styledTo_ensure b pos
  rw [ensure_of_le (by omega) (by omega), hsame, Nat.min_eq_left hle]

/-- After a call for styles the position remembered is in the text and not before the one asked
for, and the same call again changes nothing. If all of that was styled before, only the position
remembered can have changed, to stay in the text. Otherwise a range of whole lines was lexed and
folded. It starts with a line, not behind the position that was remembered, and ends with the line
of the last byte asked for; the lexer comes to an end there, and no byte outside changes its
token. -/
theorem ensure_whole_lines (h : Highlighter) (b : Buffer) (pos : Nat) (hsize : 0 < b.size) :
    let after := h.ensure b pos
    (min pos b.size ≤ after.1.styledTo ∧ after.1.styledTo ≤ b.size)
      ∧ after.1.ensure after.2 pos = after
      ∧ (min pos b.size ≤ min h.styledTo b.size →
        after = ({ h with styledTo := min h.styledTo b.size }, b))
      ∧ (min h.styledTo b.size < min pos b.size → ∃ start stop,
        (let styled := h.lexer.lex b start (stop - start) (tokenBefore b start)
          let folded := h.lexer.fold styled start (stop - start)
          after = (⟨folded.1, stop⟩, folded.2))
        ∧ h.lexer.Halts b start (stop - start) (tokenBefore b start)
        ∧ start ∈ b.text.starts ∧ start ≤ h.styledTo ∧ start < stop
        ∧ (let line := b.text.lineOf (min pos b.size - 1)
          line < b.text.lastLine ∧ stop = b.text.lineStart (line + 1)
            ∨ line = b.text.lastLine ∧ stop = b.size)
        ∧ ∀ p, p < start ∨ stop ≤ p → after.2.tokenAt p = b.tokenAt p) := by
  intro after
  refine ⟨⟨h.le_styledTo_ensure b pos, h.styledTo_ensure_le b pos⟩, h.ensure_ensure hsize pos,
    ensure_of_le hsize, fun hlt => ?_⟩
  have hadd := restart_add_goal hlt
  have hrange : h.restart b + (goal b pos - h.restart b) ≤ b.size := by
    rw [hadd]
    exact goal_le b pos
  have hstop : h.restart b + (goal b pos - h.restart b) ∈ b.text.starts
      ∨ h.restart b + (goal b pos - h.restart b) = b.size := by
    rw [hadd]
    exact goal_mem_starts b pos
  refine ⟨h.restart b, goal b pos, ?_, h.lexer.halts_of_wholeLines hrange hstop _,
    h.restart_mem_starts b, ?_, restart_lt_goal hlt, goal_cases b pos, fun p hp => ?_⟩
  · show h.ensure b pos = _
    rw [ensure, if_neg (Nat.ne_of_gt hsize), if_neg (Nat.not_le_of_lt hlt)]
  · exact Nat.le_trans (h.restart_le b) (Nat.min_le_left ..)
  · obtain ⟨f, levels, he⟩ := exists_ensure_of_lt hlt
    show (h.ensure b pos).2.tokenAt p = _
    rw [he, Buffer.tokenAt_setLevels]
    exact h.lexer.tokenAt_lex_of_wholeLines hrange hstop _ (by rw [hadd]; exact hp)

/-- Styles are asked for up to the first byte of a pair that ends a line. The line before it was
styled in part, and ends with a percent operator that is left open. -/
theorem ensure_whole_lines_of_pair :
    let h : Highlighter := ⟨.r {}, 1⟩
    let b := Buffer.ofText (.ofBytes #[0x78, 0x25, 0x0A, 0x79, 0x0D, 0x0A, 0x7A] .utf8)
    0 < b.size ∧ ∃ start stop,
      start ≤ 1 ∧ (let line := b.text.lineOf (min 5 b.size - 1)
          line < b.text.lastLine ∧ stop = b.text.lineStart (line + 1)
            ∨ line = b.text.lastLine ∧ stop = b.size)
        ∧ h.lexer.Halts b start (stop - start) (tokenBefore b start)
        ∧ (∀ p, p < start ∨ stop ≤ p → (h.ensure b 5).2.tokenAt p = b.tokenAt p) := by
  intro h b
  obtain ⟨-, -, -, hstyled⟩ := ensure_whole_lines h b 5 (by decide)
  obtain ⟨start, stop, -, hhalts, -, hle, -, hline, htoken⟩ := hstyled (by decide +kernel)
  exact ⟨by decide, start, stop, hle, hline, hhalts, htoken⟩

end Highlighter

end Restyle
