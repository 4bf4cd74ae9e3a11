/-
Restyle.Proofs.Lexer.Spans — what one call of a lexer does to a buffer.

The spans it logs tile the text from the start of the range to where a
walk by characters from there ends: at the end of the range if a line
starts there or the text ends, and otherwise at the first character
boundary of the walk behind it (`lex_spans`). No other byte is painted.
-/
import Restyle.Lexer
import Restyle.Proofs.Haskell.Rounds
import Restyle.Proofs.R.Rounds

namespace Restyle

namespace Lexer

/-- The lexer as a machine. -/
def engine : Lexer → Engine
  | haskell g _ => Haskell.engine g
  | r g => R.engine g

theorem sound : ∀ l : Lexer, l.engine.Sound
  | haskell g _ => Haskell.sound g
  | r g => R.sound g

theorem styling_eq (l : Lexer) (b : Buffer) (start length : Nat) (token : Token) :
    l.styling b start length token
      = l.engine.style b.text start length token (savedBefore b start) := by
  cases l with
  | haskell g _ => exact Haskell.style_eq ..
  | r g => exact R.style_eq ..

/-- The spans of a call tile the text from the start of its range to where the walk over
the range ends. -/
theorem exists_tile (l : Lexer) {b : Buffer} {start length : Nat} (h : start + length ≤ b.size)
    (token : Token) : ∃ stop ≤ b.text.size, b.text.WalksTo start (start + length) stop
      ∧ Span.Tile start (l.styling b start length token).spans.toList stop := by
  obtain ⟨stop, hwalk, htile⟩ :=
    l.sound.exists_tile b.text token (savedBefore b start) h
  rw [← l.styling_eq] at htile
  refine ⟨stop, ?_, hwalk, htile⟩
  obtain ⟨⟨n, rfl⟩, -⟩ := hwalk
  exact b.text.advance_le_size (by exact Nat.le_trans (Nat.le_add_right ..) h) n

/-- A call logs all the spans that it paints. -/
theorem log_lex (l : Lexer) {b : Buffer} (hb : b.WellFormed) {start length : Nat}
    (h : start + length ≤ b.size) (token : Token) :
    (l.lex b start length token).log.toList
      = b.log.toList ++ (l.styling b start length token).spans.toList := by
  obtain ⟨stop, hstop, -, htile⟩ := l.exists_tile h token
  apply Buffer.log_restyle
  intro s hs
  obtain ⟨-, hlt, hle⟩ := htile.bounds hs
  rw [hb.styles_size]
  exact ⟨hlt, Nat.le_trans hle hstop⟩

/-- The spans that a call logs reach from the start of its range to where the walk over
the range ends, and the other bytes keep their tokens. -/
theorem lex_spans (l : Lexer) {b : Buffer} (hb : b.WellFormed) {start length : Nat}
    (h : start + length ≤ b.size) (token : Token) :
    ∃ stop spans, b.text.WalksTo start (start + length) stop
      ∧ (start + length ∈ b.text.starts ∨ start + length = b.size → stop = start + length)
      ∧ (l.lex b start length token).log.toList = b.log.toList ++ spans
      ∧ Span.Tile start spans stop
      ∧ (spans = [] ↔ stop = start)
      ∧ ∀ pos, pos < start ∨ stop ≤ pos →
          (l.lex b start length token).tokenAt pos = b.tokenAt pos := by
  obtain ⟨stop, -, hwalk, htile⟩ := l.exists_tile h token
  refine ⟨stop, (l.styling b start length token).spans.toList, hwalk, ?_, ?_, htile,
    htile.eq_nil_iff, ?_⟩
  · exact hwalk.eq_goal (Nat.le_add_right ..)
  · exact l.log_lex hb h token
  · intro pos hpos
    apply Buffer.tokenAt_restyle_of_none
    rw [← Option.not_isSome_iff_eq_none, Styling.isSome_tokenAt?_iff htile]
    omega

/-- A range that ends inside a character of two bytes. -/
theorem lex_spans_of_cut_character :
    let b := Buffer.ofText (.ofBytes #[0xC3, 0xA9, 0x0A] .utf8)
    0 + 1 ≤ b.size ∧ ∃ stop spans, b.text.WalksTo 0 (0 + 1) stop
      ∧ (0 + 1 ∈ b.text.starts ∨ 0 + 1 = b.size → stop = 0 + 1)
      ∧ ((bare .haskell).lex b 0 1 .blockComment).log.toList = b.log.toList ++ spans
      ∧ Span.Tile 0 spans stop
      ∧ (spans = [] ↔ stop = 0)
      ∧ ∀ pos, pos < 0 ∨ stop ≤ pos →
          ((bare .haskell).lex b 0 1 .blockComment).tokenAt pos = b.tokenAt pos :=
  ⟨by decide, lex_spans (bare .haskell) (Buffer.wellFormed_ofText _) (by decide) .blockComment⟩

end Lexer

end Restyle
