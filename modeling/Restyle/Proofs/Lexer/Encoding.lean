/-
Restyle.Proofs.Lexer.Encoding — what a lexer says does not depend on the
encoding.

A text and its bytes lead to the same spans and line states
(`whole_bytewise`), since each machine over the bytes follows that over
the text. All encodings of the same bytes therefore agree, and buffers
that are lexed and folded stay the same but for the encoding of their text
(`lex_recode`, `fold_recode`).
-/
import Restyle.Proofs.Haskell.Encoding
import Restyle.Proofs.Lexer.Folding
import Restyle.Proofs.R.Encoding

namespace Restyle

variable {t : Text}

/-! ## 1. Whole runs -/

namespace Engine

variable {E : Engine} (hE : E.Sound) {L : E.State t → E.State t.bytewise → Prop}
include hE

/-- If the machine over the bytes catches up with each round of that over the text, both
say the same. -/
theorem Sound.whole_bytewise (hscan : ∀ m m', L m m' → Scanner.Recoded (E.scan m) (E.scan m'))
    (hround : ∀ m m', L m m' → (E.scan m).more = true → ∃ r', E.Comes m' r' ∧ L (E.round m) r')
    (hstart : L (E.start t 0 t.size .plain 0) (E.start t.bytewise 0 t.size .plain 0)) :
    (E.whole t.bytewise).spans = (E.whole t).spans
      ∧ ∀ line ≤ t.lastLine, (E.whole t.bytewise).stateOf? line = (E.whole t).stateOf? line := by
  have hends := hE.ends_start t 0 t.size .plain 0
  have hends' := hE.ends_start t.bytewise 0 t.size .plain 0
  have hlast := hends.simulates hround (fun m m' hm hno => by
    have hs := hscan m m' hm
    have hpos := hs.pos
    have hstop := hs.stop
    have hstop' := hs.stop'
    simp only [Cursor.more, decide_eq_false_iff_not] at hno ⊢
    omega) hends' hstart
  have hs := hscan _ _ hlast
  have hstop := hs.stop
  have hno := hends.more
  rw [Cursor.more, decide_eq_false_iff_not] at hno
  refine ⟨hs.finish.spans, fun line hline => ?_⟩
  rw [whole, whole, style, style, Scanner.stateOf?_finish, Scanner.stateOf?_finish]
  apply hs.noted
  have hmono := t.lineAt_mono (show t.size + 1 ≤ (E.scan (E.last t 0 t.size .plain 0)).pos by omega)
  rw [t.lineAt_size_succ] at hmono
  omega

end Engine

namespace Haskell

theorem whole_bytewise (g : Settings) (t : Text) :
    ((engine g).whole t.bytewise).spans = ((engine g).whole t).spans
      ∧ ∀ line ≤ t.lastLine,
        ((engine g).whole t.bytewise).stateOf? line = ((engine g).whole t).stateOf? line := by
  apply (sound g).whole_bytewise (L := Machine.Follows)
  · exact fun _ _ h => h.scan
  · exact fun _ _ h hmore => h.step g hmore
  · exact Machine.follows_start t (LineState.unpack 0) rfl

end Haskell

namespace R

theorem whole_bytewise (g : Settings) (t : Text) :
    ((engine g).whole t.bytewise).spans = ((engine g).whole t).spans
      ∧ ∀ line ≤ t.lastLine,
        ((engine g).whole t.bytewise).stateOf? line = ((engine g).whole t).stateOf? line := by
  apply (sound g).whole_bytewise (L := Machine.Follows)
  · exact fun _ _ h => h.scan
  · exact fun _ _ h hmore => h.step g hmore
  · exact Machine.follows_start t

end R

namespace Lexer

theorem whole_bytewise (t : Text) : ∀ l : Lexer,
    (l.whole t.bytewise).spans = (l.whole t).spans
      ∧ ∀ line ≤ t.lastLine, (l.whole t.bytewise).stateOf? line = (l.whole t).stateOf? line
  | haskell g _ => Haskell.whole_bytewise g t
  | r g => R.whole_bytewise g t

/-- Any two encodings agree. -/
theorem whole_recode (l : Lexer) (t : Text) (e : Encoding) :
    (l.whole (t.recode e)).spans = (l.whole t).spans
      ∧ ∀ line ≤ t.lastLine, (l.whole (t.recode e)).stateOf? line = (l.whole t).stateOf? line := by
  obtain ⟨hspans, hstates⟩ := whole_bytewise t l
  obtain ⟨hspans', hstates'⟩ := whole_bytewise (t.recode e) l
  exact ⟨hspans'.symm.trans hspans, fun line hline =>
    (hstates' line hline).symm.trans (hstates line hline)⟩

end Lexer

/-! ## 2. Buffers -/

namespace Buffer

variable {b : Buffer}

/-- The buffer with its text in another encoding. -/
def recode (b : Buffer) (e : Encoding) : Buffer := { b with text := b.text.recode e }

theorem WellFormed.recode (hb : b.WellFormed) (e : Encoding) : (b.recode e).WellFormed :=
  { hb with }

theorem paint_recode (b : Buffer) (e : Encoding) (s : Span) :
    (b.recode e).paint s = (b.paint s).recode e := by
  rw [paint, paint, show (b.recode e).styles = b.styles from rfl]
  by_cases hs : min s.stop b.styles.size ≤ s.start
  · simp only [if_pos hs]
  · simp only [if_neg hs]
    rfl

theorem foldl_paint_recode (e : Encoding) (spans : List Span) (b : Buffer) :
    spans.foldl paint (b.recode e) = (spans.foldl paint b).recode e := by
  induction spans generalizing b with
  | nil => rfl
  | cons s spans ih => rw [List.foldl_cons, List.foldl_cons, paint_recode, ih]

theorem setLevels_recode (e : Encoding) (levels : List (Nat × FoldLevel)) (b : Buffer) :
    (b.recode e).setLevels levels = (b.setLevels levels).recode e := by
  unfold setLevels
  induction levels generalizing b with
  | nil => rfl
  | cons p levels ih => exact ih (b.setLevel p.1 p.2.pack)

/-- Stylings that paint the same and say the same states leave the same. -/
theorem restyle_recode (hb : b.WellFormed) (e : Encoding) {r r' : Styling}
    (hspans : r'.spans = r.spans)
    (hstates : ∀ line ≤ b.text.lastLine, r'.stateOf? line = r.stateOf? line) :
    (b.recode e).restyle r' = (b.restyle r).recode e := by
  have hlines : ((b.recode e).restyle r').lineStates = ((b.restyle r).recode e).lineStates := by
    apply lineStates_ext ((hb.restyle r).recode e) ((hb.recode e).restyle r')
    · rw [text_restyle, recode, recode, text_restyle]
    · intro line hline
      have hline : line ≤ b.text.lastLine := by simpa [recode] using hline
      have hlt : line < b.lineStates.size := by
        have hcount := b.text.lineCount_eq_lastLine
        rw [hb.lineStates_size]
        omega
      rw [lineState_restyle _ _ (by exact hlt), hstates line hline]
      exact (lineState_restyle b r hlt).symm
  rw [restyle_eq, (foldl_setLineState_keeps _ _).1, ← restyle_eq, hlines, hspans,
    foldl_paint_recode, restyle_eq b r, (foldl_setLineState_keeps _ (r.spans.toList.foldl paint b)).1]
  rfl

end Buffer

namespace Lexer

variable {b : Buffer}

/-- Lexing a whole text in another encoding leaves the same. -/
theorem lex_recode (l : Lexer) (hb : b.WellFormed) (e : Encoding) :
    l.lex (b.recode e) 0 b.size .plain = (l.lex b 0 b.size .plain).recode e := by
  obtain ⟨hspans, hstates⟩ := l.whole_recode b.text e
  rw [lex, lex, l.styling_whole, show l.styling (b.recode e) 0 b.size .plain
    = l.whole (b.text.recode e) from l.styling_whole (b.recode e)]
  exact Buffer.restyle_recode hb e hspans hstates

/-- Folding it leaves the same as well. -/
theorem fold_recode (l : Lexer) (b : Buffer) (e : Encoding) :
    l.fold (b.recode e) 0 b.size = ((l.fold b 0 b.size).1, (l.fold b 0 b.size).2.recode e) := by
  cases l with
  | haskell g f =>
    have htext : (b.recode e).text = b.text.recode e := rfl
    have hA (n : Nat) : Haskell.Folding.Agrees g.options b (b.recode e) n :=
      Haskell.Folding.agrees_of_recode htext (fun _ => rfl) n
    have hlevels : Haskell.Folding.levels g.options (b.recode e) f 0 b.size
        = Haskell.Folding.levels g.options b f 0 b.size :=
      Haskell.Folding.levels_congr hA rfl f
    simp only [fold, hlevels, Buffer.setLevels_recode]
  | r g =>
    have hlevels : R.Folding.levels g.options (b.recode e) 0 b.size
        = R.Folding.levels g.options b 0 b.size :=
      R.Folding.whole_congr_of_recode (b := b) rfl fun _ => rfl
    simp only [fold, hlevels, Buffer.setLevels_recode]

/-- Lexing and folding the bytes of a whole text leaves the same spans, styles, line states
and levels in every encoding. -/
theorem lex_fold_of_bytes (l : Lexer) (bytes : Array UInt8) (e e' : Encoding) :
    let lexed (e : Encoding) := l.lex (Buffer.ofText (.ofBytes bytes e)) 0 bytes.size .plain
    let folded (e : Encoding) := l.fold (lexed e) 0 bytes.size
    (folded e').1 = (folded e).1 ∧ (folded e').2.log = (folded e).2.log
      ∧ (folded e').2.styles = (folded e).2.styles
      ∧ (folded e').2.lineStates = (folded e).2.lineStates
      ∧ (folded e').2.levels = (folded e).2.levels := by
  intro lexed folded
  have hlexed : lexed e' = (lexed e).recode e' :=
    l.lex_recode (Buffer.wellFormed_ofText (.ofBytes bytes e)) e'
  have hsize : (lexed e).size = bytes.size := l.size_lex ..
  have hfolded : folded e' = ((folded e).1, (folded e).2.recode e') := by
    have hfold := l.fold_recode (lexed e) e'
    rw [hsize] at hfold
    simp only [folded, hlexed, hfold]
  rw [hfolded]
  exact ⟨rfl, rfl, rfl, rfl, rfl⟩

end Lexer

end Restyle
