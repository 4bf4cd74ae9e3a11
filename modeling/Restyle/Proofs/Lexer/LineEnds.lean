/-
Restyle.Proofs.Lexer.LineEnds — what a line of a lexed buffer tells the
next.

A call can start at a line start because all that it has to know is the
token on the last byte of the line before and the state of that line. The
theorems say what these can be in a buffer that was lexed as a whole, for
each lexer, and that they agree with each other.
-/
import Restyle.Proofs.Haskell.LineEnds
import Restyle.Proofs.Lexer.Resume
import Restyle.Proofs.R.LineEnds

namespace Restyle

namespace Lexer

variable {b : Buffer} {p : Nat}

/-- What a lexed buffer holds at a line end is what the whole run says of it. -/
theorem eq_of_whole (l : Lexer) (hb : b.WellFormed) (hp : b.text.breaksAfter p = true)
    {token : Token} {state : Int} (htoken : (l.whole b.text).tokenAt? p = some token)
    (hstate : (l.whole b.text).stateOf? (b.text.lineOf p) = some state) :
    (l.lex b 0 b.size .plain).tokenAt p = token
      ∧ (l.lex b 0 b.size .plain).lineState (b.text.lineOf p) = state := by
  have ht := l.tokenAt?_whole hb (b.text.lt_size_of_breaksAfter hp)
  have hs := l.stateOf?_whole hb (b.text.lineOf_le_lastLine p)
  rw [htoken] at ht
  rw [hstate] at hs
  exact ⟨(Option.some.inj ht).symm, (Option.some.inj hs).symm⟩

/-- On the last byte of a line terminator stands plain text, a comment or a pragma, or a
token that a backslash before it has kept open; and the state of the line has a comment
depth exactly if a comment stands there. -/
theorem haskell_line_ends (g : Haskell.Settings) (firstImport : Option Nat) (hb : b.WellFormed)
    (hsize : b.size < 2 ^ 28) (hp : b.text.breaksAfter p = true) :
    let lexed := (haskell g firstImport).lex b 0 b.size .plain
    let line := b.text.lineOf p
    (lexed.tokenAt p ∈ [Token.plain, .blockComment, .pragma]
        ∨ (lexed.tokenAt p ∈ [Token.string, .directive]
          ∧ b.text.PrecededBy Ascii.backslash (b.text.lineEnd line))
        ∨ (lexed.tokenAt p = .char ∧ b.text.PrecededBy Ascii.backslash p))
      ∧ (0 < (Haskell.LineState.unpack (lexed.lineState line)).depth
        ↔ lexed.tokenAt p = .blockComment) := by
  obtain ⟨token, saved, htoken, hstate, hcarried, hdepth, hle⟩ := Haskell.exists_carried g hp
  obtain ⟨ht, hs⟩ := eq_of_whole (haskell g firstImport) hb hp htoken hstate
  have hsize' : b.text.size < 2 ^ 28 := hsize
  dsimp only
  rw [ht, hs, Haskell.LineState.unpack_pack (by omega)]
  exact ⟨hcarried, hdepth⟩

/-- The end of a line inside a comment that was opened on it. -/
theorem haskell_line_ends_of_comment :
    let b := Buffer.ofText (.ofBytes #[0x7B, 0x2D, 0x0D, 0x0A, 0x2D, 0x7D] .utf8)
    let lexed := (haskell {} none).lex b 0 b.size .plain
    let line := b.text.lineOf 3
    b.size < 2 ^ 28 ∧ b.text.breaksAfter 3 = true
      ∧ (lexed.tokenAt 3 ∈ [Token.plain, .blockComment, .pragma]
        ∨ (lexed.tokenAt 3 ∈ [Token.string, .directive]
          ∧ b.text.PrecededBy Ascii.backslash (b.text.lineEnd line))
        ∨ (lexed.tokenAt 3 = .char ∧ b.text.PrecededBy Ascii.backslash 3))
      ∧ (0 < (Haskell.LineState.unpack (lexed.lineState line)).depth
        ↔ lexed.tokenAt 3 = .blockComment) :=
  ⟨by decide, by decide, haskell_line_ends {} none (Buffer.wellFormed_ofText _) (by decide)
    (by decide)⟩

/-- On the last byte of a line terminator stands plain text, quoted text or a percent
operator that the line leaves open; the line has a state exactly if a raw string stands
there, and that is what the bytes that opened the raw string say of how it will close. -/
theorem r_line_ends (g : R.Settings) (hb : b.WellFormed) (hsize : b.size < 2 ^ 23)
    (hp : b.text.breaksAfter p = true) :
    let lexed := (r g).lex b.clearLog 0 b.size .plain
    let state := lexed.lineState (b.text.lineOf p)
    lexed.tokenAt p ∈ [Token.plain, .string, .singleQuoted, .backticked, .rawString,
        .rawSingleQuoted, .openPercentOperator]
      ∧ (state ≠ 0 ↔ lexed.tokenAt p ∈ [Token.rawString, .rawSingleQuoted])
      ∧ (state ≠ 0 → ∃ d, ∃ span ∈ lexed.log, R.LineState.unpack state = some d
        ∧ span.contains p = true ∧ span.token = lexed.tokenAt p
        ∧ R.Opens b.text span.start (R.quoteOf span.token) d) := by
  obtain ⟨token, saved, htoken, hstate, hcarried, hsome, hfits, hopens⟩ :=
    R.exists_carried g hsize hp
  obtain ⟨ht, hs⟩ := eq_of_whole (b := b.clearLog) (r g) hb.clearLog hp htoken hstate
  have hlog := (r g).log_lex_whole hb
  dsimp only
  rw [show ((r g).lex b.clearLog 0 b.size .plain).tokenAt p = token from ht,
    show ((r g).lex b.clearLog 0 b.size .plain).lineState (b.text.lineOf p) = _ from hs, hlog]
  have hunpack := R.LineState.unpack_pack hfits
  have hzero : R.LineState.pack saved ≠ 0 ↔ saved.isSome = true := by
    cases saved with
    | none => simp [R.LineState.pack]
    | some d =>
      refine ⟨fun _ => rfl, fun _ hz => ?_⟩
      rw [hz] at hunpack
      cases hunpack
  refine ⟨hcarried, ?_, ?_⟩
  · rw [hzero, hsome]
    simp [R.isRaw]
  · intro h
    obtain ⟨d, rfl⟩ := Option.isSome_iff_exists.1 (hzero.1 h)
    obtain ⟨span, hspan, hin, rfl, hd⟩ := hopens d rfl
    exact ⟨d, span, hspan, hunpack, hin, rfl, hd⟩

/-- The end of a line inside a raw string with a dash. -/
theorem r_line_ends_of_raw_string :
    let b := Buffer.ofText (.ofBytes #[0x72, 0x27, 0x2D, 0x5B, 0x0A, 0x5D] .utf8)
    let lexed := (r {}).lex b.clearLog 0 b.size .plain
    let state := lexed.lineState (b.text.lineOf 4)
    b.size < 2 ^ 23 ∧ b.text.breaksAfter 4 = true
      ∧ lexed.tokenAt 4 ∈ [Token.plain, .string, .singleQuoted, .backticked, .rawString,
        .rawSingleQuoted, .openPercentOperator]
      ∧ (state ≠ 0 ↔ lexed.tokenAt 4 ∈ [Token.rawString, .rawSingleQuoted])
      ∧ (state ≠ 0 → ∃ d, ∃ span ∈ lexed.log, R.LineState.unpack state = some d
        ∧ span.contains 4 = true ∧ span.token = lexed.tokenAt 4
        ∧ R.Opens b.text span.start (R.quoteOf span.token) d) :=
  ⟨by decide, by decide, r_line_ends {} (Buffer.wellFormed_ofText _) (by decide) (by decide)⟩

end Lexer

end Restyle
