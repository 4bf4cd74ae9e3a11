/-
Restyle.Proofs.Lexer.Delimited — tokens with an opening and a closing of
their own.

Such a token is one span in a buffer that was lexed as a whole, however
many lines it goes over. The theorems say where it ends, by a rule about
the bytes of the text alone.
-/
import Restyle.Proofs.Haskell.Strings
import Restyle.Proofs.Lexer.Resume
import Restyle.Proofs.R.Strings

namespace Restyle

namespace Lexer

variable {b : Buffer} {p : Nat}

/-- A comment that is opened outside every token is one span that ends where the count of its
brackets first comes to zero, or else at the end of the text; and a line that ends in it has
that count for its depth. -/
theorem haskell_comments_nest (g : Haskell.Settings) (firstImport : Option Nat)
    (hb : b.WellFormed) (hp : Haskell.Meets g b.text p) (ho : Haskell.OpensComment b.text p)
    (hno : b.text.byteAt (p + 2) ≠ '#'.toNat) :
    let lexed := (haskell g firstImport).lex b.clearLog 0 b.size .plain
    ∃ stop, Haskell.EndsComment b.text (p + 2) stop
      ∧ ⟨p, stop, .blockComment⟩ ∈ lexed.log
      ∧ (∀ x, p ≤ x → x < stop → lexed.tokenAt x = .blockComment)
      ∧ ∀ x, p ≤ x → x ≤ stop → b.text.lineEndsAt x = true →
        let depth := Haskell.nesting 1 (b.text.bytesIn (p + 2) x)
        depth ≠ 0 → depth < 2 ^ 28 →
          (Haskell.LineState.unpack (lexed.lineState (b.text.lineOf x))).depth = depth := by
  obtain ⟨stop, hend, hmem, hlines⟩ := Haskell.exists_endsComment g hp ho hno
  obtain ⟨hlog, htoken⟩ := (haskell g firstImport).mem_log_lex_whole hb hmem
  refine ⟨stop, hend, hlog, htoken, ?_⟩
  intro x hle hx hlast depth hopen hdepth
  have hinside : p + 2 ≤ x := by
    by_contra hlt
    rw [Haskell.lineEndsAt_of_bracket (Or.inl ho) hle (by omega)] at hlast
    cases hlast
  obtain ⟨mode, hstate⟩ := hlines x hinside hx hlast hopen
  have hwhole := (haskell g firstImport).stateOf?_whole (b := b.clearLog) hb.clearLog
    (b.text.lineOf_le_lastLine x)
  have heq := (Option.some.inj (hstate.symm.trans hwhole)).symm
  rw [show (((haskell g firstImport).lex b.clearLog 0 b.size .plain).lineState
    (b.text.lineOf x)) = _ from heq, Haskell.LineState.unpack_pack hdepth]

/-- A comment behind a name, with brackets that overlap in it; the text ends before it does. -/
theorem haskell_comments_nest_of_overlap :
    let b := Buffer.ofText
      (.ofBytes #[0x61, 0x7B, 0x2D, 0x7B, 0x2D, 0x7D, 0x0A, 0x2D, 0x7D] .utf8)
    let lexed := (haskell {} none).lex b.clearLog 0 b.size .plain
    Haskell.Meets {} b.text 1 ∧ Haskell.OpensComment b.text 1
      ∧ b.text.byteAt (1 + 2) ≠ '#'.toNat
      ∧ ∃ stop, Haskell.EndsComment b.text (1 + 2) stop
      ∧ ⟨1, stop, .blockComment⟩ ∈ lexed.log
      ∧ (∀ x, 1 ≤ x → x < stop → lexed.tokenAt x = .blockComment)
      ∧ ∀ x, 1 ≤ x → x ≤ stop → b.text.lineEndsAt x = true →
        let depth := Haskell.nesting 1 (b.text.bytesIn (1 + 2) x)
        depth ≠ 0 → depth < 2 ^ 28 →
          (Haskell.LineState.unpack (lexed.lineState (b.text.lineOf x))).depth = depth := by
  have hmeets : Haskell.Meets {}
      (.ofBytes #[0x61, 0x7B, 0x2D, 0x7B, 0x2D, 0x7D, 0x0A, 0x2D, 0x7D] .utf8) 1 :=
    ⟨_, .round (.round .refl (by decide)) (by decide), by decide, by decide, by decide⟩
  exact ⟨hmeets, by decide, by decide, haskell_comments_nest {} none (Buffer.wellFormed_ofText _)
    hmeets (by decide) (by decide)⟩

/-- A string that is opened outside every token is one span. It ends behind the first quote that
is not escaped, or with the first line whose terminator is not, or else with the text; and a
terminator that is escaped lies inside it. -/
theorem haskell_strings_end (g : Haskell.Settings) (firstImport : Option Nat) (hb : b.WellFormed)
    (hp : Haskell.Meets g b.text p) (hquote : b.text.byteAt p = Ascii.doubleQuote.toNat) :
    let lexed := (haskell g firstImport).lex b.clearLog 0 b.size .plain
    ∃ stop, Haskell.EndsString g.options b.text (p + 1) stop
      ∧ ⟨p, stop, .string⟩ ∈ lexed.log
      ∧ (∀ x, p ≤ x → x < stop → lexed.tokenAt x = .string)
      ∧ (b.text.breaksAfter stop = true → lexed.tokenAt stop = .plain)
      ∧ ∀ x, p ≤ x → x ≤ stop → b.text.breaksAfter x = true →
        ¬Even (Haskell.backslashes b.text (b.text.lineEnd (b.text.lineOf x))) →
        x < stop ∧ lexed.tokenAt x = .string := by
  obtain ⟨stop, hend, hmem, hline⟩ := Haskell.exists_endsString g hp hquote
  obtain ⟨hlog, htoken⟩ := (haskell g firstImport).mem_log_lex_whole hb hmem
  refine ⟨stop, hend, hlog, htoken, fun hbreak => ?_, fun x hle hx hbreak hodd => ?_⟩
  · have hwhole := (haskell g firstImport).tokenAt?_whole (b := b.clearLog) hb.clearLog
      (b.text.lt_size_of_breaksAfter hbreak)
    exact (Option.some.inj ((hline hbreak).symm.trans hwhole)).symm
  · have hlt := hend.lt_of_escaped hx hbreak hodd
    exact ⟨hlt, htoken x hle hlt⟩

/-- A string with a quote and a line end in it that are escaped, and a magic hash behind it. -/
theorem haskell_strings_end_of_gap :
    let b := Buffer.ofText (.ofBytes
      #[0x20, 0x22, 0x5C, 0x22, 0x5C, 0x0D, 0x0A, 0x5C, 0x5C, 0x22, 0x23, 0x0A] .utf8)
    let lexed := (haskell {} none).lex b.clearLog 0 b.size .plain
    Haskell.Meets {} b.text 1 ∧ b.text.byteAt 1 = Ascii.doubleQuote.toNat
      ∧ ∃ stop, Haskell.EndsString {} b.text (1 + 1) stop
      ∧ ⟨1, stop, .string⟩ ∈ lexed.log
      ∧ (∀ x, 1 ≤ x → x < stop → lexed.tokenAt x = .string)
      ∧ (b.text.breaksAfter stop = true → lexed.tokenAt stop = .plain)
      ∧ ∀ x, 1 ≤ x → x ≤ stop → b.text.breaksAfter x = true →
        ¬Even (Haskell.backslashes b.text (b.text.lineEnd (b.text.lineOf x))) →
        x < stop ∧ lexed.tokenAt x = .string := by
  have hmeets : Haskell.Meets {} (.ofBytes
      #[0x20, 0x22, 0x5C, 0x22, 0x5C, 0x0D, 0x0A, 0x5C, 0x5C, 0x22, 0x23, 0x0A] .utf8) 1 :=
    ⟨_, .round .refl (by decide), by decide, by decide, by decide⟩
  exact ⟨hmeets, by decide,
    haskell_strings_end {} none (Buffer.wellFormed_ofText _) hmeets (by decide)⟩

/-- A raw string that is opened outside every token is one span that ends behind the first
place where its bracket, as many dashes and its quote stand, or else at the end of the text. -/
theorem r_raw_strings_close (g : R.Settings) (hb : b.WellFormed) {token : Token}
    {d : R.Delimiter} (htoken : token = .rawString ∨ token = .rawSingleQuoted)
    (hp : R.Meets g b.text p) (hopens : R.Opens b.text p (R.quoteOf token) d) :
    let lexed := (r g).lex b.clearLog 0 b.size .plain
    ∃ stop, R.EndsRawString b.text (R.quoteOf token) d (p + 3 + d.dashes) stop
      ∧ ⟨p, stop, token⟩ ∈ lexed.log
      ∧ ∀ x, p ≤ x → x < stop → lexed.tokenAt x = token := by
  have hraw : R.isRaw token = true := by rcases htoken with rfl | rfl <;> rfl
  obtain ⟨stop, hstop, hmem⟩ := R.exists_endsRawString g hraw hp hopens
  obtain ⟨hlog, hbytes⟩ := (r g).mem_log_lex_whole hb hmem
  exact ⟨stop, hstop, hlog, hbytes⟩

/-- A raw string with two dashes and a line end in it, and a bracket with one dash before the
one that closes it. -/
theorem r_raw_strings_close_of_near_miss :
    let b := Buffer.ofText (.ofBytes
      #[0x20, 0x72, 0x22, 0x2D, 0x2D, 0x28, 0x0A, 0x29, 0x2D, 0x29, 0x2D, 0x2D, 0x22, 0x20] .utf8)
    let lexed := (r {}).lex b.clearLog 0 b.size .plain
    let d : R.Delimiter := ⟨0x29, 2⟩
    (Token.rawString = .rawString ∨ Token.rawString = .rawSingleQuoted) ∧ R.Meets {} b.text 1
      ∧ R.Opens b.text 1 (R.quoteOf .rawString) d
      ∧ ∃ stop, R.EndsRawString b.text (R.quoteOf .rawString) d (1 + 3 + d.dashes) stop
      ∧ ⟨1, stop, .rawString⟩ ∈ lexed.log
      ∧ ∀ x, 1 ≤ x → x < stop → lexed.tokenAt x = .rawString := by
  have hmeets : R.Meets {} (.ofBytes #[0x20, 0x72, 0x22, 0x2D, 0x2D, 0x28, 0x0A, 0x29, 0x2D, 0x29,
      0x2D, 0x2D, 0x22, 0x20] .utf8) 1 :=
    ⟨_, .round .refl (by decide), by decide, by decide, by decide⟩
  have hopens : R.Opens (.ofBytes #[0x20, 0x72, 0x22, 0x2D, 0x2D, 0x28, 0x0A, 0x29, 0x2D, 0x29,
      0x2D, 0x2D, 0x22, 0x20] .utf8) 1 (R.quoteOf .rawString) ⟨0x29, 2⟩ :=
    ⟨by decide, by decide, by decide, by decide⟩
  exact ⟨Or.inl rfl, hmeets, hopens,
    r_raw_strings_close {} (Buffer.wellFormed_ofText _) (Or.inl rfl) hmeets hopens⟩

/-- A quoted token that is opened outside every token, by its mark or by one behind an `r` that
starts no raw string, is one span that ends behind the first mark of its own that is not escaped,
or else at the end of the text. -/
theorem r_quoted_tokens_close (g : R.Settings) (hb : b.WellFormed) {token : Token} {mark : Char}
    (hopens : R.OpensQuoted g b.text token mark p) :
    let lexed := (r g).lex b.clearLog 0 b.size .plain
    ∃ stop, R.EndsQuoted b.text mark (p + 1) stop
      ∧ ⟨p, stop, token⟩ ∈ lexed.log
      ∧ ∀ x, p ≤ x → x < stop → lexed.tokenAt x = token := by
  obtain ⟨stop, hstop, hmem⟩ := R.exists_endsQuoted g hopens
  obtain ⟨hlog, hbytes⟩ := (r g).mem_log_lex_whole hb hmem
  exact ⟨stop, hstop, hlog, hbytes⟩

/-- A string behind an `r`, with an escaped quote, another kind of quote, a line end and an
escaped backslash in it. -/
theorem r_quoted_tokens_close_behind_letter :
    let b := Buffer.ofText (.ofBytes
      #[0x72, 0x22, 0x61, 0x5C, 0x22, 0x27, 0x0A, 0x5C, 0x5C, 0x22, 0x20] .utf8)
    let lexed := (r {}).lex b.clearLog 0 b.size .plain
    R.OpensQuoted {} b.text .string Ascii.doubleQuote 1
      ∧ ∃ stop, R.EndsQuoted b.text Ascii.doubleQuote (1 + 1) stop
      ∧ ⟨1, stop, .string⟩ ∈ lexed.log
      ∧ ∀ x, 1 ≤ x → x < stop → lexed.tokenAt x = .string := by
  have hmeets : R.Meets {} (.ofBytes
      #[0x72, 0x22, 0x61, 0x5C, 0x22, 0x27, 0x0A, 0x5C, 0x5C, 0x22, 0x20] .utf8) 0 :=
    ⟨_, .refl, by decide, by decide, by decide⟩
  have hnone : R.delimiterAt? (.ofBytes
      #[0x72, 0x22, 0x61, 0x5C, 0x22, 0x27, 0x0A, 0x5C, 0x5C, 0x22, 0x20] .utf8) (0 + 2) = none := by
    decide
  have hopens : R.OpensQuoted {} (.ofBytes
      #[0x72, 0x22, 0x61, 0x5C, 0x22, 0x27, 0x0A, 0x5C, 0x5C, 0x22, 0x20] .utf8) .string
      Ascii.doubleQuote 1 :=
    .behind rfl (by decide) hmeets (by decide) (by decide) fun d hd =>
      nomatch hnone.symm.trans hd.delimiterAt?
  exact ⟨hopens, r_quoted_tokens_close {} (Buffer.wellFormed_ofText _) hopens⟩

end Lexer

end Restyle
