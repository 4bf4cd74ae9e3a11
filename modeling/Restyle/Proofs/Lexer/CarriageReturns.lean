/-
Restyle.Proofs.Lexer.CarriageReturns — what texts lex and fold to with
CRLF for LF.

If the stylings of the two texts say the same, so do the buffers, and the
folder then comes to the same levels (`lex_fold_of_moved`). The Haskell
folder looks at a line up to the line feed, so with CRLF it also looks at
the carriage return; but on a line that is not white it stops before that
(`blankToAside_crlf`). Lines are therefore indented, put aside and taken
for imports as before (`agrees_of_crlf`). The R folder takes the carriage
return for one more blank that is no brace (`run_crlf_feed`).

R says the same in all texts. Haskell does, unless a line feed ends up in a
character literal: there the backslash before it skips the carriage return
only, and the literal ends at the line feed
(`haskell_lex_fold_crlf_of_escaped_line_feed`).
-/
import Restyle.Proofs.Haskell.CarriageReturns
import Restyle.Proofs.Lexer.Encoding
import Restyle.Proofs.R.CarriageReturns

namespace Restyle

/-! ## 1. Folding Haskell -/

namespace Indentation

variable {t : Text} (h : t.NoReturns)
include h

/-- A line is looked at over the same bytes, and over the carriage return if it ends in one. -/
theorem exists_extra (line : Nat) : ∃ extra,
    lineStop t.crlf line - t.crlf.lineStart line = lineStop t line - t.lineStart line + extra
      ∧ (extra = 0 ∨ t.byteAt (t.lineStart line + (lineStop t line - t.lineStart line)) = 10)
      ∧ ∀ p, t.lineStart line ≤ p → p < lineStop t line → t.byteAt p ≠ 10 := by
  have hle := t.lineStart_le_size line
  rcases Nat.lt_or_ge line t.lastLine with hlt | hge
  · have hline := t.lineOf_lineStart (Nat.le_of_lt hlt)
    have hnext := t.lineOf_lineStart (Nat.succ_le_of_lt hlt)
    have hlt' := Haskell.Folding.lineStart_lt_succ hlt
    obtain ⟨q, hq⟩ := Nat.exists_eq_succ_of_ne_zero (Nat.ne_zero_of_lt hlt')
    rw [Nat.succ_eq_add_one] at hq hnext
    rw [hq] at hnext hlt'
    -- the line feed stands where looking stops
    have hbreak : t.breaksAfter q = true :=
      ((t.lineStart_lineOf_eq_iff (q + 1)).1 (by rw [hnext, hq])).resolve_left (Nat.succ_ne_zero q)
    have hlf : t.byteAt q = 10 := by
      rw [Text.breaksAfter_eq h] at hbreak
      exact beq_iff_eq.1 hbreak
    have hsucc := t.lineOf_succ q
    rw [hbreak, if_pos rfl, hnext] at hsucc
    refine ⟨1, ?_, Or.inr ?_, ?_⟩
    · rw [lineStop, lineStop, Text.lineStart_crlf h, Text.lineStart_crlf h, hq, Text.crlfPos,
        Text.crlfPos, hline, hnext]
      omega
    · rw [lineStop, hq, Nat.add_sub_cancel, Nat.add_sub_cancel' (Nat.le_of_lt_succ hlt')]
      exact hlf
    · intro p hp hp'
      rw [lineStop, hq, Nat.add_sub_cancel] at hp'
      exact Text.byteAt_ne_of_lineOf_le (by omega) hp hp'
  · have hend := t.lineStart_of_lastLine_lt (Nat.lt_succ_of_le hge)
    have hline : t.lineOf (t.lineStart line) = t.lastLine := by
      rcases Nat.eq_or_lt_of_le hge with heq | hgt
      · rw [← heq, t.lineOf_lineStart (Nat.le_refl _)]
      · rw [t.lineStart_of_lastLine_lt hgt, Text.lastLine]
    refine ⟨0, ?_, Or.inl rfl, ?_⟩
    · rw [lineStop, lineStop, Text.lineStart_crlf h, Text.lineStart_crlf h, hend, Text.crlfPos,
        Text.crlfPos, hline, Text.lastLine]
      omega
    · intro p hp hp'
      exact Text.byteAt_ne_of_lineOf_le (hline ▸ t.lineOf_le_lastLine _) hp hp'

/-- The first byte that is no blank is the same, in the same column. -/
theorem measure_crlf {extra fuel pos : Nat} (hextra : extra = 0 ∨ t.byteAt (pos + fuel) = 10)
    (hno : ∀ p, pos ≤ p → p < pos + fuel → t.byteAt p ≠ 10) (column : Nat) :
    measure t.crlf (fuel + extra) (t.crlfPos pos) column
      = ((measure t fuel pos column).1, t.crlfPos (measure t fuel pos column).2) := by
  induction fuel generalizing pos column with
  | zero =>
    cases extra with
    | zero => rfl
    | succ extra =>
      have hlf : t.byteAt pos = 10 := hextra.resolve_left (Nat.succ_ne_zero extra)
      have hbyte : t.crlf.byteAt (t.crlfPos pos) = 13 := by rw [Text.byteAt_crlfPos h, if_pos hlf]
      rw [Nat.zero_add]
      simp [measure, isBlank, hbyte]
  | succ fuel ih =>
    have hb := hno pos (Nat.le_refl pos) (by omega)
    have hstep := Text.crlfPos_succ h pos
    rw [if_neg hb] at hstep
    rw [Nat.add_right_comm, measure, measure, Text.byteAt_crlfPos_of_ne h hb, ← hstep]
    by_cases hblank : isBlank (t.byteAt pos) = true
    · rw [if_pos hblank, if_pos hblank]
      exact ih (by rwa [Nat.add_assoc, Nat.add_comm 1]) (fun p hp hp' => hno p (by omega) (by omega)) _
    · rw [if_neg hblank, if_neg hblank]

/-- Lines are indented as before. -/
theorem level_crlf (line : Nat) : level t.crlf line = level t line := by
  obtain ⟨extra, hfuel, hextra, hno⟩ := exists_extra h line
  have hmeasure := measure_crlf h hextra (fun p hp hp' => hno p hp (by omega)) 0
  have hsize : t.crlfPos (t.lineStart line) = t.crlf.size ↔ t.lineStart line = t.size := by
    have hle := t.lineStart_le_size line
    have hiff := Text.crlf_size_le_crlfPos_iff (p := t.lineStart line) h
    have hmono := (Text.crlfPos_le_iff (t := t)).2 hle
    rw [← Text.size_crlf h] at hmono
    omega
  rw [level, level, hfuel, Text.lineStart_crlf h, hmeasure]
  simp only [hsize, Text.byteAt_crlfPos h]
  generalize t.byteAt _ = b
  by_cases hb : b = 10
  · simp [hb]
  · simp [hb]

end Indentation

namespace Haskell.Folding

variable {o : Options} {b b' : Buffer}

section

variable (h : b.text.NoReturns) (ht : b'.text = b.text.crlf)
  (htoken : ∀ p < b.size, b.text.byteAt p ≠ 10 → b'.tokenAt (b.text.crlfPos p) = b.tokenAt p)
include h ht htoken

/-- The bytes up to the first that is no blank are looked at alike, if that is no line feed. -/
theorem blankToAside_crlf {extra fuel pos : Nat}
    (hextra : extra = 0 ∨ b.text.byteAt (pos + fuel) = 10)
    (hno : ∀ p, pos ≤ p → p < pos + fuel → b.text.byteAt p ≠ 10) (hsize : pos + fuel ≤ b.size)
    {column : Nat}
    (hend : b.text.byteAt (Indentation.measure b.text fuel pos column).2 ≠ 10) :
    blankToAside b' (fuel + extra) (b.text.crlfPos pos) = blankToAside b fuel pos := by
  induction fuel generalizing pos column with
  | zero =>
    rcases hextra with rfl | hlf
    · rfl
    · exact absurd hlf hend
  | succ fuel ih =>
    have hb := hno pos (Nat.le_refl pos) (by omega)
    have hstep := Text.crlfPos_succ h pos
    rw [if_neg hb] at hstep
    rw [Nat.add_right_comm, blankToAside, blankToAside, htoken pos (by omega) hb, ht,
      Text.byteAt_crlfPos_of_ne h hb, ← hstep]
    rw [Indentation.measure] at hend
    by_cases hblank : Indentation.isBlank (b.text.byteAt pos) = true
    · rw [if_pos hblank] at hend
      rw [ih (by rwa [Nat.add_assoc, Nat.add_comm 1]) (fun p hp hp' => hno p (by omega) (by omega))
        (by omega) hend]
    · rw [if_neg hblank, if_neg hblank]

/-- Every line looks the same to the folder. -/
theorem agrees_of_crlf (n : Nat) : Agrees o b b' n where
  indent line _ := by rw [indent, indent, ht, Indentation.level_crlf h]
  aside line _ hwhite := by
    obtain ⟨extra, hfuel, hextra, hno⟩ := Indentation.exists_extra h line
    have hstart := b.text.lineStart_le_size line
    have hstop := b.text.lineStart_le_size (line + 1)
    rw [isAside, isAside, ht, hfuel, Text.lineStart_crlf h]
    apply blankToAside_crlf h ht htoken hextra (fun p hp hp' => hno p hp (by omega))
    · show _ ≤ b.text.size
      rw [Indentation.lineStop]
      omega
    · -- a line whose first byte that is no blank is a line feed is white
      rw [indent, Indentation.level] at hwhite
      simp only [Bool.or_eq_false_iff, beq_eq_false_iff_ne] at hwhite
      exact hwhite.1.2
  imports line _ := by
    have hletter : ∀ c ∈ importWord, c ≠ 10 ∧ c ≠ 13 := by decide
    rw [Bool.eq_iff_iff, isImport_iff, isImport_iff, ht, Text.lineStart_crlf h,
      Text.spells_crlf_iff h hletter]

end

end Haskell.Folding

/-! ## 2. Folding R -/

namespace R.Folding

variable {o : Options} {b b' : Buffer} {k : Nat}

section

variable (h : b.text.NoReturns) (ht : b'.text = b.text.crlf)
  (htoken : ∀ p < b.size, b.text.byteAt p ≠ 10 → b'.tokenAt (b.text.crlfPos p) = b.tokenAt p)

/-- Only a brace is counted. -/
theorem countBrace_of_ne {pos : Nat} (hopen : b.text.byteAt pos ≠ 123)
    (hclose : b.text.byteAt pos ≠ 125) (s : State) : s.countBrace b pos = s := by
  have hopen' : b.text.byteAt pos ≠ '\x7b'.toNat := hopen
  have hclose' : b.text.byteAt pos ≠ '\x7d'.toNat := hclose
  rw [State.countBrace, if_neg hopen', if_neg hclose', ite_self]

include h ht

/-- A carriage return and a line feed are taken in like the line feed alone. -/
theorem run_crlf_feed {p : Nat} (hb : b.text.byteAt p = 10) (s : State) :
    run o b' s (List.range' (b.text.crlfPos p) 2) = run o b s [p] := by
  have hbreak : b.text.breaksAfter p = true := by rw [Text.breaksAfter_eq h, hb]; rfl
  have hreturn : b'.text.byteAt (b.text.crlfPos p) = 13 := by
    rw [ht, Text.byteAt_crlfPos h, if_pos hb]
  have hfeed : b'.text.byteAt (b.text.crlfPos p + 1) = 10 := by
    rw [ht, Text.byteAt_crlfPos_succ h hb]
  have hno : b'.text.breaksAfter (b.text.crlfPos p) = false := by
    rw [ht, Text.breaksAfter_crlfPos h]
  have hbreak' : b'.text.breaksAfter (b.text.crlfPos p + 1) = true := by
    rw [ht, Text.breaksAfter_crlfPos_succ h hb]
  have hfirst : step o b' s (b.text.crlfPos p) = ([], s) := by
    have hspace : Ascii.isSpace 13 = true := rfl
    rw [step, countBrace_of_ne (by omega) (by omega), endsLineAt_eq, hno, hreturn, hspace]
    simp
  simp only [List.range', run, hfirst, step_of_break hbreak, step_of_break hbreak']
  rw [countBrace_of_ne (by omega) (by omega), countBrace_of_ne (by omega) (by omega)]
  rfl

include htoken

/-- Every other byte is taken in as before. -/
theorem step_crlf_of_ne {p : Nat} (hp : p < b.size) (hb : b.text.byteAt p ≠ 10) (s : State) :
    step o b' s (b.text.crlfPos p) = step o b s p := by
  have hbyte : b'.text.byteAt (b.text.crlfPos p) = b.text.byteAt p := by
    rw [ht, Text.byteAt_crlfPos_of_ne h hb]
  have hend : endsLineAt b'.text (b.text.crlfPos p) = endsLineAt b.text p := by
    rw [endsLineAt_eq, endsLineAt_eq, ht, Text.breaksAfter_crlfPos h, Text.breaksAfter_eq h]
    exact (beq_eq_false_iff_ne.2 hb).symm
  simp only [step, State.countBrace, hbyte, htoken p hp hb, hend]

/-- Runs over what stands before a place say the same and come to stand alike. -/
theorem before_crlf (hk : k ≤ b.size) : before o b' (b.text.crlfPos k) = before o b k := by
  induction k with
  | zero =>
    rw [Text.crlfPos_zero, before, before, start_zero, start_zero]
    rfl
  | succ k ih =>
    have ih := ih (Nat.le_of_succ_le hk)
    rw [Text.crlfPos_succ h, before_add k 1, before_add (b.text.crlfPos k), ih]
    by_cases hb : b.text.byteAt k = 10
    · rw [if_pos hb, run_crlf_feed h ht hb]
      rfl
    · rw [if_neg hb]
      simp only [List.range', run, step_crlf_of_ne h ht htoken hk hb]

/-- The whole text gets the same levels. -/
theorem whole_crlf : whole o b' = whole o b := by
  have hsize : b'.size = b.text.crlfPos b.size := by
    show b'.text.size = _
    rw [ht, Text.size_crlf h]
    rfl
  rw [whole_eq, whole_eq, hsize, before_crlf h ht htoken (Nat.le_refl _), ht, Text.lastLine_crlf h]

end

end R.Folding

/-! ## 3. Whole texts -/

theorem Styling.tokenAt?_congr {r r' : Styling} (h : r'.spans = r.spans) (pos : Nat) :
    r'.tokenAt? pos = r.tokenAt? pos := by
  rw [tokenAt?, tokenAt?, h]

namespace Lexer

variable {t : Text} {b b' : Buffer} (l : Lexer)

/-- Stylings that say the same of single bytes say the same in every encoding. -/
theorem moved_of_bytewise (ht : t.NoReturns)
    (h : Styling.Moved t.bytewise (l.whole t.bytewise) (l.whole t.bytewise.crlf)) :
    Styling.Moved t (l.whole t) (l.whole t.crlf) := by
  obtain ⟨hspans, hstates⟩ := l.whole_bytewise t
  obtain ⟨hspans', hstates'⟩ := l.whole_bytewise t.crlf
  constructor
  · intro p hp hb
    rw [← Styling.tokenAt?_congr hspans, ← Styling.tokenAt?_congr hspans']
    exact h.tokens p hp hb
  · intro line hline
    rw [← hstates line hline, ← hstates' line (by rwa [Text.lastLine_crlf ht])]
    exact h.states line hline

/-- Lexing leaves the same tokens on all bytes but line ends, and the same line states, if the
stylings say so. -/
theorem lex_of_moved (ht : t.NoReturns) (h : Styling.Moved t (l.whole t) (l.whole t.crlf)) :
    let lexed (t : Text) := l.lex (.ofText t) 0 t.size .plain
    (∀ p < t.size, t.byteAt p ≠ 10 → (lexed t.crlf).tokenAt (t.crlfPos p) = (lexed t).tokenAt p)
      ∧ (lexed t.crlf).lineStates = (lexed t).lineStates := by
  intro lexed
  have hb := Buffer.wellFormed_ofText t
  have hb' := Buffer.wellFormed_ofText t.crlf
  constructor
  · intro p hp hbyte
    have hlook := l.tokenAt?_whole hb hp
    have hlook' := l.tokenAt?_whole hb' (Text.crlfPos_lt_size ht hp)
    exact Option.some.inj (hlook'.symm.trans ((h.tokens p hp hbyte).trans hlook))
  · apply Buffer.lineStates_ext (wellFormed_lex _ hb ..) (wellFormed_lex _ hb' ..)
    · rw [text_lex, text_lex]
      exact Text.lineCount_crlf ht
    · intro line hline
      rw [text_lex] at hline
      have hline' : line ≤ t.crlf.lastLine := by rwa [Text.lastLine_crlf ht]
      have hlook := l.stateOf?_whole hb hline
      have hlook' := l.stateOf?_whole hb' hline'
      exact Option.some.inj (hlook'.symm.trans ((h.states line hline).trans hlook))

/-- Folding leaves the same levels, if it is given the same tokens. -/
theorem fold_crlf (h : b.text.NoReturns) (ht : b'.text = b.text.crlf)
    (htoken : ∀ p < b.size, b.text.byteAt p ≠ 10 →
      b'.tokenAt (b.text.crlfPos p) = b.tokenAt p)
    (hlevels : b'.levels = b.levels) :
    (l.fold b' 0 b'.size).2.levels = (l.fold b 0 b.size).2.levels := by
  cases l with
  | haskell g firstImport =>
    have hsame : Haskell.Folding.levels g.options b' firstImport 0 b'.size
        = Haskell.Folding.levels g.options b firstImport 0 b.size :=
      Haskell.Folding.levels_congr (Haskell.Folding.agrees_of_crlf h ht htoken)
        (by rw [ht, Text.lastLine_crlf h]) firstImport
    simp only [fold, hsame]
    exact Buffer.levels_setLevels_congr hlevels _
  | r g =>
    have hsame : R.Folding.levels g.options b' 0 b'.size = R.Folding.levels g.options b 0 b.size :=
      R.Folding.whole_crlf h ht htoken
    simp only [fold, hsame]
    exact Buffer.levels_setLevels_congr hlevels _

/-- Lexing and folding both texts leaves the same, if the stylings say the same. -/
theorem lex_fold_of_moved (ht : t.NoReturns)
    (h : Styling.Moved t (l.whole t) (l.whole t.crlf)) :
    let lexed (t : Text) := l.lex (.ofText t) 0 t.size .plain
    let folded (t : Text) := (l.fold (lexed t) 0 t.size).2
    (∀ p < t.size, t.byteAt p ≠ 10 →
        (folded t.crlf).tokenAt (t.crlfPos p) = (folded t).tokenAt p)
      ∧ (folded t.crlf).lineStates = (folded t).lineStates
      ∧ (folded t.crlf).levels = (folded t).levels := by
  intro lexed folded
  obtain ⟨htokens, hstates⟩ := l.lex_of_moved ht h
  have hsize (t : Text) : (lexed t).size = t.size := l.size_lex ..
  have htext (t : Text) : (lexed t).text = t := l.text_lex ..
  have hempty (t : Text) : (lexed t).levels = Array.replicate t.lineCount FoldLevel.base :=
    Buffer.levels_restyle ..
  have hfolded (t : Text) : ∃ levels, folded t = (lexed t).setLevels levels := by
    obtain ⟨_, levels, heq⟩ := l.fold_eq (lexed t) 0 t.size
    exact ⟨levels, congrArg Prod.snd heq⟩
  obtain ⟨levels, heq⟩ := hfolded t
  obtain ⟨levels', heq'⟩ := hfolded t.crlf
  refine ⟨?_, ?_, ?_⟩
  · intro p hp hbyte
    rw [heq, heq', Buffer.tokenAt_setLevels, Buffer.tokenAt_setLevels]
    exact htokens p hp hbyte
  · rw [heq, heq', Buffer.lineStates_setLevels, Buffer.lineStates_setLevels]
    exact hstates
  · have hfold : ((l.fold (lexed t.crlf) 0 (lexed t.crlf).size).2.levels
        = (l.fold (lexed t) 0 (lexed t).size).2.levels) := by
      apply l.fold_crlf
      · rwa [htext]
      · rw [htext, htext]
      · rwa [htext, hsize]
      · rw [hempty, hempty, Text.lineCount_crlf ht]
    rwa [hsize, hsize] at hfold

/-! ### R -/

/-- Lexing and folding a whole text without carriage returns, and the same text with CRLF for
LF, leaves the same tokens on all bytes but line ends, and the same line states and levels. -/
theorem r_lex_fold_crlf (g : R.Settings) (ht : t.NoReturns) :
    let l := r g
    let lexed (t : Text) := l.lex (.ofText t) 0 t.size .plain
    let folded (t : Text) := (l.fold (lexed t) 0 t.size).2
    (∀ p < t.size, t.byteAt p ≠ 10 →
        (folded t.crlf).tokenAt (t.crlfPos p) = (folded t).tokenAt p)
      ∧ (folded t.crlf).lineStates = (folded t).lineStates
      ∧ (folded t.crlf).levels = (folded t).levels :=
  (r g).lex_fold_of_moved ht ((r g).moved_of_bytewise ht (R.whole_crlf g ht rfl))

/-- A percent operator that its line leaves open, a raw string over a line end, a comment, and
braces around all of them. -/
theorem r_lex_fold_crlf_of_open_lines :
    let t := Text.ofBytes "\x7b%a\nr\"(\n)\"#c\n\x7d".toUTF8.data .utf8
    let l := r {}
    let lexed (t : Text) := l.lex (.ofText t) 0 t.size .plain
    let folded (t : Text) := (l.fold (lexed t) 0 t.size).2
    t.NoReturns
      ∧ (∀ p < t.size, t.byteAt p ≠ 10 →
        (folded t.crlf).tokenAt (t.crlfPos p) = (folded t).tokenAt p)
      ∧ (folded t.crlf).lineStates = (folded t).lineStates
      ∧ (folded t.crlf).levels = (folded t).levels :=
  ⟨by decide +kernel, r_lex_fold_crlf {} (by decide +kernel)⟩

/-! ### Haskell -/

/-- Lexing and folding a whole text without carriage returns, and the same text with CRLF for
LF, leaves the same tokens on all bytes but line ends, and the same line states and levels, if
no line feed ends up in a character literal. -/
theorem haskell_lex_fold_crlf (g : Haskell.Settings) (firstImport : Option Nat)
    (ht : t.NoReturns)
    (hchar : ∀ p < t.size, t.byteAt p = 10 →
      ((haskell g firstImport).lex (.ofText t) 0 t.size .plain).tokenAt p ≠ .char) :
    let l := haskell g firstImport
    let lexed (t : Text) := l.lex (.ofText t) 0 t.size .plain
    let folded (t : Text) := (l.fold (lexed t) 0 t.size).2
    (∀ p < t.size, t.byteAt p ≠ 10 →
        (folded t.crlf).tokenAt (t.crlfPos p) = (folded t).tokenAt p)
      ∧ (folded t.crlf).lineStates = (folded t).lineStates
      ∧ (folded t.crlf).levels = (folded t).levels := by
  refine (haskell g firstImport).lex_fold_of_moved ht
    ((haskell g firstImport).moved_of_bytewise ht (Haskell.whole_crlf g ht rfl ?_))
  intro p hp hsome
  have hp : t.byteAt p = 10 := hp
  have hlt := t.lt_size_of_byteAt (p := p) (by omega)
  have hlook := (haskell g firstImport).tokenAt?_whole (Buffer.wellFormed_ofText t) hlt
  have hspans := ((haskell g firstImport).whole_bytewise t).1
  refine hchar p hlt hp (Option.some.inj (hlook.symm.trans ?_))
  exact (Styling.tokenAt?_congr hspans p).symm.trans hsome

/-- A string that goes on over a line end, and a line that is indented. -/
theorem haskell_lex_fold_crlf_of_string_gap :
    let t := Text.ofBytes #[0x22, 0x5C, 0x0A, 0x5C, 0x61, 0x22, 0x0A, 0x20, 0x62] .utf8
    let l := haskell { options := { fold := true } } none
    let lexed (t : Text) := l.lex (.ofText t) 0 t.size .plain
    let folded (t : Text) := (l.fold (lexed t) 0 t.size).2
    t.NoReturns ∧ (∀ p < t.size, t.byteAt p = 10 → (lexed t).tokenAt p ≠ .char)
      ∧ (∀ p < t.size, t.byteAt p ≠ 10 →
        (folded t.crlf).tokenAt (t.crlfPos p) = (folded t).tokenAt p)
      ∧ (folded t.crlf).lineStates = (folded t).lineStates
      ∧ (folded t.crlf).levels = (folded t).levels :=
  ⟨by decide +kernel, by decide +kernel,
    haskell_lex_fold_crlf _ none (by decide +kernel) (by decide +kernel)⟩

/-- A backslash in a character literal takes a line feed along, but of CRLF the carriage return
only, and the line feed ends the literal. -/
theorem haskell_lex_fold_crlf_of_escaped_line_feed :
    let t := Text.ofBytes #[0x27, 0x5C, 0x0A, 0x61, 0x27] .utf8
    let l := haskell {} none
    let lexed (t : Text) := l.lex (.ofText t) 0 t.size .plain
    let folded (t : Text) := (l.fold (lexed t) 0 t.size).2
    t.NoReturns ∧ ¬ ∀ p < t.size, t.byteAt p ≠ 10 →
      (folded t.crlf).tokenAt (t.crlfPos p) = (folded t).tokenAt p := by
  decide +kernel

end Lexer

end Restyle
