/-
Restyle.Proofs.Haskell.Tandem — what a round of the Haskell lexer may be.

At a sign two machines whose scanners go in tandem do the same
(`Paired.stepToken`). That is shown here once for each branch of the
lexer, for any relation between the scanners.

What is left is little. Away from signs a machine is mostly `idle`: it
passes a character by, and ends its token if the line ends there
(`stepToken_of_idle`). A literal takes the character after a backslash
as it is (`stepToken_of_escapes`). Only these two, and the backslash
that keeps a token open over a line end, can come over a line end or
over a character that is no sign, and those who relate machines have to
say what becomes of them.
-/
import Restyle.Proofs.Haskell.Rounds
import Restyle.Proofs.Scanner.Tandem

namespace Restyle

namespace Haskell

open Scanner (Tandem isSign isSign_of_isDigit isSign_of_isUpper isSign_of_isLower
  isSign_of_isAlphanumeric)

/-- Tokens that end with their line. While they are open they may be relabelled, and the
machine may remember more of them than its mode and depth. -/
def isLoose (token : Token) : Bool :=
  token == .operator || token == .identifier || token == .lineComment || token == .number

/-! ## 1. Characters -/

theorem isSign_of_isOperatorChar {c : Nat} (h : isOperatorChar c = true) : isSign c = true :=
  Scanner.isSign_of_oneOf (by decide) h

theorem isSign_of_isPunctuation {c : Nat} (h : isPunctuation c = true) : isSign c = true :=
  Scanner.isSign_of_oneOf (by decide) h

theorem isSign_of_isWordStart {c : Nat} (h : isWordStart c = true) : isSign c = true := by
  simp only [isWordStart, Bool.or_eq_true] at h
  rcases h with (h | h) | h
  · exact isSign_of_isLower h
  · exact isSign_of_isUpper h
  · exact Scanner.isSign_of_oneOf (by decide) h

theorem isSign_of_isWordChar {c : Nat} (h : isWordChar c = true) : isSign c = true := by
  simp only [isWordChar, Bool.or_eq_true] at h
  rcases h with h | h
  · exact isSign_of_isAlphanumeric h
  · exact Scanner.isSign_of_oneOf (by decide) h

theorem isSign_of_radixDigit (radix : Radix) {c : Nat} (h : radix.isDigit c = true) :
    isSign c = true := by
  apply Scanner.isSign_iff.2
  cases radix <;>
    simp [Radix.isDigit, Ascii.isOctalDigit, Ascii.isDigit, Ascii.isHexDigit] at h <;> omega

namespace Machine

variable {t t' : Text} {k : Nat} {R Q : Scanner t → Scanner t' → Prop}
  {s : Scanner t} {s' : Scanner t'}

/-! ## 2. What is done at signs -/

section

variable (T : Tandem isLoose k R Q) (h : R s s')
include T h

theorem operatorToken_eq : operatorToken s' = operatorToken s := by
  have hbyte {t : Text} (s : Scanner t) : s.byteBeside 2 = t.byteAt (s.pos + 2) := by
    rw [Cursor.byteBeside, if_pos (by omega)]
    rfl
  rw [operatorToken, operatorToken, T.sees h (by decide), hbyte, hbyte]
  cases hs : s.sees ':' with
  | false => rfl
  | true =>
    have hc := Scanner.isSign_of_sees (by decide) hs
    rw [T.seesNext h hc (by decide)]
    cases hn : s.seesNext ':' with
    | false => rfl
    | true =>
      rw [Scanner.class_of_kind_eq
        (T.kind_byteAt_add_two h hc (Scanner.isSign_of_seesNext (by decide) hn))
        fun _ => isSign_of_isOperatorChar]

theorem tandem_operatorRun (hl : isLoose s.token = true) : R (operatorRun s) (operatorRun s') := by
  have hskip := T.skip (fun _ => isSign_of_isOperatorChar) h
  have hmarked := T.marked hskip (by rw [Scanner.token_skip]; exact hl)
  rw [operatorRun, operatorRun, operatorToken_eq T h]
  exact T.of_marked (T.relabel .plain (T.paint _ hmarked))

theorem tandem_skipHash (opts : Options) (two : Bool) :
    R (skipHash opts two s) (skipHash opts two s') := by
  rw [skipHash, skipHash, T.sees h (by decide)]
  split
  · rename_i hc
    have h₁ := T.forward_of_sees h (by decide) (Bool.and_eq_true_iff.1 hc).2
    dsimp only
    rw [T.sees h₁ (by decide)]
    split
    · rename_i hc₁
      exact T.forward_of_sees h₁ (by decide) (Bool.and_eq_true_iff.1 hc₁).2
    · exact h₁
  · exact h

omit T h in
theorem token_numeral (opts : Options) (radix : Radix) (s : Scanner t) :
    (numeral opts radix s).token = s.token ∨ (numeral opts radix s).token = .plain := by
  rw [numeral]
  split
  · exact Or.inl rfl
  · split
    · left
      dsimp only
      split <;> rfl
    · exact Or.inr rfl

theorem tandem_numeral (opts : Options) (radix : Radix) :
    R (numeral opts radix s) (numeral opts radix s') := by
  have hexp : (radix == .decimal && Ascii.oneOf ['e', 'E'] s'.ch
        && (Ascii.isDigit s'.next || Ascii.oneOf ['+', '-'] s'.next))
      = (radix == .decimal && Ascii.oneOf ['e', 'E'] s.ch
        && (Ascii.isDigit s.next || Ascii.oneOf ['+', '-'] s.next)) := by
    rw [T.ch h (Scanner.signs ['e', 'E'] (by decide))]
    cases hs : Ascii.oneOf ['e', 'E'] s.ch with
    | false => simp
    | true =>
      have hc := Scanner.isSign_of_oneOf (by decide) hs
      rw [T.next h hc fun _ => isSign_of_isDigit,
        T.next h hc (Scanner.signs ['+', '-'] (by decide))]
  rw [numeral, numeral, T.sees_and_next h (by decide) fun _ => isSign_of_radixDigit radix, hexp,
    T.ch h fun _ => isSign_of_radixDigit radix]
  split
  · rename_i hc
    rw [Bool.or_eq_true, Bool.and_eq_true] at hc
    rcases hc with hc | ⟨hc, -⟩
    · exact T.forward h (isSign_of_radixDigit radix hc)
    · exact T.forward_of_sees h (by decide) hc
  · split
    · rename_i hc
      simp only [Bool.and_eq_true] at hc
      have h₁ := T.forward h (Scanner.isSign_of_oneOf (by decide) hc.1.2)
      dsimp only
      rw [T.ch h₁ (Scanner.signs ['+', '-'] (by decide))]
      split
      · rename_i hsign
        exact T.forward h₁ (Scanner.isSign_of_oneOf (by decide) hsign)
      · exact h₁
    · exact T.of_marked (T.switch .plain (tandem_skipHash T h opts true))

omit T h in
theorem token_startQuote (opts : Options) (s : Scanner t) :
    (startQuote opts s).token ∈ [Token.char, .identifier, .operator, .plain] := by
  rw [startQuote]
  repeat' split
  all_goals simp

omit T h in
/-- Whatever comes later in the text, a quote with no sign behind it opens a literal. -/
theorem startQuote_of_not_sign {opts : Options}
    (hs : isSign (s.switch .char).forward.ch = false) :
    startQuote opts s = (s.switch .char).forward.relabel .char := by
  have hsees {c : Char} := Scanner.sees_eq_false hs (c := c)
  rw [startQuote, hsees (by decide), hsees (by decide), hsees (by decide), hsees (by decide),
    Scanner.class_eq_false (fun _ => isSign_of_isWordStart) hs]
  simp

/-- Whether a name starts or a literal is quoted is decided by the two characters behind the
quote. -/
theorem tandem_startQuote (opts : Options) (hc : s.sees Ascii.singleQuote = true) :
    R (startQuote opts s) (startQuote opts s')
      ∧ ((startQuote opts s).token = .identifier → isWordStart (startQuote opts s).ch = true) := by
  have hq₁ : Q (s.switch .char).forward (s'.switch .char).forward :=
    T.forward_marked (T.switch .char h) (by
      rw [Scanner.toCursor_switch]
      exact Scanner.isSign_of_sees (by decide) hc)
  have h₁ := T.of_marked hq₁
  cases hsign : isSign (s.switch .char).forward.ch with
  | false =>
    rw [startQuote_of_not_sign hsign, startQuote_of_not_sign ((T.isSign_ch h₁).trans hsign)]
    exact ⟨T.of_marked (T.relabel .char hq₁), by simp⟩
  | true =>
    rw [startQuote, startQuote]
    generalize (s.switch .char).forward = r, (s'.switch .char).forward = r' at hq₁ h₁ hsign
    have hrelabel (token : Token) : R (r.relabel token) (r'.relabel token) :=
      T.of_marked (T.relabel token hq₁)
    rw [T.sees h₁ (by decide), T.sees h₁ (by decide), T.sees h₁ (by decide),
      T.sees h₁ (by decide), T.ch h₁ fun _ => isSign_of_isWordStart,
      T.next h₁ hsign fun _ => isSign_of_isWordStart, T.seesNext h₁ hsign (by decide)]
    split
    · exact ⟨hrelabel _, by simp⟩
    · split
      · rename_i hname
        rw [Bool.and_eq_true] at hname
        refine ⟨T.of_marked (T.relabel _ (T.forward_marked hq₁ hsign)), ?_⟩
        intro _
        rw [Scanner.toCursor_relabel, T.ch_forward h₁]
        exact hname.2
      · split
        · exact ⟨hrelabel _, by simp⟩
        · split
          · rename_i hname
            exact ⟨hrelabel _, fun _ => hname⟩
          · split
            · exact ⟨hrelabel _, by simp⟩
            · split
              · exact ⟨T.of_marked (T.relabel _ (T.paint .operator hq₁)), by simp⟩
              · exact ⟨hrelabel _, by simp⟩

end

theorem tandem_nameRest (T : Tandem isLoose k R Q) (opts : Options) (fuel : Nat) :
    ∀ (fuel' : Nat) (token : Token) {s : Scanner t} {s' : Scanner t'}, R s s' →
      k - s.pos ≤ fuel → k - s.pos ≤ fuel' →
      (nameRest opts fuel' token s').1 = (nameRest opts fuel token s).1
        ∧ R (nameRest opts fuel token s).2 (nameRest opts fuel' token s').2
        ∧ (nameRest opts fuel token s).2.token = s.token := by
  induction fuel with
  | zero =>
    intro fuel' token s s' h hf
    have := T.lt h
    omega
  | succ fuel ih =>
    intro fuel' token s s' h hf hf'
    have hlt := T.lt h
    obtain ⟨fuel', rfl⟩ : ∃ n, fuel' = n + 1 := ⟨fuel' - 1, by omega⟩
    have hmove (token : Token) (hs : isSign s.ch = true) :
        (nameRest opts fuel' token s'.forward).1 = (nameRest opts fuel token s.forward).1
          ∧ R (nameRest opts fuel token s.forward).2 (nameRest opts fuel' token s'.forward).2
          ∧ (nameRest opts fuel token s.forward).2.token = s.token := by
      have hpos := T.pos_lt_forward h
      exact ih fuel' token (T.forward h hs) (by omega) (by omega)
    rw [nameRest, nameRest, T.more h, T.more' h, T.ch h fun _ => isSign_of_isWordChar,
      T.sees h (by decide), T.sees h (by decide)]
    simp only [Bool.not_true, Bool.false_eq_true, if_false]
    split
    · rename_i hc
      exact hmove token (isSign_of_isWordChar hc)
    · split
      · rename_i hc
        exact ⟨rfl, T.forward_of_sees h (by decide) (Bool.and_eq_true_iff.1 hc).1, rfl⟩
      · split
        · rename_i hc
          have hs := Scanner.isSign_of_sees (by decide) (Bool.and_eq_true_iff.1 hc).2
          rw [T.next h hs fun _ => isSign_of_isUpper, T.next h hs fun _ => isSign_of_isWordStart,
            T.next h hs fun _ => isSign_of_isOperatorChar]
          split
          · exact hmove _ hs
          · split
            · exact hmove _ hs
            · split
              · have h₁ := T.forward h hs
                refine ⟨by dsimp only; rw [T.sees h₁ (by decide)], ?_, ?_⟩
                · exact T.skip (fun _ => isSign_of_isOperatorChar) h₁
                · exact Scanner.token_skip _ _
              · exact ⟨rfl, h, rfl⟩
        · exact ⟨rfl, h, rfl⟩

theorem tandem_name (T : Tandem isLoose k R Q) (h : R s s') (opts : Options)
    (hw : isWordStart s.ch = true) :
    (name opts s').1 = (name opts s).1 ∧ R (name opts s).2 (name opts s').2
      ∧ (name opts s).2.token = s.token := by
  have h₁ := T.forward h (isSign_of_isWordStart hw)
  have hstop := T.stop h₁
  have hroom := T.room h₁
  rw [name, name, T.ch h fun _ => isSign_of_isUpper]
  exact tandem_nameRest T opts _ _ _ h₁ (by omega) (by omega)

theorem word_eq (g : Settings) (m : Machine t) :
    m.word g =
      let r := name g.options m.scan
      let c := classify g r.2.openText r.1 m.mode
      { m with scan := (r.2.paintTo r.2.pos c.1).relabel .plain, mode := c.2 } := by
  unfold word
  generalize name g.options m.scan = r
  obtain ⟨scanned, s⟩ := r
  rfl

/-! ## 3. Machines in tandem -/

variable {m : Machine t} {m' : Machine t'}

/-- The scanners of the machines are related, and they remember the same as far as their
token has them remember it. -/
structure Paired (R : Scanner t → Scanner t' → Prop) (m : Machine t) (m' : Machine t') : Prop where
  scan : R m.scan m'.scan
  mode : m'.mode = m.mode
  depth : m'.depth = m.depth
  depth_le : m.depth ≤ m.scan.pos
  radix : m.scan.token = .number → m'.radix = m.radix
  inDashes : m.scan.token = .lineComment → m'.inDashes = m.inDashes
  onWord : m.scan.token = .identifier → isWordStart m.scan.ch = true

/-- Machines that remember nothing but mode and depth. -/
theorem paired_of_token (hs : R m.scan m'.scan) (hmode : m'.mode = m.mode)
    (hdepth : m'.depth = m.depth) (hle : m.depth ≤ m.scan.pos)
    (ht : m.scan.token ∉ [Token.number, .lineComment, .identifier]) : Paired R m m' := by
  simp only [List.mem_cons, List.not_mem_nil, or_false, not_or] at ht
  exact { scan := hs, mode := hmode, depth := hdepth, depth_le := hle
          radix := fun h => absurd h ht.1
          inDashes := fun h => absurd h ht.2.1
          onWord := fun h => absurd h ht.2.2 }

/-- The backslash after which a literal takes a character as it is. -/
def escapes (m : Machine t) : Bool :=
  (m.scan.token == .string || m.scan.token == .char) && m.scan.sees Ascii.backslash

theorem escapes_iff : m.escapes = true
    ↔ (m.scan.token = .string ∨ m.scan.token = .char) ∧ m.scan.sees Ascii.backslash = true := by
  simp only [escapes, Bool.and_eq_true, Bool.or_eq_true, beq_iff_eq]

/-- A machine in a token that only a sign or the end of its line can end. -/
def idle (o : Options) (m : Machine t) : Bool :=
  match m.scan.token with
  | .operator | .number | .identifier => false
  | .lineComment => !m.inDashes
  | .directive => !o.commandWordOnly
  | _ => true

theorem ne_identifier_of_idle {o : Options} (h : m.idle o = true) :
    m.scan.token ≠ .identifier := by
  intro ht
  rw [idle, ht] at h
  cases h

theorem idle_of_escapes (o : Options) (h : m.escapes = true) : m.idle o = true := by
  rw [idle]
  rcases (escapes_iff.1 h).1 with ht | ht <;> rw [ht]

/-- Whether the token of an idle machine ends before what is no sign: with its line, or
because it is none that this lexer leaves open. -/
def endsHere (s : Scanner t) : Bool :=
  match s.token with
  | .plain | .blockComment | .pragma => false
  | .string | .char | .lineComment | .directive => s.atLineEnd
  | _ => true

/-- Passes a character that is no sign. -/
def pass (m : Machine t) : Machine t :=
  m.map fun s => (if endsHere s then s.switch .plain else s).forward

theorem reach_pass (m : Machine t) : m.scan.Reach m.pass.scan := by
  rw [pass, map]
  dsimp only
  split
  · exact (Scanner.Reach.refl.switch _).forward
  · exact Scanner.Reach.refl.forward

/-- The machine with a note of mode and depth if it stands at the end of its line. -/
def noteEnd (m : Machine t) : Machine t := if m.scan.atLineEnd then m.saveLine else m

namespace Paired

variable (T : Tandem isLoose k R Q) (h : Paired R m m')
include T h

/-! ### Going on with a token -/

omit T in
/-- A change of the scanner alone, to a token that needs no memory. -/
theorem scan_change {s : Scanner t} {s' : Scanner t'} (hs : R s s') (hr : m.scan.Reach s)
    (ht : s.token ∉ [Token.number, .lineComment, .identifier]) :
    Paired R { m with scan := s } { m' with scan := s' } :=
  paired_of_token hs h.mode h.depth (Nat.le_trans h.depth_le hr.pos_le) ht

omit T in
/-- A change of place. -/
theorem move {s : Scanner t} {s' : Scanner t'} (hs : R s s') (hr : m.scan.Reach s)
    (ht : s.token = m.scan.token) (hid : m.scan.token ≠ .identifier) :
    Paired R { m with scan := s } { m' with scan := s' } where
  scan := hs
  mode := h.mode
  depth := h.depth
  depth_le := Nat.le_trans h.depth_le hr.pos_le
  radix hn := h.radix (ht.symm.trans hn)
  inDashes hc := h.inDashes (ht.symm.trans hc)
  onWord hw := absurd (ht.symm.trans hw) hid

/-- A move at a sign. -/
theorem forward (hc : isSign m.scan.ch = true) (ht : m.scan.token ≠ .identifier) :
    Paired R (m.map (·.forward)) (m'.map (·.forward)) :=
  h.move (T.forward h.scan hc) Scanner.Reach.refl.forward rfl ht

theorem switch {token : Token} (hl : isLoose token = false) :
    Paired R (m.map (·.switch token)) (m'.map (·.switch token)) := by
  refine h.scan_change (T.of_marked (T.switch token h.scan)) (Scanner.Reach.refl.switch token) ?_
  show token ∉ _
  intro hmem
  simp only [List.mem_cons, List.not_mem_nil, or_false] at hmem
  rcases hmem with rfl | rfl | rfl <;> cases hl

theorem operatorRun (ht : m.scan.token = .operator) :
    Paired R (m.map operatorRun) (m'.map operatorRun) :=
  h.scan_change (tandem_operatorRun T h.scan (by rw [ht]; rfl)) (reach_operatorRun _) (by
    show Token.plain ∉ _
    decide)

theorem numeral (opts : Options) (ht : m.scan.token = .number) :
    Paired R (m.map (numeral opts m.radix)) (m'.map (Machine.numeral opts m'.radix)) := by
  have hs := tandem_numeral T h.scan opts m.radix
  have htoken := token_numeral opts m.radix m.scan
  rw [ht] at htoken
  have hreach : m.scan.Reach (Machine.numeral opts m.radix m.scan) := by
    rcases numeral_cases opts m.radix m.scan with hadv | heq
    · exact hadv.reach
    · rw [heq]; exact (reach_skipHash ..).switch _
  rw [h.radix ht]
  refine { scan := hs, mode := h.mode, depth := h.depth,
           depth_le := Nat.le_trans h.depth_le hreach.pos_le, radix := fun _ => h.radix ht,
           inDashes := ?_, onWord := ?_ }
  · intro hc
    have hc : (Machine.numeral opts m.radix m.scan).token = .lineComment := hc
    rcases htoken with htoken | htoken <;> rw [htoken] at hc <;> cases hc
  · intro hc
    have hc : (Machine.numeral opts m.radix m.scan).token = .identifier := hc
    rcases htoken with htoken | htoken <;> rw [htoken] at hc <;> cases hc

/-- A literal ends at its quote or goes on, unless a backslash stands here. -/
theorem quoted (opts : Options) (quote : Char) (hq : isSign quote.toNat = true)
    (hc : isSign m.scan.ch = true) (hs : m.scan.sees Ascii.backslash = false)
    (ht : m.scan.token ≠ .identifier) :
    Paired R (m.quoted opts quote) (m'.quoted opts quote) := by
  rw [Machine.quoted, Machine.quoted, T.sees h.scan hq, T.sees h.scan (by decide), hs,
    T.atLineEnd h.scan hc, T.atLineEnd' h.scan hc]
  simp only [Bool.false_eq_true, if_false]
  split
  · exact h.scan_change
      (T.of_marked (T.switch .plain (tandem_skipHash T (T.forward h.scan hc) opts false)))
      ((Scanner.Reach.refl.forward.trans (reach_skipHash opts false _)).switch _) (by
        show Token.plain ∉ _
        decide)
  · exact h.forward T hc ht

theorem word (g : Settings) (ht : m.scan.token = .identifier) :
    Paired R (m.word g) (m'.word g) := by
  obtain ⟨hscanned, hs, htoken⟩ := tandem_name T h.scan g.options (h.onWord ht)
  have hmarked := T.marked hs (by rw [htoken, ht]; rfl)
  have htext := T.openText hmarked
  have hle := Nat.le_trans h.depth_le (advances_word g m).reach.pos_le
  rw [word_eq] at hle
  rw [word_eq, word_eq]
  dsimp only at hle ⊢
  rw [htext, hscanned, h.mode]
  exact paired_of_token (T.of_marked (T.relabel .plain (T.paint _ hmarked))) rfl h.depth hle (by
    show Token.plain ∉ _
    decide)

/-- Behind its dashes a line comment turns out to be one, or an operator. -/
theorem lineComment (ht : m.scan.token = .lineComment)
    (hc : isSign m.scan.ch = true ∨ m.inDashes = true) :
    Paired R m.lineComment m'.lineComment := by
  have hid : m.scan.token ≠ .identifier := by rw [ht]; decide
  rw [Machine.lineComment, Machine.lineComment, h.inDashes ht, T.sees h.scan (by decide),
    T.ch h.scan fun _ => isSign_of_isOperatorChar]
  split
  · split
    · exact paired_of_token (T.of_marked (T.relabel .operator (T.marked h.scan (by rw [ht]; rfl))))
        h.mode h.depth h.depth_le (by
          show Token.operator ∉ _
          decide)
    · exact { h with inDashes := fun _ => rfl }
  · rename_i hdash
    have hsign : isSign m.scan.ch = true := by
      rcases hc with hc | hc
      · exact hc
      · rw [hc, Bool.true_and, Bool.not_eq_true, Bool.not_eq_false'] at hdash
        exact Scanner.isSign_of_sees (by decide) hdash
    rw [T.atLineEnd h.scan hsign, T.atLineEnd' h.scan hsign]
    exact h.forward T hsign hid

theorem blockComment (ht : m.scan.token = .blockComment) (hc : isSign m.scan.ch = true) :
    Paired R m.blockComment m'.blockComment := by
  have hcalm : m.scan.token ∉ [Token.number, .lineComment, .identifier] := by rw [ht]; decide
  have hle := h.depth_le
  rw [Machine.blockComment, Machine.blockComment, T.seesPair h.scan (by decide) (by decide),
    T.seesPair h.scan (by decide) (by decide), h.depth]
  split
  · rename_i hs
    obtain ⟨h₂, hpos⟩ := T.forwardBy_two h.scan (by decide) (by decide) hs
    refine paired_of_token h₂ h.mode rfl ?_ hcalm
    show m.depth + 1 ≤ (m.scan.forwardBy 2).pos
    omega
  · split
    · rename_i hs
      obtain ⟨h₂, hpos⟩ := T.forwardBy_two h.scan (by decide) (by decide) hs
      have hle' : m.depth - 1 ≤ (m.scan.forwardBy 2).pos := by omega
      dsimp only
      split
      · refine paired_of_token (T.of_marked (T.switch .plain h₂)) h.mode rfl ?_ (by
          show Token.plain ∉ _
          decide)
        show m.depth - 1 ≤ ((m.scan.forwardBy 2).switch .plain).pos
        rw [Scanner.toCursor_switch]
        exact hle'
      · exact paired_of_token h₂ h.mode rfl hle' hcalm
    · exact h.forward T hc (by rw [ht]; decide)

theorem pragma (ht : m.scan.token = .pragma) (hc : isSign m.scan.ch = true) :
    Paired R (m.map pragma) (m'.map Machine.pragma) := by
  have hsees : m'.scan.seesText pragmaClose = m.scan.seesText pragmaClose :=
    T.seesText h.scan (by decide) (by decide) (by decide)
  rw [map, map, Machine.pragma, Machine.pragma, hsees, T.atLineStart h.scan]
  split
  · rename_i hs
    have h₃ := T.forwardBy_three h.scan (by decide) (by decide) (by decide)
      (Bool.and_eq_true_iff.1 hs).1
    exact h.scan_change (T.of_marked (T.switch .plain h₃))
      ((Scanner.Reach.refl.forwardBy 3).switch _) (by
        show Token.plain ∉ _
        decide)
  · exact h.forward T hc (by rw [ht]; decide)

theorem directive (opts : Options) (ht : m.scan.token = .directive)
    (hc : isSign m.scan.ch = true ∨ opts.commandWordOnly = true) :
    Paired R (m.map (directive opts)) (m'.map (Machine.directive opts)) := by
  rw [map, map, Machine.directive, Machine.directive, T.ch h.scan fun _ => isSign_of_isWordStart]
  split
  · exact h.scan_change (T.of_marked (T.switch .plain h.scan)) (Scanner.Reach.refl.switch _) (by
      show Token.plain ∉ _
      decide)
  · rename_i hword
    have hsign : isSign m.scan.ch = true := by
      rcases hc with hc | hc
      · exact hc
      · rw [hc, Bool.true_and, Bool.not_eq_true, Bool.not_eq_false'] at hword
        exact isSign_of_isWordStart hword
    rw [T.atLineEnd h.scan hsign, T.atLineEnd' h.scan hsign]
    exact h.forward T hsign (by rw [ht]; decide)

/-! ### Starting one -/

theorem startNumeral (hd : Ascii.isDigit m.scan.ch = true) :
    Paired R m.startNumeral m'.startNumeral := by
  have hs := T.of_marked (T.switch .number h.scan)
  have hle := Nat.le_trans h.depth_le (advances_startNumeral m).reach.pos_le
  have hsign : isSign (m.scan.switch .number).ch = true := by
    rw [Scanner.toCursor_switch]
    exact isSign_of_isDigit hd
  -- a numeral that is started at the same place, with the same radix
  have build {s : Scanner t} {s' : Scanner t'} (radix : Radix) (hs : R s s')
      (ht : s.token = .number) (hle : m.depth ≤ s.pos) :
      Paired R { m with scan := s, radix := radix, mode := .code }
        { m' with scan := s', radix := radix, mode := .code } := by
    refine { scan := hs, mode := rfl, depth := h.depth, depth_le := hle,
             radix := fun _ => rfl, inDashes := ?_, onWord := ?_ }
    · intro hc
      have hc : s.token = .lineComment := hc
      rw [ht] at hc; cases hc
    · intro hc
      have hc : s.token = .identifier := hc
      rw [ht] at hc; cases hc
  have htwo {set : List Char} (hset : set.all (isSign ·.toNat) = true)
      (hc : ((m.scan.switch .number).sees '0'
        && Ascii.oneOf set (m.scan.switch .number).next) = true) :
      R ((m.scan.switch .number).forwardBy 2) ((m'.scan.switch .number).forwardBy 2) := by
    rw [Bool.and_eq_true] at hc
    exact (T.forward_forward hs hsign (Scanner.isSign_of_oneOf hset hc.2)).1
  rw [Machine.startNumeral] at hle
  rw [Machine.startNumeral, Machine.startNumeral]
  rw [T.sees hs (by decide),
    T.next hs hsign (Scanner.signs ['x', 'X'] (by decide)),
    T.next hs hsign (Scanner.signs ['o', 'O'] (by decide))]
  split
  · rename_i hc
    rw [if_pos hc] at hle
    exact build _ (htwo (by decide) hc) rfl hle
  · rename_i hx
    rw [if_neg hx] at hle
    split
    · rename_i hc
      rw [if_pos hc] at hle
      exact build _ (htwo (by decide) hc) rfl hle
    · rename_i ho
      rw [if_neg ho] at hle
      exact build _ (T.forward hs hsign) rfl hle

theorem startQuote (opts : Options) (hq : m.scan.sees Ascii.singleQuote = true) :
    Paired R (m.map (startQuote opts)) (m'.map (Machine.startQuote opts)) := by
  obtain ⟨hs, hword⟩ := tandem_startQuote T h.scan opts hq
  have htoken := token_startQuote opts m.scan
  have hle := Nat.le_trans h.depth_le (advances_startQuote opts m.scan).reach.pos_le
  simp only [List.mem_cons, List.not_mem_nil, or_false] at htoken
  refine { scan := hs, mode := h.mode, depth := h.depth, depth_le := hle, radix := ?_,
           inDashes := ?_, onWord := hword }
  · intro hc
    have hc : (Machine.startQuote opts m.scan).token = .number := hc
    rw [hc] at htoken
    simp at htoken
  · intro hc
    have hc : (Machine.startQuote opts m.scan).token = .lineComment := hc
    rw [hc] at htoken
    simp at htoken

theorem openPair (token : Token) {a b : Char} (ha : isSign a.toNat = true)
    (hb : isSign b.toNat = true) (hs : m.scan.seesPair a b = true) :
    R ((m.scan.switch token).forwardBy 2) ((m'.scan.switch token).forwardBy 2)
      ∧ ((m.scan.switch token).forwardBy 2).pos = m.scan.pos + 2 := by
  have h₂ := T.forwardBy_two (T.of_marked (T.switch token h.scan)) ha hb (by
    rw [Scanner.toCursor_switch]; exact hs)
  rw [Scanner.toCursor_switch] at h₂
  exact h₂

theorem openSign (token : Token) (hc : isSign m.scan.ch = true) :
    R (m.scan.switch token).forward (m'.scan.switch token).forward :=
  T.forward (T.of_marked (T.switch token h.scan)) (by rw [Scanner.toCursor_switch]; exact hc)

theorem openPragma (hs : m.scan.seesText pragmaOpen = true) :
    Paired R (m.map fun s => (s.switch .pragma).forwardBy 3)
      (m'.map fun s => (s.switch .pragma).forwardBy 3) := by
  have hsees : (m.scan.switch .pragma).seesText ['\x7b'.toNat, '-'.toNat, '#'.toNat] = true := by
    rw [Scanner.toCursor_switch]
    exact hs
  have h₃ := T.forwardBy_three (T.of_marked (T.switch .pragma h.scan)) (by decide) (by decide)
    (by decide) hsees
  exact h.scan_change h₃ ((Scanner.Reach.refl.switch .pragma).forwardBy 3) (by
    show Token.pragma ∉ _
    decide)

theorem openLineComment (hs : m.scan.seesPair '-' '-' = true) :
    Paired R { m.map fun s => (s.switch .lineComment).forwardBy 2 with inDashes := true }
      { m'.map fun s => (s.switch .lineComment).forwardBy 2 with inDashes := true } := by
  obtain ⟨h₂, hpos⟩ := h.openPair T .lineComment (by decide) (by decide) hs
  refine { scan := h₂, mode := h.mode, depth := h.depth, depth_le := ?_,
           radix := ?_, inDashes := fun _ => rfl, onWord := ?_ }
  · have hle := h.depth_le
    show m.depth ≤ ((m.scan.switch .lineComment).forwardBy 2).pos
    omega
  · intro hc; cases hc
  · intro hc; cases hc

/-- The two signs that open a block comment make room for one more level. -/
theorem openBlockComment (hs : m.scan.seesPair '\x7b' '-' = true) :
    Paired R { m.map fun s => (s.switch .blockComment).forwardBy 2 with depth := m.depth + 1 }
      { m'.map fun s => (s.switch .blockComment).forwardBy 2 with depth := m'.depth + 1 } := by
  obtain ⟨h₂, hpos⟩ := h.openPair T .blockComment (by decide) (by decide) hs
  refine paired_of_token h₂ h.mode (congrArg (· + 1) h.depth) ?_ (by
    show Token.blockComment ∉ _
    decide)
  have hle := h.depth_le
  show m.depth + 1 ≤ ((m.scan.switch .blockComment).forwardBy 2).pos
  omega

/-- A string opens at its quote. -/
theorem openString (hc : isSign m.scan.ch = true) :
    Paired R (m.map fun s => (s.switch .string).forward)
      (m'.map fun s => (s.switch .string).forward) :=
  h.scan_change (h.openSign T .string hc) (Scanner.Reach.refl.switch .string).forward (by
    show Token.string ∉ _
    decide)

/-- A directive opens at its sign and ends the mode of its line. -/
theorem openDirective (hc : isSign m.scan.ch = true) :
    Paired R { m.map fun s => (s.switch .directive).forward with mode := .code }
      { m'.map fun s => (s.switch .directive).forward with mode := .code } := by
  have hpos := (Scanner.Reach.refl.switch .directive).forward.pos_le (s := m.scan)
  exact paired_of_token (h.openSign T .directive hc) rfl h.depth (Nat.le_trans h.depth_le hpos) (by
    show Token.directive ∉ _
    decide)

/-- An operator opens before its first sign. -/
theorem openOperator :
    Paired R { m.map (·.switch .operator) with mode := .code }
      { m'.map (·.switch .operator) with mode := .code } := by
  have hpos := (Scanner.Reach.refl.switch .operator).pos_le (s := m.scan)
  exact paired_of_token (T.of_marked (T.switch .operator h.scan)) rfl h.depth
    (Nat.le_trans h.depth_le hpos) (by
      show Token.operator ∉ _
      decide)

/-- A punctuation sign is a token by itself. -/
theorem passPunctuation (hc : isSign m.scan.ch = true) :
    Paired R (m.map fun s => (s.switch .operator).forward.switch .plain)
      (m'.map fun s => (s.switch .operator).forward.switch .plain) :=
  h.scan_change (T.of_marked (T.switch .plain (h.openSign T .operator hc)))
    ((Scanner.Reach.refl.switch .operator).forward.switch .plain) (by
      show Token.plain ∉ _
      decide)

theorem openWord (hs : isWordStart m.scan.ch = true) :
    Paired R (m.map (·.switch .identifier)) (m'.map (·.switch .identifier)) where
  scan := T.of_marked (T.switch .identifier h.scan)
  mode := h.mode
  depth := h.depth
  depth_le := Nat.le_trans h.depth_le (Scanner.Reach.refl.switch .identifier).pos_le
  radix := by intro hc; cases hc
  inDashes := by intro hc; cases hc
  onWord _ := by
    show isWordStart (m.scan.switch .identifier).ch = true
    rw [Scanner.toCursor_switch]
    exact hs

theorem plain (opts : Options) (hc : isSign m.scan.ch = true)
    (ht : m.scan.token ≠ .identifier) :
    Paired R (m.plain opts) (m'.plain opts) := by
  have hpragma : m'.scan.seesText pragmaOpen = m.scan.seesText pragmaOpen :=
    T.seesText h.scan (by decide) (by decide) (by decide)
  rw [Machine.plain, Machine.plain]
  dsimp only
  rw [hpragma, T.seesPair h.scan (by decide) (by decide), T.seesPair h.scan (by decide) (by decide),
    T.sees h.scan (by decide), T.sees h.scan (by decide), T.sees h.scan (by decide),
    T.ch h.scan fun _ => isSign_of_isDigit, T.ch h.scan fun _ => isSign_of_isOperatorChar,
    T.ch h.scan fun _ => isSign_of_isPunctuation, T.ch h.scan fun _ => isSign_of_isWordStart,
    T.atLineStart h.scan, h.mode]
  by_cases hdigit : Ascii.isDigit m.scan.ch = true
  · rw [if_pos hdigit, if_pos hdigit]
    exact h.startNumeral T hdigit
  rw [if_neg hdigit, if_neg hdigit]
  by_cases hprag : m.scan.seesText pragmaOpen = true
  · rw [if_pos hprag, if_pos hprag]
    exact h.openPragma T hprag
  rw [if_neg hprag, if_neg hprag]
  by_cases hdash : m.scan.seesPair '-' '-' = true
  · rw [if_pos hdash, if_pos hdash]
    exact h.openLineComment T hdash
  rw [if_neg hdash, if_neg hdash]
  by_cases hblock : m.scan.seesPair '\x7b' '-' = true
  · rw [if_pos hblock, if_pos hblock]
    exact h.openBlockComment T hblock
  rw [if_neg hblock, if_neg hblock]
  by_cases hstring : m.scan.sees Ascii.doubleQuote = true
  · rw [if_pos hstring, if_pos hstring]
    exact h.openString T hc
  rw [if_neg hstring, if_neg hstring]
  by_cases hquote : m.scan.sees Ascii.singleQuote = true
  · rw [if_pos hquote, if_pos hquote]
    exact h.startQuote T opts hquote
  rw [if_neg hquote, if_neg hquote]
  by_cases hhash : (m.scan.atLineStart && m.scan.sees '#' && m.mode != .foreignDecl) = true
  · rw [if_pos hhash, if_pos hhash]
    exact h.openDirective T hc
  rw [if_neg hhash, if_neg hhash]
  by_cases hop : isOperatorChar m.scan.ch = true
  · rw [if_pos hop, if_pos hop]
    exact h.openOperator T
  rw [if_neg hop, if_neg hop]
  by_cases hpunct : isPunctuation m.scan.ch = true
  · rw [if_pos hpunct, if_pos hpunct]
    exact h.passPunctuation T hc
  rw [if_neg hpunct, if_neg hpunct]
  by_cases hword : isWordStart m.scan.ch = true
  · rw [if_pos hword, if_pos hword]
    exact h.openWord T hword
  rw [if_neg hword, if_neg hword]
  exact h.forward T hc ht

/-! ### A whole token -/

/-- Whatever a machine does at a sign, or to end a token without a move, another in tandem
does too. -/
theorem stepToken (g : Settings) (hesc : m.escapes = false)
    (hc : isSign m.scan.ch = true ∨ m.idle g.options = false) :
    Paired R (m.stepToken g) (m'.stepToken g) := by
  have hback (ht : m.scan.token = .string ∨ m.scan.token = .char) :
      m.scan.sees Ascii.backslash = false := by
    rw [escapes] at hesc
    rcases ht with ht | ht <;> simpa [ht] using hesc
  -- a token that this lexer never leaves open is closed first
  have hother (hc : isSign m.scan.ch = true) :
      Paired R ((m.map (·.switch .plain)).plain g.options)
        ((m'.map (·.switch .plain)).plain g.options) :=
    (h.switch T rfl).plain T g.options
      (by show isSign (m.scan.switch .plain).ch = true; rw [Scanner.toCursor_switch]; exact hc)
      (by show Token.plain ≠ _; decide)
  rw [Machine.stepToken, Machine.stepToken, T.token h.scan]
  rw [idle] at hc
  cases ht : m.scan.token with
  | operator => exact h.operatorRun T ht
  | string =>
    have hc := hc.resolve_right (by simp [ht])
    exact h.quoted T g.options _ (by decide) hc (hback (Or.inl ht)) (by rw [ht]; decide)
  | char =>
    have hc := hc.resolve_right (by simp [ht])
    exact h.quoted T g.options _ (by decide) hc (hback (Or.inr ht)) (by rw [ht]; decide)
  | number => exact h.numeral T g.options ht
  | identifier => exact h.word T g ht
  | lineComment => exact h.lineComment T ht (by simpa [ht] using hc)
  | blockComment => exact h.blockComment T ht (hc.resolve_right (by simp [ht]))
  | pragma => exact h.pragma T ht (hc.resolve_right (by simp [ht]))
  | directive => exact h.directive T g.options ht (by simpa [ht] using hc)
  | plain => exact h.plain T g.options (hc.resolve_right (by simp [ht])) (by rw [ht]; decide)
  | keyword | capital | moduleName | baseFunction | otherFunction | singleQuoted | backticked
  | percentOperator | openPercentOperator | rawString | rawSingleQuoted =>
    exact hother (hc.resolve_right (by simp [ht]))

end Paired

/-! ## 4. Rounds -/

@[simp] theorem mode_noteEnd (m : Machine t) : m.noteEnd.mode = m.mode := by
  rw [noteEnd]; split <;> rfl

@[simp] theorem depth_noteEnd (m : Machine t) : m.noteEnd.depth = m.depth := by
  rw [noteEnd]; split <;> rfl

@[simp] theorem radix_noteEnd (m : Machine t) : m.noteEnd.radix = m.radix := by
  rw [noteEnd]; split <;> rfl

@[simp] theorem inDashes_noteEnd (m : Machine t) : m.noteEnd.inDashes = m.inDashes := by
  rw [noteEnd]; split <;> rfl

@[simp] theorem toCursor_noteEnd (m : Machine t) :
    m.noteEnd.scan.toCursor = m.scan.toCursor := by
  rw [noteEnd]; split <;> rfl

@[simp] theorem token_noteEnd (m : Machine t) : m.noteEnd.scan.token = m.scan.token := by
  rw [noteEnd]; split <;> rfl

theorem continues_iff {s : Scanner t} : continues s = true
    ↔ s.sees Ascii.backslash = true ∧ (s.token = .string ∨ s.token = .directive)
      ∧ (s.seesNext '\n' = true ∨ s.seesNext '\r' = true) := by
  simp only [continues, Bool.and_eq_true, Bool.or_eq_true, beq_iff_eq, and_assoc]

@[simp] theorem continues_noteEnd (m : Machine t) : continues m.noteEnd.scan = continues m.scan := by
  simp [continues]

@[simp] theorem escapes_noteEnd (m : Machine t) : m.noteEnd.escapes = m.escapes := by
  simp [escapes]

@[simp] theorem idle_noteEnd (o : Options) (m : Machine t) : m.noteEnd.idle o = m.idle o := by
  simp [idle]

theorem token_passLineEnd (s : Scanner t) : (passLineEnd s).token = s.token := by
  rw [passLineEnd]
  split <;> rfl

theorem step_eq (g : Settings) (m : Machine t) : m.step g
    = if continues m.scan then m.noteEnd.saveLine.map passLineEnd else m.noteEnd.stepToken g := by
  rw [← continues_noteEnd]
  rfl

section

variable {opts : Options} (hc : isSign m.scan.ch = false)
include hc

/-- A text of signs does not start here. -/
theorem seesText_eq_false {a : Char} (ha : isSign a.toNat = true) (rest : List Nat) :
    m.scan.seesText (a.toNat :: rest) = false := by
  have hch : (m.scan.ch == a.toNat) = false := Scanner.sees_eq_false hc ha
  rw [Cursor.seesText, List.zipIdx_cons, List.all_cons]
  simp only [Cursor.ahead, hch, Bool.false_and]

/-- No token starts but at a sign. -/
theorem plain_of_not_sign : m.plain opts = m.map (·.forward) := by
  have hsees {c : Char} := Scanner.sees_eq_false hc (c := c)
  have htext : m.scan.seesText pragmaOpen = false := seesText_eq_false hc (a := '\x7b') (by decide) _
  rw [plain]
  simp only [htext, Cursor.seesPair, hsees (c := '-') (by decide), hsees (c := '\x7b') (by decide),
    hsees (c := Ascii.doubleQuote) (by decide), hsees (c := Ascii.singleQuote) (by decide),
    hsees (c := '#') (by decide), Scanner.class_eq_false (fun _ => isSign_of_isDigit) hc,
    Scanner.class_eq_false (fun _ => isSign_of_isOperatorChar) hc,
    Scanner.class_eq_false (fun _ => isSign_of_isPunctuation) hc,
    Scanner.class_eq_false (fun _ => isSign_of_isWordStart) hc, Bool.false_and, Bool.and_false,
    Bool.false_eq_true, if_false]

/-- A literal is ended by its line at what is no sign. -/
theorem quoted_of_not_sign {quote : Char} (hq : isSign quote.toNat = true) :
    m.quoted opts quote
      = m.map fun s => (if s.atLineEnd then s.switch .plain else s).forward := by
  rw [quoted, Scanner.sees_eq_false hc hq, Scanner.sees_eq_false hc (c := Ascii.backslash) (by decide)]
  simp only [Bool.false_eq_true, if_false, map]
  split <;> rfl

/-- Away from signs an idle machine passes a character by. -/
theorem stepToken_of_idle {g : Settings} (hi : m.idle g.options = true) :
    m.stepToken g = m.pass := by
  have hother : (m.map (·.switch .plain)).plain g.options
      = m.map fun s => (s.switch .plain).forward := by
    rw [plain_of_not_sign (by show isSign (m.scan.switch .plain).ch = false
                              rw [Scanner.toCursor_switch]; exact hc)]
    rfl
  rw [stepToken, pass]
  rw [idle] at hi
  cases ht : m.scan.token with
  | operator => rw [ht] at hi; cases hi
  | number => rw [ht] at hi; cases hi
  | identifier => rw [ht] at hi; cases hi
  | string =>
    simp only [map, endsHere, ht]
    exact quoted_of_not_sign hc (by decide)
  | char =>
    simp only [map, endsHere, ht]
    exact quoted_of_not_sign hc (by decide)
  | lineComment =>
    have hi : m.inDashes = false := by simpa [ht] using hi
    simp only [map, endsHere, ht, lineComment, hi, Bool.false_and, Bool.false_eq_true, if_false]
    split <;> rfl
  | directive =>
    have hi : g.options.commandWordOnly = false := by simpa [ht] using hi
    simp only [map, endsHere, ht, directive, hi, Bool.false_and, Bool.false_eq_true, if_false]
    split <;> rfl
  | blockComment =>
    simp only [map, endsHere, ht, blockComment, Cursor.seesPair,
      Scanner.sees_eq_false hc (c := '\x7b') (by decide),
      Scanner.sees_eq_false hc (c := '-') (by decide), Bool.false_and, Bool.false_eq_true, if_false]
  | pragma =>
    have htext : m.scan.seesText pragmaClose = false := seesText_eq_false hc (a := '#') (by decide) _
    simp only [map, endsHere, ht, pragma, htext, Bool.false_and, Bool.false_eq_true, if_false]
  | plain =>
    simp only [map, endsHere, ht, Bool.false_eq_true, if_false]
    exact plain_of_not_sign hc
  | keyword | capital | moduleName | baseFunction | otherFunction | singleQuoted | backticked
  | percentOperator | openPercentOperator | rawString | rawSingleQuoted =>
    simpa only [map, endsHere, ht, if_true] using hother

end

theorem quoted_of_backslash {opts : Options} {quote : Char} (hq : quote ≠ Ascii.backslash)
    (hs : m.scan.sees Ascii.backslash = true) :
    m.quoted opts quote = ((m.map (·.forward)).noteEnd).map (·.forward) := by
  have hno : m.scan.sees quote = false := by
    rw [Cursor.sees, beq_iff_eq] at hs
    rw [Cursor.sees, beq_eq_false_iff_ne, hs]
    intro heq
    exact hq (Char.toNat_inj.1 heq).symm
  rw [quoted]
  simp only [hno, hs, Bool.false_eq_true, if_false, if_true]
  rfl

/-- A literal takes the character after a backslash as it is. -/
theorem stepToken_of_escapes {g : Settings} (h : m.escapes = true) :
    m.stepToken g = ((m.map (·.forward)).noteEnd).map (·.forward) := by
  obtain ⟨ht | ht, hback⟩ := escapes_iff.1 h
  · rw [stepToken, ht]
    exact quoted_of_backslash (by decide) hback
  · rw [stepToken, ht]
    exact quoted_of_backslash (by decide) hback

/-- Tokens that go on over what is no sign, inside a line. -/
def lasts : Token → Bool
  | .plain | .string | .char | .lineComment | .blockComment | .pragma | .directive => true
  | _ => false

theorem lasts_of_endsHere {s : Scanner t} (h : endsHere s = false) : lasts s.token = true := by
  rw [endsHere] at h
  split at h <;> simp_all [lasts]

theorem endsHere_of_lasts {s : Scanner t} (h : lasts s.token = true) (hend : s.atLineEnd = false) :
    endsHere s = false := by
  rw [endsHere]
  split <;> simp_all [lasts]

theorem lasts_of_escapes (h : m.escapes = true) : lasts m.scan.token = true := by
  rcases (escapes_iff.1 h).1 with ht | ht <;> rw [ht] <;> rfl

/-- Inside a line an idle machine does nothing but move over what is no sign. -/
theorem step_of_idle {g : Settings} (hc : isSign m.scan.ch = false)
    (hend : m.scan.atLineEnd = false) (hidle : m.idle g.options = true)
    (hlast : lasts m.scan.token = true) : m.step g = m.map (·.forward) := by
  have hcont : continues m.scan = false := by
    rw [continues, Scanner.sees_eq_false hc (by decide)]
    rfl
  have hnote : m.noteEnd = m := by rw [noteEnd, hend, if_neg Bool.false_ne_true]
  rw [step_eq, hcont, hnote, stepToken_of_idle hc hidle, pass]
  simp only [map, endsHere_of_lasts hlast hend, Bool.false_eq_true, if_false]

/-- Only strings and directives go on over a line end behind a backslash. -/
theorem continues_eq_false {s : Scanner t} (ht : s.token ∉ [Token.string, .directive]) :
    continues s = false := by
  simp only [List.mem_cons, List.not_mem_nil, or_false, not_or] at ht
  simp [continues, ht]

/-- Inside a line the other tokens are gone on with. -/
theorem step_of_token {g : Settings} (hend : m.scan.atLineEnd = false)
    (ht : m.scan.token ∉ [Token.string, .directive]) : m.step g = m.stepToken g := by
  rw [step_eq, continues_eq_false ht, if_neg Bool.false_ne_true, noteEnd, hend,
    if_neg Bool.false_ne_true]

namespace Paired

variable (T : Tandem isLoose k R Q) (h : Paired R m m')
include T h

theorem noteEnd : Paired R m.noteEnd m'.noteEnd where
  scan := by
    have hright {s : Scanner t} (hs : R s m'.scan) : R s m'.noteEnd.scan := by
      rw [Machine.noteEnd]
      split
      · exact T.note' _ hs
      · exact hs
    apply hright
    rw [Machine.noteEnd]
    split
    · exact T.note _ h.scan
    · exact h.scan
  mode := by simpa using h.mode
  depth := by simpa using h.depth
  depth_le := by simpa using h.depth_le
  radix := by simpa using h.radix
  inDashes := by simpa using h.inDashes
  onWord := by simpa using h.onWord

theorem escapes_eq : m'.escapes = m.escapes := by
  rw [escapes, escapes, T.token h.scan, T.sees h.scan (by decide)]

theorem continues_eq : continues m'.scan = continues m.scan := by
  rw [continues, continues, T.token h.scan, T.sees h.scan (by decide)]
  cases hs : m.scan.sees Ascii.backslash with
  | false => rfl
  | true =>
    have hkind := T.kind_next h.scan (Scanner.isSign_of_sees (by decide) hs)
    have hends (c : Nat) : (c == '\n'.toNat || c == '\r'.toNat) = (Scanner.kind c == 10) := by
      rw [Bool.eq_iff_iff, Bool.or_eq_true, beq_iff_eq, beq_iff_eq, beq_iff_eq,
        Scanner.kind_eq_lf_iff]
      rfl
    rw [Cursor.seesNext, Cursor.seesNext, Cursor.seesNext, Cursor.seesNext, hends, hends, hkind]

/-- Machines that move over a backslash in a literal stay paired. -/
theorem escape (he : m.escapes = true) : Paired R (m.map (·.forward)) (m'.map (·.forward)) :=
  h.forward T (Scanner.isSign_of_sees (by decide) (escapes_iff.1 he).2)
    (ne_identifier_of_idle (idle_of_escapes {} he))

omit T in
/-- Machines that pass a line end behind a backslash do so if their scanners stay related. -/
theorem overLineEnd (hc : continues m.scan = true)
    (hs : R (passLineEnd m.saveLine.scan) (passLineEnd m'.saveLine.scan)) :
    Paired R (m.saveLine.map passLineEnd) (m'.saveLine.map passLineEnd) := by
  obtain ⟨-, htoken, -⟩ := continues_iff.1 hc
  have hreach : m.scan.Reach (passLineEnd m.saveLine.scan) :=
    (reach_saveLine m).trans (advances_passLineEnd _).reach
  exact h.move hs hreach (token_passLineEnd _) (by
    rcases htoken with ht | ht <;> rw [ht] <;> decide)

omit T in
theorem idle_eq (ht : m'.scan.token = m.scan.token) (o : Options) : m'.idle o = m.idle o := by
  rw [idle, idle, ht]
  cases hm : m.scan.token <;> try rfl
  rw [h.inDashes hm]

/-- A round of paired machines is one of four: both pass a line end behind a backslash, or
both take the character behind one, or both pass a character that is no sign, or the round
leaves them paired. -/
theorem step_elim {P : Machine t → Machine t' → Prop} (g : Settings)
    (hcont : continues m.scan = true →
      P (m.noteEnd.saveLine.map passLineEnd) (m'.noteEnd.saveLine.map passLineEnd))
    (hesc : continues m.scan = false → m.escapes = true →
      P (((m.noteEnd.map (·.forward)).noteEnd).map (·.forward))
        (((m'.noteEnd.map (·.forward)).noteEnd).map (·.forward)))
    (hpass : isSign m.scan.ch = false → m.idle g.options = true → P m.noteEnd.pass m'.noteEnd.pass)
    (hpaired : ∀ {n : Machine t} {n' : Machine t'}, Paired R n n' → P n n') :
    P (m.step g) (m'.step g) := by
  have hidle := h.idle_eq (T.token h.scan) g.options
  rw [step_eq, step_eq, h.continues_eq T]
  cases hc : continues m.scan with
  | true => exact hcont hc
  | false =>
    simp only [Bool.false_eq_true, if_false]
    cases he : m.escapes with
    | true =>
      rw [stepToken_of_escapes (by simpa using he),
        stepToken_of_escapes (by simpa [h.escapes_eq T] using he)]
      exact hesc hc he
    | false =>
      by_cases hother : isSign m.scan.ch = true ∨ m.idle g.options = false
      · exact hpaired ((h.noteEnd T).stepToken T g (by simpa using he) (by simpa using hother))
      · rw [not_or, Bool.not_eq_true, Bool.not_eq_false] at hother
        rw [stepToken_of_idle (by simpa using hother.1) (by simpa using hother.2),
          stepToken_of_idle (by simpa [T.isSign_ch h.scan] using hother.1)
            (by simpa [hidle] using hother.2)]
        exact hpass hother.1 hother.2

end Paired

end Machine

end Haskell

end Restyle
