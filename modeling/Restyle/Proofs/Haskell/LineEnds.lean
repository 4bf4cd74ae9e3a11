/-
Restyle.Proofs.Haskell.LineEnds — what the Haskell lexer carries over a
line end.

A round that comes over a line end either passes one character in an idle
machine, or passes the character behind a backslash. The first closes
every token that ends with its line, so that plain text, a comment or a
pragma is left; the second is how strings, characters and directives come
over a line end (`carried_of_crossing`).

The depth of nested comments is positive exactly while a block comment is
open. Every round keeps that (`balanced_step`), so the state noted for a
line says whether its end is inside a comment.
-/
import Restyle.Proofs.Engine.Walks
import Restyle.Proofs.Haskell.Resume

namespace Restyle

namespace Haskell

namespace Machine

variable {t : Text} {m n : Machine t}

/-! ## 1. Depth and token -/

/-- Comments are nested exactly while a block comment is open. -/
def Balanced (m : Machine t) : Prop := 0 < m.depth ↔ m.scan.token = .blockComment

theorem Balanced.depth_eq_zero (h : m.Balanced) (ht : m.scan.token ≠ .blockComment) :
    m.depth = 0 := by
  have hno := mt h.1 ht
  omega

theorem balanced_of_token (hd : m.depth = 0) (ht : m.scan.token ≠ .blockComment) : m.Balanced :=
  ⟨fun h => by omega, fun h => absurd h ht⟩

theorem balanced_of_open (hd : 0 < m.depth) (ht : m.scan.token = .blockComment) : m.Balanced :=
  ⟨fun _ => ht, fun _ => hd⟩

theorem Balanced.noteEnd (h : m.Balanced) : m.noteEnd.Balanced := by
  simpa [Balanced] using h

section

variable (hd : m.depth = 0)
include hd

theorem balanced_startNumeral : m.startNumeral.Balanced := by
  have hnumber : Token.number ≠ .blockComment := by decide
  rw [startNumeral]
  split
  · exact balanced_of_token hd hnumber
  · split
    · exact balanced_of_token hd hnumber
    · exact balanced_of_token hd hnumber

theorem balanced_startQuote (opts : Options) : (m.map (startQuote opts)).Balanced := by
  refine balanced_of_token (m := m.map (startQuote opts)) hd fun h => ?_
  have h : (startQuote opts m.scan).token = .blockComment := h
  have htoken := token_startQuote opts m.scan
  rw [h] at htoken
  exact absurd htoken (by decide)

/-- Outside every token a round may open a comment, at depth one. -/
theorem balanced_plain (opts : Options) (ht : m.scan.token ≠ .blockComment) :
    (m.plain opts).Balanced := by
  rw [plain]
  dsimp only
  split
  · exact balanced_startNumeral hd
  · split
    · exact balanced_of_token hd (by show Token.pragma ≠ _; decide)
    · split
      · exact balanced_of_token hd (by show Token.lineComment ≠ _; decide)
      · split
        · exact balanced_of_open (Nat.succ_pos _) rfl
        · split
          · exact balanced_of_token hd (by show Token.string ≠ _; decide)
          · split
            · exact balanced_startQuote hd opts
            · split
              · exact balanced_of_token hd (by show Token.directive ≠ _; decide)
              · split
                · exact balanced_of_token hd (by show Token.operator ≠ _; decide)
                · split
                  · exact balanced_of_token hd (by show Token.plain ≠ _; decide)
                  · split
                    · exact balanced_of_token hd (by show Token.identifier ≠ _; decide)
                    · exact balanced_of_token hd ht

theorem balanced_quoted (opts : Options) (quote : Char) (ht : m.scan.token ≠ .blockComment) :
    (m.quoted opts quote).Balanced := by
  rw [quoted]
  split
  · exact balanced_of_token hd (by show Token.plain ≠ _; decide)
  · split
    · have hbefore : (m.map (·.forward)).Balanced := balanced_of_token hd ht
      exact hbefore.noteEnd
    · split
      · exact balanced_of_token hd (by show Token.plain ≠ _; decide)
      · exact balanced_of_token hd ht

theorem balanced_numeral (opts : Options) (ht : m.scan.token ≠ .blockComment) :
    (m.map (numeral opts m.radix)).Balanced := by
  refine balanced_of_token (m := m.map (numeral opts m.radix)) hd ?_
  show (numeral opts m.radix m.scan).token ≠ .blockComment
  rcases token_numeral opts m.radix m.scan with h | h
  · rw [h]; exact ht
  · rw [h]; decide

theorem balanced_lineComment (ht : m.scan.token ≠ .blockComment) : m.lineComment.Balanced := by
  rw [lineComment]
  split
  · split
    · exact balanced_of_token hd (by show Token.operator ≠ _; decide)
    · exact balanced_of_token hd ht
  · split
    · exact balanced_of_token hd (by show Token.plain ≠ _; decide)
    · exact balanced_of_token hd ht

end

theorem balanced_pragma (hd : m.depth = 0) (ht : m.scan.token ≠ .blockComment) :
    (m.map pragma).Balanced := by
  rw [map, pragma]
  split
  · exact balanced_of_token hd (by show Token.plain ≠ _; decide)
  · exact balanced_of_token hd ht

theorem balanced_directive (opts : Options) (hd : m.depth = 0)
    (ht : m.scan.token ≠ .blockComment) : (m.map (directive opts)).Balanced := by
  rw [map, directive]
  split
  · exact balanced_of_token hd (by show Token.plain ≠ _; decide)
  · split
    · exact balanced_of_token hd (by show Token.plain ≠ _; decide)
    · exact balanced_of_token hd ht

/-- A comment ends with the bracket that closes its outermost level. -/
theorem balanced_blockComment (h : m.Balanced) (ht : m.scan.token = .blockComment) :
    m.blockComment.Balanced := by
  rw [blockComment]
  split
  · exact balanced_of_open (Nat.succ_pos _) ht
  · split
    · dsimp only
      split
      · rename_i hzero
        exact balanced_of_token hzero (by show Token.plain ≠ _; decide)
      · rename_i hpos
        exact balanced_of_open (Nat.pos_of_ne_zero hpos) ht
    · exact balanced_of_open (h.2 ht) ht

theorem balanced_stepToken (g : Settings) (h : m.Balanced) : (m.stepToken g).Balanced := by
  have hother (ht : m.scan.token ≠ .blockComment) :
      ((m.map (·.switch .plain)).plain g.options).Balanced :=
    balanced_plain (m := m.map (·.switch .plain)) (h.depth_eq_zero ht) g.options
      (by show Token.plain ≠ _; decide)
  have hzero {token : Token} (ht : m.scan.token = token) (hne : token ≠ .blockComment) :
      m.depth = 0 ∧ m.scan.token ≠ .blockComment := by
    have hne : m.scan.token ≠ .blockComment := by rw [ht]; exact hne
    exact ⟨h.depth_eq_zero hne, hne⟩
  rw [stepToken]
  split
  case h_1 ht => exact balanced_of_token (hzero ht (by decide)).1 (by show Token.plain ≠ _; decide)
  case h_2 ht =>
    obtain ⟨hd, hne⟩ := hzero ht (by decide)
    exact balanced_quoted hd _ _ hne
  case h_3 ht =>
    obtain ⟨hd, hne⟩ := hzero ht (by decide)
    exact balanced_quoted hd _ _ hne
  case h_4 ht =>
    obtain ⟨hd, hne⟩ := hzero ht (by decide)
    exact balanced_numeral hd _ hne
  case h_5 ht =>
    rw [word_eq]
    exact balanced_of_token (hzero ht (by decide)).1 (by show Token.plain ≠ _; decide)
  case h_6 ht =>
    obtain ⟨hd, hne⟩ := hzero ht (by decide)
    exact balanced_lineComment hd hne
  case h_7 ht => exact balanced_blockComment h ht
  case h_8 ht =>
    obtain ⟨hd, hne⟩ := hzero ht (by decide)
    exact balanced_pragma hd hne
  case h_9 ht =>
    obtain ⟨hd, hne⟩ := hzero ht (by decide)
    exact balanced_directive _ hd hne
  case h_10 ht =>
    obtain ⟨hd, hne⟩ := hzero ht (by decide)
    exact balanced_plain hd _ hne
  case h_11 => exact hother (by assumption)

theorem balanced_step (g : Settings) (h : m.Balanced) : (m.step g).Balanced := by
  rw [step_eq]
  split
  · rw [Balanced, map]
    show 0 < m.noteEnd.depth ↔ (passLineEnd m.noteEnd.saveLine.scan).token = .blockComment
    rw [token_passLineEnd]
    exact h.noteEnd
  · exact balanced_stepToken g h.noteEnd

/-! ## 2. Over a line end -/

/-- The tokens that may stand on the last byte `p` of a line terminator. -/
def Carried (t : Text) (p : Nat) (token : Token) : Prop :=
  token ∈ [Token.plain, .blockComment, .pragma]
    ∨ (token ∈ [Token.string, .directive]
      ∧ t.PrecededBy Ascii.backslash (t.lineEnd (t.lineOf p)))
    ∨ (token = .char ∧ t.PrecededBy Ascii.backslash p)

section

open Scanner (Inside isSign)

variable {o p : Nat} {s : Scanner t}

/-- A backslash that keeps a token open stands directly before the line terminator. -/
theorem precededBy_of_passLineEnd (h : Inside isLoose o (p + 1) s s)
    (hp : t.breaksAfter p = true) (hs : s.sees Ascii.backslash = true)
    (hn : s.seesNext '\n' = true ∨ s.seesNext '\r' = true)
    (hpos : (passLineEnd s).pos = p + 1) :
    t.PrecededBy Ascii.backslash (t.lineEnd (t.lineOf p)) := by
  have T := Inside.tandem t t isLoose o (p + 1)
  have hsign := Scanner.isSign_of_sees (by decide) hs
  have hback : t.byteAt s.pos = Ascii.backslash.toNat := by
    rw [Scanner.byteAt_of_isSign h.cursor.sync hsign]
    exact beq_iff_eq.1 hs
  have h₁ := T.forward h hsign
  have hpos₁ := T.pos_forward h hsign
  have hch₁ : s.forward.ch = 10 ∨ s.forward.ch = 13 := by
    rw [T.ch_forward h]
    simpa [Cursor.seesNext] using hn
  obtain ⟨hbyte₁, hwidth₁⟩ := h₁.cursor.sync.byteAt_of_ch_lt (by omega)
  have hpos₂ : s.forward.forward.pos = s.pos + 2 := by
    rw [Scanner.toCursor_forward, Cursor.forward_pos (h₁.cursor.more h₁.lt), hwidth₁, hpos₁]
  rw [t.lineEnd_of_breaksAfter hp]
  cases hpair : s.forward.sees '\r' && s.forward.seesNext '\n' with
  | false =>
    rw [passLineEnd, hpair] at hpos
    simp only [Bool.false_eq_true, if_false] at hpos
    obtain rfl : p = s.pos + 1 := by omega
    rw [if_neg (by simp [Text.endsPair, hback, Ascii.backslash])]
    exact t.precededBy_succ hback
  | true =>
    rw [passLineEnd, hpair] at hpos
    simp only [if_true] at hpos
    simp only [Bool.and_eq_true, Cursor.sees, Cursor.seesNext, beq_iff_eq] at hpair
    have hend₁ := h₁.cursor.sync.atLineEnd_of_pair hpair.1 hpair.2
    have h₂ := h₁.forward_of_atLineEnd hend₁
    obtain ⟨hlast, -⟩ := h₂.pos_of_forward hpos
    obtain rfl : p = s.pos + 2 := by omega
    have hch₂ : s.forward.forward.ch = 10 := (T.ch_forward h₁).trans hpair.2
    have hbyte₂ := (h₂.cursor.sync.byteAt_of_ch_lt (by omega)).1
    rw [hpos₂, hch₂] at hbyte₂
    rw [hpos₁, show s.forward.ch = 13 from hpair.1] at hbyte₁
    rw [if_pos (by simp [Text.endsPair, hbyte₁, hbyte₂])]
    exact t.precededBy_succ hback

/-- The character that a literal takes as it is may end a line, but in a string a backslash
before a line end keeps the string open instead. -/
theorem carried_of_escape {m : Machine t} (h : Inside isLoose o (p + 1) m.scan m.scan)
    (hp : t.breaksAfter p = true) (hcont : continues m.scan = false) (hesc : m.escapes = true)
    (hpos : (((m.map (·.forward)).noteEnd).map (·.forward)).scan.pos = p + 1) :
    m.scan.token = .char ∧ t.PrecededBy Ascii.backslash p := by
  have T := Inside.tandem t t isLoose o (p + 1)
  obtain ⟨htoken, hsees⟩ := escapes_iff.1 hesc
  have hsign := Scanner.isSign_of_sees (by decide) hsees
  have h₁ := T.forward h hsign
  have hin : Inside isLoose o (p + 1) (m.map (·.forward)).noteEnd.scan
      (m.map (·.forward)).noteEnd.scan :=
    inside_noteEnd (n := m.map (·.forward)) (r := m.map (·.forward)) h₁ rfl rfl
  have hlast := (hin.pos_of_forward hpos).1
  rw [toCursor_noteEnd] at hlast
  have hpos₁ : m.scan.forward.pos = p := by
    have hlast : m.scan.forward.pos + 1 = p + 1 := hlast
    omega
  obtain rfl : p = m.scan.pos + 1 := by rw [← hpos₁, T.pos_forward h hsign]
  have hback : t.byteAt m.scan.pos = Ascii.backslash.toNat := by
    rw [Scanner.byteAt_of_isSign h.cursor.sync hsign]
    exact beq_iff_eq.1 hsees
  refine ⟨htoken.resolve_left fun hstring => ?_, t.precededBy_succ hback⟩
  have hbyte := t.byteAt_of_breaksAfter hp
  have hnext : m.scan.next = 10 ∨ m.scan.next = 13 := by
    rw [← T.ch_forward h, h₁.cursor.sync.ch, hpos₁, t.charAt_of_byteAt_lt (by omega)]
    exact hbyte
  have hcont' : continues m.scan = true := by
    simpa [continues, hsees, hstring, Cursor.seesNext] using hnext
  rw [hcont] at hcont'
  cases hcont'

/-- A machine that passes the end of a line is in no token that ends there. -/
theorem token_pass {m : Machine t} (hend : m.scan.atLineEnd = true) :
    m.pass.scan.token ∈ [Token.plain, .blockComment, .pragma] := by
  show (if endsHere m.scan then m.scan.switch .plain else m.scan).token ∈ _
  rw [endsHere, hend]
  cases ht : m.scan.token <;> simp [ht]

/-- A machine that comes over a line end is in a token that may stand there. -/
theorem carried_of_crossing (g : Settings) {m : Machine t} (h : Like o (p + 1) m m)
    (hlt : m.scan.pos < p + 1) (hp : t.breaksAfter p = true) :
    (m.step g).scan.pos = p + 1 → Carried t p (m.step g).scan.token := by
  have hin := (like_noteEnd h hlt).inside
  refine (h.paired hlt).step_elim (P := fun n _ => n.scan.pos = p + 1 → Carried t p n.scan.token)
    (Inside.tandem _ _ isLoose o (p + 1)) g ?_ ?_ ?_ ?_
  · intro hcont hpos
    obtain ⟨hback, htoken, hnext⟩ := continues_iff.1 hcont
    have hback : m.noteEnd.saveLine.scan.sees Ascii.backslash = true := by
      simpa [saveLine, map] using hback
    right; left
    refine ⟨?_, precededBy_of_passLineEnd (hin.note _) hp hback ?_ hpos⟩
    · show (passLineEnd _).token ∈ _
      rw [token_passLineEnd]
      show m.noteEnd.scan.token ∈ _
      rw [token_noteEnd]
      rcases htoken with ht | ht <;> simp [ht]
    · simpa [saveLine, map] using hnext
  · intro hcont hesc hpos
    obtain ⟨htoken, hback⟩ := carried_of_escape (m := m.noteEnd) hin hp (by simpa using hcont)
      (by simpa using hesc) hpos
    refine Or.inr (Or.inr ⟨?_, hback⟩)
    show ((m.noteEnd.map (·.forward)).noteEnd).scan.token = _
    rw [token_noteEnd]
    exact htoken
  · intro _ _ hpos
    left
    apply token_pass
    have hcursor : (if endsHere m.noteEnd.scan then m.noteEnd.scan.switch .plain
        else m.noteEnd.scan).toCursor = m.noteEnd.scan.toCursor := by
      split
      · exact Scanner.toCursor_switch ..
      · rfl
    refine (hin.pos_of_forward ?_).2
    rw [← hpos]
    show m.noteEnd.scan.toCursor.forward.pos = Cursor.pos (Cursor.forward _)
    rw [hcursor]
  · intro n _ hpair hpos
    exact absurd hpos (Nat.ne_of_lt hpair.scan.lt)

end

end Machine

/-! ## 3. The whole run -/

/-- The round in which a whole run comes over a line end decides what it says of it: the line
end has the token that the machine is in then, and the state that it would note. -/
theorem whole_of_crossing (g : Settings) {t : Text} {p : Nat} (hp : t.breaksAfter p = true)
    {q : Machine t} (hq : (engine g).Comes (Machine.start t 0 t.size .plain (LineState.unpack 0)) q)
    (hmore : q.scan.more = true) (hlike : Machine.Like 0 (p + 1) q q) (hlt : q.scan.pos < p + 1)
    (hcross : p + 1 ≤ (q.step g).scan.pos) :
    (q.step g).scan.pos = p + 1
      ∧ ((engine g).whole t).tokenAt? p = some (q.step g).scan.token
      ∧ ((engine g).whole t).stateOf? (t.lineOf p)
        = some (LineState.pack ⟨(q.step g).mode, (q.step g).depth⟩) := by
  obtain ⟨hnext, harrived⟩ := Machine.like_step g hlike hlt
  have hpos : (q.step g).scan.pos = p + 1 := Nat.le_antisymm hnext.scan.cursor.pos_le hcross
  obtain ⟨harr, -⟩ := harrived hpos
  have hends : (engine g).Ends (q.step g) ((engine g).last t 0 t.size .plain 0) :=
    ((sound g).ends_start t 0 t.size .plain 0).of_comes (hq.round hmore)
  obtain ⟨hline, htoken, hstate⟩ :=
    (resumable g).whole_of_lineEnd (sound g) hp hnext harr (Or.inl hends) hpos
  have hline : (q.step g).scan.line = t.lineOf p + 1 := hline
  refine ⟨hpos, htoken.trans ?_, hstate.trans ?_⟩
  · have hmark := harr.mark
    exact Scanner.look_of_le (by show (q.step g).scan.mark ≤ p; omega)
  · have hsaved := harr.saved
    rw [Machine.Saved, hline, Nat.add_sub_cancel] at hsaved
    exact hsaved

/-- What a whole run says of a line end: a token that may stand there, and a state whose
depth is positive if that is a block comment. -/
theorem exists_carried (g : Settings) {t : Text} {p : Nat} (hp : t.breaksAfter p = true) :
    ∃ token saved, ((engine g).whole t).tokenAt? p = some token
      ∧ ((engine g).whole t).stateOf? (t.lineOf p) = some (LineState.pack saved)
      ∧ Machine.Carried t p token
      ∧ (0 < saved.depth ↔ token = .blockComment)
      ∧ saved.depth ≤ t.size := by
  have hs := t.lt_size_of_breaksAfter hp
  have hstop : t.IsStop (p + 1) :=
    t.isStop_of_mem_starts (t.mem_starts_iff.2 (Or.inr hp)) (Nat.succ_pos p)
  obtain ⟨q, hq, hmore, -, hlike, hlt, hcross⟩ :=
    (resumable g).exists_crossing (sound g) hstop (Nat.succ_pos p)
  have hlike : Machine.Like 0 (p + 1) q q := hlike
  obtain ⟨hpos, htoken, hstate⟩ := whole_of_crossing g hp hq hmore hlike hlt hcross
  have hbalanced : (q.step g).Balanced := by
    refine (hq.round hmore).invariant (P := Machine.Balanced) (fun _ h => Machine.balanced_step g h) ?_
    exact Machine.balanced_of_token rfl (by show Token.plain ≠ _; decide)
  refine ⟨(q.step g).scan.token, ⟨(q.step g).mode, (q.step g).depth⟩, htoken, hstate,
    Machine.carried_of_crossing g hlike hlt hp hpos, hbalanced, ?_⟩
  have hdepth := (Machine.like_step g hlike hlt).1.depth_le
  show (q.step g).depth ≤ t.size
  omega

end Haskell

end Restyle
