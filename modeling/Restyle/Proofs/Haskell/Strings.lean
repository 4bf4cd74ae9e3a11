/-
Restyle.Proofs.Haskell.Strings — where strings end.

A quote or a line terminator in a string counts if an even number of
backslashes stands directly before it. `EndsString` says that a string
goes on to the first that does, told from the bytes alone. The lexer
counts nothing: it passes a backslash together with what it escapes.

Both come to the same because every round on a string starts behind an
even number of backslashes, or between the two characters of a terminator
that has an even number before it (`InString`). A round keeps that or
stands at what ends the string (`InString.step_cases`), and the run paints
it as one span (`InString.exists_end`).
-/
import Mathlib.Algebra.Group.Nat.Even
import Restyle.Proofs.Haskell.Comments

namespace Restyle

namespace Haskell

open Ascii (backslash doubleQuote)

/-! ## 1. What ends a string -/

/-- The number of backslashes directly before a position. A line end stops the count, and so
does the quote that opens a string. -/
def backslashes (t : Text) : Nat → Nat
  | 0 => 0
  | x + 1 => if t.byteAt x = backslash.toNat then backslashes t x + 1 else 0

/-- A quote at `x` that no backslash escapes. -/
def ClosingQuote (t : Text) (x : Nat) : Prop :=
  t.byteAt x = doubleQuote.toNat ∧ Even (backslashes t x)

/-- A line ends with the byte at `x`, and no backslash escapes its terminator. -/
def OpenLineEnd (t : Text) (x : Nat) : Prop :=
  t.breaksAfter x = true ∧ Even (backslashes t (t.lineEnd (t.lineOf x)))

/-- From `start` up to `stop` there is nothing that ends a string. -/
def Unended (t : Text) (start stop : Nat) : Prop :=
  ∀ x, start ≤ x → x < stop → ¬ClosingQuote t x ∧ ¬OpenLineEnd t x

/-- The string whose opening quote stands before `start` ends at `stop`. A closing quote is part
of it, and with magic hashes so is a hash behind that; of a terminator the last byte is not. -/
inductive EndsString (o : Options) (t : Text) (start : Nat) : Nat → Prop
  | quote {x : Nat} : start ≤ x → Unended t start x → ClosingQuote t x →
    EndsString o t start (x + 1 + if o.magicHash && t.byteAt (x + 1) = '#'.toNat then 1 else 0)
  | line {x : Nat} : start ≤ x → Unended t start x → OpenLineEnd t x → EndsString o t start x
  | text : start ≤ t.size → Unended t start t.size → EndsString o t start t.size

section

variable {t : Text} {x y : Nat}

theorem backslashes_succ (h : t.byteAt x = backslash.toNat) :
    backslashes t (x + 1) = backslashes t x + 1 := if_pos h

theorem backslashes_succ_of_ne (h : t.byteAt x ≠ backslash.toNat) : backslashes t (x + 1) = 0 :=
  if_neg h

theorem not_closingQuote_of_ne (h : t.byteAt x ≠ doubleQuote.toNat) : ¬ClosingQuote t x :=
  fun hc => h hc.1

theorem not_openLineEnd_of_no_break (h : t.breaksAfter x = false) : ¬OpenLineEnd t x := by
  intro ho
  have hbreak := ho.1
  rw [h] at hbreak
  cases hbreak

/-- Backslashes are not looked for in the terminator itself. -/
theorem openLineEnd_iff (h : t.breaksAfter x = true) :
    OpenLineEnd t x ↔ Even (backslashes t (if t.endsPair x then x - 1 else x)) := by
  rw [OpenLineEnd, h, t.lineEnd_of_breaksAfter h]
  exact and_iff_right rfl

/-- A backslash ends nothing. -/
theorem not_ends_of_backslash (h : t.byteAt x = backslash.toNat) :
    ¬ClosingQuote t x ∧ ¬OpenLineEnd t x := by
  refine ⟨not_closingQuote_of_ne (by rw [h]; decide), fun ho => ?_⟩
  have hbyte := t.byteAt_of_breaksAfter ho.1
  rw [h] at hbyte
  exact absurd hbyte (by decide)

/-- Nor does a byte outside ASCII. -/
theorem not_ends_of_le_byteAt (h : 128 ≤ t.byteAt x) : ¬ClosingQuote t x ∧ ¬OpenLineEnd t x := by
  constructor
  · intro hc
    rw [hc.1] at h
    exact absurd h (by decide)
  · intro ho
    have hbyte := t.byteAt_of_breaksAfter ho.1
    omega

theorem Unended.append {start stop : Nat} (h : Unended t start x) (h' : Unended t x stop) :
    Unended t start stop := by
  intro y hle hlt
  rcases Nat.lt_or_ge y x with hbefore | hafter
  · exact h y hle hbefore
  · exact h' y hafter hlt

/-! A character is passed as its first byte would be: the rest of it neither ends a string nor
escapes what follows. -/

theorem unended_charAt (h : ¬ClosingQuote t x ∧ ¬OpenLineEnd t x) :
    Unended t x (x + (t.charAt x).width) := by
  intro y hle hlt
  rcases Nat.eq_or_lt_of_le hle with rfl | hinside
  · exact h
  · exact not_ends_of_le_byteAt (t.le_byteAt_of_inside hinside hlt)

/-- A sign behind a character that is no ASCII one stands behind all of it. -/
theorem byteAt_pred_add_width {c : Nat} (hc : c < 128)
    (h : t.byteAt (x + (t.charAt x).width - 1) = c) :
    t.byteAt x = c ∧ x + (t.charAt x).width = x + 1 := by
  have hpos := t.width_pos x
  rcases Nat.eq_or_lt_of_le hpos with hone | hmore
  · have heq : x + (t.charAt x).width = x + 1 := by omega
    rw [heq, Nat.add_sub_cancel] at h
    exact ⟨h, heq⟩
  · have hlast := t.le_byteAt_of_inside (p := x) (q := x + (t.charAt x).width - 1)
      (by omega) (by omega)
    omega

theorem backslashes_add_width : backslashes t (x + (t.charAt x).width)
    = if t.byteAt x = backslash.toNat then backslashes t x + 1 else 0 := by
  split
  · rename_i hback
    rw [t.charAt_of_byteAt_lt (by rw [hback]; decide)]
    exact backslashes_succ hback
  · rename_i hback
    obtain ⟨y, hy⟩ := Nat.exists_eq_add_one.2 (show 0 < x + (t.charAt x).width by
      have := t.width_pos x
      omega)
    rw [hy]
    refine backslashes_succ_of_ne fun hlast => hback ?_
    exact (byteAt_pred_add_width (by decide) (by rw [hy, Nat.add_sub_cancel, hlast])).1

theorem byteAt_of_endsPair_add_width (h : t.endsPair (x + (t.charAt x).width) = true) :
    t.byteAt x = 13 ∧ x + (t.charAt x).width = x + 1 := by
  simp only [Text.endsPair, Bool.and_eq_true, beq_iff_eq] at h
  exact byteAt_pred_add_width (by decide) h.2

/-- A terminator that is escaped lies inside the string. -/
theorem EndsString.lt_of_escaped {o : Options} {start stop : Nat}
    (h : EndsString o t start stop) (hle : x ≤ stop) (hbreak : t.breaksAfter x = true)
    (hodd : ¬Even (backslashes t (t.lineEnd (t.lineOf x)))) : x < stop := by
  refine Nat.lt_of_le_of_ne hle ?_
  cases h with
  | @quote y _ _ hquote =>
    -- directly before `stop` stands the quote or the hash
    rintro rfl
    refine hodd ?_
    have hend := t.lineEnd_of_breaksAfter hbreak
    split at hbreak
    · rename_i hhash
      rw [if_pos hhash] at hend ⊢
      simp only [Bool.and_eq_true, decide_eq_true_eq] at hhash
      rw [hend, if_neg (by simp [Text.endsPair, hhash.2]),
        backslashes_succ_of_ne (by rw [hhash.2]; decide)]
      exact Even.zero
    · rename_i hhash
      rw [if_neg hhash, Nat.add_zero] at hend ⊢
      rw [hend, if_neg (by simp [Text.endsPair, hquote.1, doubleQuote]),
        backslashes_succ_of_ne (by rw [hquote.1]; decide)]
      exact Even.zero
  | line _ _ hline =>
    rintro rfl
    exact hodd hline.2
  | text =>
    rintro rfl
    have := t.lt_size_of_breaksAfter hbreak
    omega

end

namespace Machine

variable {t : Text} {s : Scanner t} {m : Machine t} {p : Nat}

/-! ## 2. In a string -/

/-- The string opened at `p` is open, and nothing that ends one stands in it so far. -/
structure Within (p : Nat) (s : Scanner t) : Prop where
  opened : t.byteAt p = doubleQuote.toNat
  sync : s.InSync
  stop : s.stop = t.size + 1
  token : s.token = .string
  mark : s.mark = p
  lt_pos : p < s.pos
  unended : Unended t (p + 1) s.pos

namespace Within

section

variable (h : Within p s)
include h

theorem more (hs : s.pos ≤ t.size) : s.more = true := by
  have hstop := h.stop
  exact Cursor.more_iff.2 (by omega)

theorem note (state : Int) : Within p (s.noteHere state) :=
  ⟨h.1, h.2, h.3, h.4, h.5, h.6, h.7⟩

/-- A character that ends nothing is passed. -/
theorem forward (hs : s.pos ≤ t.size) (hno : ¬ClosingQuote t s.pos ∧ ¬OpenLineEnd t s.pos) :
    Within p s.forward where
  opened := h.opened
  sync := h.sync.forward (h.more hs)
  stop := s.toCursor.forward_stop.trans h.stop
  token := h.token
  mark := h.mark
  lt_pos := Nat.lt_of_lt_of_le h.lt_pos s.toCursor.pos_le_forward
  unended := by
    rw [Scanner.toCursor_forward, h.sync.pos_forward (h.more hs)]
    exact h.unended.append (unended_charAt hno)

theorem pos_forward (hs : s.pos ≤ t.size) :
    s.forward.pos = s.pos + (t.charAt s.pos).width := by
  rw [Scanner.toCursor_forward, h.sync.pos_forward (h.more hs)]

theorem pos_forward_of_byteAt_lt (hs : s.pos ≤ t.size) (hb : t.byteAt s.pos < 128) :
    s.forward.pos = s.pos + 1 :=
  h.sync.forward_pos_of_byteAt_lt (h.more hs) hb

end

theorem saveLine (h : Within p m.scan) : Within p m.saveLine.scan := h.note _

theorem noteEnd (h : Within p m.scan) : Within p m.noteEnd.scan := by
  rw [Machine.noteEnd]
  split
  · exact h.saveLine
  · exact h

end Within

/-- Besides, an even number of backslashes stands before what comes next, or before the
terminator that it is the second byte of. -/
structure InString (p : Nat) (s : Scanner t) : Prop extends Within p s where
  even : Even (backslashes t s.pos)
  even_pair : t.endsPair s.pos = true → Even (backslashes t (s.pos - 1))

/-- What stands behind an escaped terminator is not escaped. -/
theorem Within.forward_lineEnd (h : Within p s) (hbreak : t.breaksAfter s.pos = true)
    (hescaped : ¬OpenLineEnd t s.pos) : InString p s.forward := by
  have hs := t.lt_size_of_breaksAfter hbreak
  have hbyte := t.byteAt_of_breaksAfter hbreak
  have hpos : s.forward.pos = s.pos + 1 :=
    h.pos_forward_of_byteAt_lt (Nat.le_of_lt hs) (by omega)
  refine { toWithin := h.forward (Nat.le_of_lt hs) ⟨not_closingQuote_of_ne ?_, hescaped⟩
           even := ?_, even_pair := fun hpair => ?_ }
  · rw [show doubleQuote.toNat = 34 from rfl]
    omega
  · rw [hpos, backslashes_succ_of_ne]
    · exact Even.zero
    · rw [show backslash.toNat = 92 from rfl]
      omega
  · -- a carriage return that ends its line has no line feed behind it
    simp only [Text.endsPair, hpos, Nat.add_sub_cancel, Bool.and_eq_true, beq_iff_eq] at hpair
    simp [Text.breaksAfter, hpair.1.1, hpair.2] at hbreak

namespace InString

variable (h : InString p s)
include h

/-- A terminator that the cursor comes to is not escaped. -/
theorem openLineEnd (hbreak : t.breaksAfter s.pos = true) : OpenLineEnd t s.pos := by
  rw [openLineEnd_iff hbreak]
  split
  · rename_i hpair
    exact h.even_pair hpair
  · exact h.even

omit h in
theorem noteEnd (h : InString p m.scan) : InString p m.noteEnd.scan where
  toWithin := h.toWithin.noteEnd
  even := by rw [toCursor_noteEnd]; exact h.even
  even_pair := by rw [toCursor_noteEnd]; exact h.even_pair

/-- A character that neither ends the string nor escapes anything is passed. -/
theorem pass (hs : s.pos ≤ t.size) (hno : ¬ClosingQuote t s.pos ∧ ¬OpenLineEnd t s.pos)
    (hback : t.byteAt s.pos ≠ backslash.toNat) : InString p s.forward where
  toWithin := h.toWithin.forward hs hno
  even := by
    rw [h.pos_forward hs, backslashes_add_width, if_neg hback]
    exact Even.zero
  even_pair := by
    rw [h.pos_forward hs]
    intro hpair
    rw [(byteAt_of_endsPair_add_width hpair).2, Nat.add_sub_cancel]
    exact h.even

section

variable (hback : t.byteAt s.pos = backslash.toNat)
include hback

/-- Behind a backslash that counts the next one does not. -/
theorem odd : ¬Even (backslashes t (s.pos + 1)) := by
  rw [backslashes_succ hback, Nat.even_add_one, not_not]
  exact h.even

/-- The backslash is passed. -/
theorem forward_backslash : Within p s.forward ∧ s.forward.pos = s.pos + 1 ∧ s.pos < t.size := by
  have hs := t.lt_size_of_byteAt (p := s.pos) (by rw [hback]; decide)
  exact ⟨h.toWithin.forward (Nat.le_of_lt hs) (not_ends_of_backslash hback),
    h.pos_forward_of_byteAt_lt (Nat.le_of_lt hs) (by rw [hback]; decide), hs⟩

end

omit h in
/-- A backslash and the character that it escapes are passed, if no line ends there. -/
theorem escape (h : InString p m.scan)
    (hback : t.byteAt m.scan.pos = backslash.toNat)
    (hno : t.breaksAfter (m.scan.pos + 1) = false) (hcr : t.byteAt (m.scan.pos + 1) ≠ 13) :
    InString p (((m.map (·.forward)).noteEnd).map (·.forward)).scan := by
  have hodd := h.odd hback
  obtain ⟨hfirst, hpos, hs⟩ := h.forward_backslash hback
  have hnote : Within p (m.map (·.forward)).noteEnd.scan := hfirst.noteEnd
  have hpos : (m.map (·.forward)).noteEnd.scan.pos = m.scan.pos + 1 := by
    rw [toCursor_noteEnd]
    exact hpos
  have hle : (m.map (·.forward)).noteEnd.scan.pos ≤ t.size := by omega
  have hnext := hnote.pos_forward hle
  rw [hpos] at hnext
  refine { toWithin := hnote.forward hle ?_, even := ?_, even_pair := ?_ }
  · rw [hpos]
    exact ⟨fun hc => hodd hc.2, not_openLineEnd_of_no_break hno⟩
  · show Even (backslashes t (Scanner.forward _).pos)
    rw [hnext, backslashes_add_width]
    split
    · rw [Nat.even_add_one]
      exact hodd
    · exact Even.zero
  · show t.endsPair (Scanner.forward _).pos = true → _
    rw [hnext]
    intro hpair
    exact absurd (byteAt_of_endsPair_add_width hpair).1 hcr

/-- A backslash and the terminator that it escapes are passed. -/
theorem passLineEnd (hback : t.byteAt s.pos = backslash.toNat)
    (hnext : t.byteAt (s.pos + 1) = 10 ∨ t.byteAt (s.pos + 1) = 13) :
    InString p (Machine.passLineEnd s) := by
  have hodd := h.odd hback
  obtain ⟨hfirst, hpos, hs⟩ := h.forward_backslash hback
  have hs₁ := t.lt_size_of_byteAt (p := s.pos + 1) (by omega)
  have hpair := hfirst.sync.seesPair_iff (a := '\r') (b := '\n') (by decide) (by decide)
  rw [hpos] at hpair
  rw [Machine.passLineEnd]
  split
  · rename_i hsees
    obtain ⟨hcr, hlf⟩ := hpair.1 hsees
    have hcr : t.byteAt (s.pos + 1) = 13 := hcr
    have hlf : t.byteAt (s.pos + 2) = 10 := hlf
    have hsecond : Within p s.forward.forward := by
      refine hfirst.forward (by omega) ?_
      rw [hpos]
      exact ⟨not_closingQuote_of_ne (by rw [hcr]; decide),
        not_openLineEnd_of_no_break (by simp [Text.breaksAfter, hcr, hlf])⟩
    have hpos₂ : s.forward.forward.pos = s.pos + 2 := by
      rw [hfirst.pos_forward_of_byteAt_lt (by omega) (by rw [hpos]; omega), hpos]
    have hbreak : t.breaksAfter (s.pos + 2) = true := by simp [Text.breaksAfter, hlf]
    have hends : t.endsPair (s.pos + 2) = true := by simp [Text.endsPair, hlf, hcr]
    refine hsecond.forward_lineEnd ?_ ?_ <;> rw [hpos₂]
    · exact hbreak
    · rw [openLineEnd_iff hbreak, hends]
      exact hodd
  · rename_i hsees
    have hsingle : ¬(t.byteAt (s.pos + 1) = 13 ∧ t.byteAt (s.pos + 2) = 10) := mt hpair.2 hsees
    have hbreak : t.breaksAfter (s.pos + 1) = true := by
      rcases hnext with hlf | hcr
      · simp [Text.breaksAfter, hlf]
      · have hno : t.byteAt (s.pos + 2) ≠ 10 := fun hlf => hsingle ⟨hcr, hlf⟩
        simp [Text.breaksAfter, hcr, hno]
    have hends : t.endsPair (s.pos + 1) = false := by simp [Text.endsPair, hback, backslash]
    refine hfirst.forward_lineEnd ?_ ?_ <;> rw [hpos]
    · exact hbreak
    · rw [openLineEnd_iff hbreak, hends]
      exact hodd

omit h in
theorem step_eq (g : Settings) (h : InString p m.scan) : m.step g
    = if continues m.scan then m.noteEnd.saveLine.map Machine.passLineEnd
      else m.noteEnd.quoted g.options doubleQuote := by
  rw [Machine.step_eq, stepToken, token_noteEnd, h.token]

end InString

/-- A magic hash is passed if one may stand here and does. -/
theorem skipHash_spec (o : Options) (hsync : s.InSync) (hstop : s.stop = t.size + 1) :
    (skipHash o false s).InSync ∧ (skipHash o false s).mark = s.mark
      ∧ (skipHash o false s).token = s.token ∧ (skipHash o false s).pos
        = s.pos + if o.magicHash && t.byteAt s.pos = '#'.toNat then 1 else 0 := by
  have hsees := hsync.sees_iff (a := '#') (by decide)
  rw [skipHash]
  by_cases hhash : t.byteAt s.pos = '#'.toNat
  · have hs := t.lt_size_of_byteAt (p := s.pos) (by rw [hhash]; decide)
    have hmore : s.more = true := Cursor.more_iff.2 (by omega)
    cases hon : o.magicHash with
    | false => simp [hsync]
    | true =>
      rw [hsees.2 hhash]
      simp only [Bool.and_self, if_true, Bool.false_and, Bool.false_eq_true, if_false, hhash,
        decide_true]
      exact ⟨hsync.forward hmore, rfl, rfl, hsync.forward_pos_of_byteAt_lt hmore (by
        rw [hhash]
        decide)⟩
  · have hno : s.sees '#' = false := Bool.eq_false_iff.2 (mt hsees.1 hhash)
    have hhash : ¬t.byteAt s.pos = 35 := hhash
    simp [hno, hhash, hsync]

/-- Outside every token the end of a line is passed by. -/
theorem step_of_break {g : Settings} (hsync : m.scan.InSync) (htoken : m.scan.token = .plain)
    (hbreak : t.breaksAfter m.scan.pos = true) : m.step g = m.noteEnd.map (·.forward) := by
  have hch : m.scan.ch = t.byteAt m.scan.pos := by
    have hbyte := t.byteAt_of_breaksAfter hbreak
    rw [hsync.ch, t.charAt_of_byteAt_lt (by omega)]
  have hsign : Scanner.isSign m.noteEnd.scan.ch = false := by
    rw [toCursor_noteEnd, hch]
    rcases t.byteAt_of_breaksAfter hbreak with h | h <;> rw [h] <;> rfl
  rw [step_eq, continues_eq_false (by rw [htoken]; decide), if_neg Bool.false_ne_true, stepToken,
    token_noteEnd, htoken]
  exact plain_of_not_sign hsign

/-- The round closes the string at `stop`, and stands there then or has stood there before. -/
structure Closes (o : Options) (p stop : Nat) (m n : Machine t) : Prop where
  ends : EndsString o t (p + 1) stop
  mem_spans : ⟨p, stop, .string⟩ ∈ n.scan.spans
  token : n.scan.token = .plain
  place : (m.scan.pos = stop ∧ stop < n.scan.pos) ∨ (n.scan.InSync ∧ n.scan.pos = stop)

namespace InString

/-- At a quote that is not escaped the string ends. -/
theorem closes_of_quote (h : InString p m.scan) (o : Options)
    (hquote : t.byteAt m.scan.pos = doubleQuote.toNat) :
    ∃ stop, Closes o p stop m (m.map fun s => (skipHash o false s.forward).switch .plain) := by
  have hs := t.lt_size_of_byteAt (p := m.scan.pos) (by rw [hquote]; decide)
  have hmore := h.more (Nat.le_of_lt hs)
  have hpos : m.scan.forward.pos = m.scan.pos + 1 :=
    h.pos_forward_of_byteAt_lt (Nat.le_of_lt hs) (by rw [hquote]; decide)
  obtain ⟨hsync, hmark, htoken, hskip⟩ := skipHash_spec (s := m.scan.forward) o
    (h.sync.forward hmore) (m.scan.toCursor.forward_stop.trans h.stop)
  rw [hpos] at hskip
  have hle : (skipHash o false m.scan.forward).pos ≤ t.size := by
    rw [hskip]
    split
    · rename_i hhash
      simp only [Bool.and_eq_true, decide_eq_true_eq] at hhash
      exact t.lt_size_of_byteAt (by rw [hhash.2]; decide)
    · omega
  have hlt := h.lt_pos
  refine ⟨_, { ends := .quote (by omega) h.unended ⟨hquote, h.even⟩, mem_spans := ?_, token := rfl,
               place := Or.inr ⟨?_, ?_⟩ }⟩
  · have hmem := Scanner.mem_spans_switch (s := skipHash o false m.scan.forward) .plain (by
      rw [hmark, Scanner.mark_forward, h.mark, Nat.min_eq_left hle, hskip]
      omega)
    rw [hmark, Scanner.mark_forward, h.mark, htoken, Scanner.token_forward, h.token,
      Nat.min_eq_left hle, hskip] at hmem
    exact hmem
  · show ((skipHash o false m.scan.forward).switch .plain).InSync
    rw [Scanner.toCursor_switch]
    exact hsync
  · show ((skipHash o false m.scan.forward).switch .plain).pos = _
    rw [Scanner.toCursor_switch, hskip]

/-- At the end of a line that is not escaped, or of the text, the string ends. -/
theorem closes_of_lineEnd (h : InString p m.scan) (o : Options) (hmore : m.scan.more = true)
    (hend : m.scan.atLineEnd = true) :
    Closes o p m.scan.pos m (m.map fun s => (s.switch .plain).forward) := by
  have hle := h.sync.pos_le_size hmore
  have hlt := h.lt_pos
  refine { ends := ?_, mem_spans := ?_, token := rfl, place := Or.inl ⟨rfl, ?_⟩ }
  · have hlast := h.sync.atLineEnd.symm.trans hend
    rw [Text.lineEndsAt, Bool.or_eq_true, decide_eq_true_eq] at hlast
    rcases hlast with hbreak | hsize
    · exact .line hlt h.unended (h.openLineEnd hbreak)
    · have heq : m.scan.pos = t.size := Nat.le_antisymm hle hsize
      have hunended := h.unended
      rw [heq] at hunended ⊢
      exact .text (by omega) hunended
  · have hmem := Scanner.mem_spans_switch (s := m.scan) .plain (by
      rw [h.mark]
      omega)
    rwa [h.mark, h.token, Nat.min_eq_left hle] at hmem
  · show m.scan.pos < (m.scan.switch .plain).forward.pos
    rw [Scanner.toCursor_forward, Scanner.toCursor_switch]
    exact h.sync.toMeasured.pos_lt_forward hmore

/-- A string goes on over a line end if a backslash stands before that. -/
theorem continues_iff_byteAt (h : InString p m.scan) (hback : m.scan.sees backslash = true) :
    continues m.scan = true ↔ t.byteAt (m.scan.pos + 1) = 10 ∨ t.byteAt (m.scan.pos + 1) = 13 := by
  have hlf := h.sync.seesPair_iff (a := backslash) (b := '\n') (by decide) (by decide)
  have hcr := h.sync.seesPair_iff (a := backslash) (b := '\r') (by decide) (by decide)
  have hbyte := (h.sync.sees_iff (a := backslash) (by decide)).1 hback
  simp only [Cursor.seesPair, hback, Bool.true_and, hbyte, true_and] at hlf hcr
  rw [continues_iff, hlf, hcr]
  simp [hback, h.token]

/-- A round on an open string leaves it open or closes it. -/
theorem step_cases (g : Settings) (h : InString p m.scan) (hmore : m.scan.more = true) :
    InString p (m.step g).scan ∨ ∃ stop, Closes g.options p stop m (m.step g) := by
  have hn := h.noteEnd
  have hpos : m.noteEnd.scan.pos = m.scan.pos := by rw [toCursor_noteEnd]
  have hplace {stop : Nat} {n : Machine t} (hc : Closes g.options p stop m.noteEnd n) :
      Closes g.options p stop m n := { hc with place := by rw [← hpos]; exact hc.place }
  rw [h.step_eq g, ← continues_noteEnd]
  have hmore : m.noteEnd.scan.more = true := by simpa using hmore
  generalize m.noteEnd = n at hn hmore hplace ⊢
  have hquote := hn.sync.sees_iff (a := doubleQuote) (by decide)
  have hback := hn.sync.sees_iff (a := backslash) (by decide)
  have hs : n.scan.pos ≤ t.size := hn.sync.pos_le_size hmore
  split
  · rename_i hcont
    have hsees := (continues_iff.1 hcont).1
    left
    exact passLineEnd (s := n.saveLine.scan) ⟨hn.toWithin.saveLine, hn.even, hn.even_pair⟩
      (hback.1 hsees) ((hn.continues_iff_byteAt hsees).1 hcont)
  · rename_i hcont
    rw [quoted]
    dsimp only
    split
    · rename_i hsees
      obtain ⟨stop, hclose⟩ := hn.closes_of_quote g.options (hquote.1 hsees)
      exact Or.inr ⟨stop, hplace hclose⟩
    · rename_i hno
      split
      · rename_i hsees
        have hnext := mt (hn.continues_iff_byteAt hsees).2 hcont
        rw [not_or] at hnext
        left
        exact hn.escape (hback.1 hsees) (by simp [Text.breaksAfter, hnext]) hnext.2
      · rename_i hno'
        split
        · rename_i hend
          exact Or.inr ⟨_, hplace (hn.closes_of_lineEnd g.options hmore hend)⟩
        · rename_i hend
          left
          have hbreak : t.breaksAfter n.scan.pos = false := by
            rw [hn.sync.atLineEnd, Text.lineEndsAt, Bool.or_eq_true, not_or] at hend
            exact Bool.eq_false_iff.2 hend.1
          exact hn.pass hs
            ⟨not_closingQuote_of_ne (mt hquote.2 hno), not_openLineEnd_of_no_break hbreak⟩
            (mt hback.2 hno')

/-- The run paints the string as one span, up to where it ends. A line that ends there ends
outside every token. -/
theorem exists_end (g : Settings) {e : Machine t} (h : InString p m.scan)
    (hends : (engine g).Ends m e) : ∃ stop, EndsString g.options t (p + 1) stop
      ∧ ⟨p, stop, .string⟩ ∈ e.scan.finish.spans
      ∧ (t.breaksAfter stop = true → ∃ q, (engine g).Comes m q ∧ q.scan.more = true
        ∧ q.scan.pos = stop ∧ stop < (q.step g).scan.pos ∧ (q.step g).scan.token = .plain) := by
  rcases hends.exists_last (P := fun m : Machine t => InString p m.scan) h with
    h | ⟨r, hr, hmore, h, hlast, hrest⟩
  · -- the last character of the text is escaped
    have hdone : e.scan.stop ≤ e.scan.pos := hends.stop_le
    rw [h.stop] at hdone
    have hopened := t.lt_size_of_byteAt (p := p) (by rw [h.opened]; decide)
    refine ⟨t.size, .text hopened fun x hle hlt => h.unended x hle (by omega), ?_, fun hbreak => ?_⟩
    · have hmem := Scanner.mem_spans_finish (s := e.scan) (by
        rw [h.mark]
        omega)
      rwa [h.mark, h.token, Nat.min_eq_right (by omega)] at hmem
    · have := t.lt_size_of_breaksAfter hbreak
      omega
  · obtain ⟨stop, hclose⟩ := (h.step_cases g hmore).resolve_left hlast
    have hreach : (r.step g).scan.Reach e.scan := (sound g).reach_ends hrest
    refine ⟨stop, hclose.ends, hreach.finish.mem_spans hclose.mem_spans, fun hbreak => ?_⟩
    rcases hclose.place with ⟨hpos, hlt⟩ | ⟨hsync, hpos⟩
    · exact ⟨r, hr, hmore, hpos, hlt, hclose.token⟩
    · -- the next round passes the line end
      have hs := t.lt_size_of_breaksAfter hbreak
      have hmore' : (r.step g).scan.more = true := by
        have hstop : (r.step g).scan.stop = r.scan.stop := (r.moves_step g).reach.stop
        rw [Cursor.more_iff, hstop, h.stop]
        omega
      have hstep := step_of_break (g := g) hsync hclose.token (by rw [hpos]; exact hbreak)
      refine ⟨r.step g, hr.round hmore, hmore', hpos, ?_, ?_⟩
      · rw [hstep, ← hpos]
        show _ < (r.step g).noteEnd.scan.toCursor.forward.pos
        rw [toCursor_noteEnd]
        exact hsync.toMeasured.pos_lt_forward hmore'
      · rw [hstep]
        show (r.step g).noteEnd.scan.token = _
        rw [token_noteEnd, hclose.token]

end InString

/-! ## 3. Where a string starts -/

/-- Outside every token a double quote starts a string. -/
theorem plain_of_doubleQuote (o : Options) (hsees : m.scan.sees doubleQuote = true) :
    m.plain o = m.map fun s => (s.switch .string).forward := by
  have hch : m.scan.ch = doubleQuote.toNat := beq_iff_eq.1 hsees
  have hpragma : m.scan.seesText pragmaOpen = false := by
    rw [Cursor.seesText, pragmaOpen, List.map_cons, List.zipIdx_cons, List.all_cons]
    simp only [Cursor.ahead, hch]
    rfl
  have hpair {a b : Char} (ha : a ≠ doubleQuote) : m.scan.seesPair a b = false := by
    have hno : m.scan.sees a = false := by
      rw [Cursor.sees, hch, beq_eq_false_iff_ne]
      exact fun heq => ha (Char.toNat_inj.1 heq).symm
    rw [Cursor.seesPair, hno, Bool.false_and]
  rw [plain]
  dsimp only
  rw [hch, if_neg (by decide), hpragma, if_neg Bool.false_ne_true, hpair (by decide),
    if_neg Bool.false_ne_true, hpair (by decide), if_neg Bool.false_ne_true, hsees, if_pos rfl]

/-- A round that starts at a double quote outside every token opens a string there. -/
theorem inString_step (g : Settings) {q : Machine t}
    (hq : (engine g).Comes (start t 0 t.size .plain (LineState.unpack 0)) q)
    (hmore : q.scan.more = true) (htoken : q.scan.token = .plain)
    (hquote : t.byteAt q.scan.pos = doubleQuote.toNat) :
    InString q.scan.pos (q.step g).scan := by
  obtain ⟨hsync, hmark, hstop⟩ := inSync_of_comes hq hmore
  have hsees := (hsync.sees_iff (a := doubleQuote) (by decide)).2 hquote
  have hs := t.lt_size_of_byteAt (p := q.scan.pos) (by rw [hquote]; decide)
  have hend := hsync.atLineEnd_eq_false (Scanner.isSolid_of_sees (by decide) hsees)
  have hpos : (q.scan.switch .string).forward.pos = q.scan.pos + 1 := by
    rw [Scanner.toCursor_forward, Scanner.toCursor_switch]
    exact hsync.forward_pos_of_byteAt_lt hmore (by rw [hquote]; decide)
  rw [step_of_token hend (by rw [htoken]; decide), stepToken, htoken]
  rw [plain_of_doubleQuote g.options hsees]
  refine { opened := hquote, sync := ?_, stop := ?_, token := rfl, mark := ?_, lt_pos := ?_
           unended := ?_, even := ?_, even_pair := ?_ }
  · show (q.scan.switch .string).forward.InSync
    rw [Scanner.toCursor_forward, Scanner.toCursor_switch]
    exact hsync.forward hmore
  · exact ((Scanner.Reach.refl.switch .string).forward).stop.trans hstop
  · show (q.scan.switch .string).mark = _
    rw [Scanner.mark_switch]
    omega
  all_goals
    dsimp only [map]
    rw [hpos]
  · exact Nat.lt_succ_self _
  · intro x hle hlt
    omega
  · rw [backslashes_succ_of_ne (by rw [hquote]; decide)]
    exact Even.zero
  · simp [Text.endsPair, hquote, doubleQuote]

end Machine

/-! ## 4. The whole run -/

/-- What a whole run says of a string: one span to where it ends, and a line that ends there
ends outside every token. -/
theorem exists_endsString (g : Settings) {t : Text} {p : Nat} (hp : Meets g t p)
    (hquote : t.byteAt p = doubleQuote.toNat) :
    ∃ stop, EndsString g.options t (p + 1) stop ∧ ⟨p, stop, .string⟩ ∈ ((engine g).whole t).spans
      ∧ (t.breaksAfter stop = true → ((engine g).whole t).tokenAt? stop = some .plain) := by
  obtain ⟨q, hq, hmore, htoken, rfl⟩ := hp
  have hin : Machine.InString _ (Machine.step g q).scan :=
    Machine.inString_step g hq hmore htoken hquote
  obtain ⟨stop, hend, hmem, hline⟩ :=
    hin.exists_end g (((sound g).ends_start t 0 t.size .plain 0).of_comes (hq.round hmore))
  refine ⟨stop, hend, hmem, fun hbreak => ?_⟩
  obtain ⟨r, hr, hrmore, hpos, hcross, hplain⟩ := hline hbreak
  have hstop : t.IsStop (stop + 1) :=
    t.isStop_of_mem_starts (t.mem_starts_iff.2 (Or.inr hbreak)) (Nat.succ_pos stop)
  have hcomes := (hq.round hmore).trans hr
  obtain ⟨-, -, -, hstart, -⟩ := (resumable g).exists_crossing (sound g) hstop (Nat.succ_pos stop)
  have hlike : Machine.Like 0 (stop + 1) r r :=
    (resumable g).like_of_comes (sound g) hstart hcomes (by show r.scan.pos < _; omega)
  obtain ⟨-, htoken, -⟩ := whole_of_crossing g hbreak hcomes hrmore hlike (by omega) hcross
  rw [htoken, hplain]

end Haskell

end Restyle
