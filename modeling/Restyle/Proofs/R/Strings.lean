/-
Restyle.Proofs.R.Strings — where quoted tokens end.

A quoted token goes on to the first of its own marks that an even number
of backslashes stands before (`EndsQuoted`). The lexer counts nothing: it
passes a backslash together with the sign behind it, but only if that is a
mark of some kind or a backslash, and else by itself.

So a round may start behind an odd number of backslashes, but then not at
a sign for which that matters (`InQuotes.even`). A round on a quoted token
keeps that or closes the token (`InQuotes.step_cases`), and the run paints
it as one span (`InQuotes.exists_end`). Where the token was opened by its
mark and where it was opened behind an `r` that starts no raw string, the
round after its mark finds the same (`inQuotes_of_switch`).
-/
import Restyle.Proofs.Haskell.Strings
import Restyle.Proofs.R.RawStrings

namespace Restyle

namespace R

open Ascii (backslash backtick doubleQuote oneOf singleQuote)
open Haskell (backslashes backslashes_add_width backslashes_succ backslashes_succ_of_ne)

/-! ## 1. What ends a quoted token -/

/-- The mark that opens and closes a quoted token. -/
def markOf? : Token → Option Char
  | .string => some doubleQuote
  | .singleQuoted => some singleQuote
  | .backticked => some backtick
  | _ => none

/-- A mark at `x` that no backslash escapes. The mark that opens a token stops the count of
backslashes. -/
def ClosingMark (t : Text) (mark : Char) (x : Nat) : Prop :=
  t.byteAt x = mark.toNat ∧ Even (backslashes t x)

/-- The quoted token whose opening mark stands before `start` ends at `stop`: behind the first
mark that closes it, or at the end of the text if there is none. -/
def EndsQuoted (t : Text) (mark : Char) (start stop : Nat) : Prop :=
  (∃ x, start ≤ x ∧ ClosingMark t mark x
      ∧ (∀ y, start ≤ y → y < x → ¬ClosingMark t mark y) ∧ stop = x + 1)
    ∨ (∀ y, start ≤ y → ¬ClosingMark t mark y) ∧ stop = t.size

/-- The lexer, on its way through the whole text, opens a quoted token with its mark at `p`,
outside every token or behind an `r` there that starts no raw string. -/
inductive OpensQuoted (g : Settings) (t : Text) (token : Token) (mark : Char) : Nat → Prop
  | plain {p : Nat} (kind : markOf? token = some mark) (meets : Meets g t p)
    (byte : t.byteAt p = mark.toNat) : OpensQuoted g t token mark p
  | behind {p : Nat} (kind : markOf? token = some mark) (quote : token ≠ .backticked)
    (meets : Meets g t p) (letter : oneOf ['r', 'R'] (t.byteAt p) = true)
    (byte : t.byteAt (p + 1) = mark.toNat) (none : ∀ d, ¬Opens t p mark d) :
    OpensQuoted g t token mark (p + 1)

theorem markOf?_cases {token : Token} {mark : Char} (h : markOf? token = some mark) :
    (token = .string ∧ mark = doubleQuote) ∨ (token = .singleQuoted ∧ mark = singleQuote)
      ∨ (token = .backticked ∧ mark = backtick) := by
  cases token <;> cases h <;> simp

/-- A mark, or the backslash itself: what a backslash is passed together with. -/
def isEscapable (c : Nat) : Bool := oneOf [doubleQuote, singleQuote, backslash, backtick] c

theorem isEscapable_mark {token : Token} {mark : Char} (h : markOf? token = some mark) :
    isEscapable mark.toNat = true := by
  rcases markOf?_cases h with ⟨-, rfl⟩ | ⟨-, rfl⟩ | ⟨-, rfl⟩ <;> rfl

theorem isEscapable_iff {c : Nat} : isEscapable c = true ↔ c = 34 ∨ c = 39 ∨ c = 92 ∨ c = 96 := by
  simp only [isEscapable, oneOf, List.any_cons, List.any_nil, Bool.or_false, Bool.or_eq_true,
    beq_iff_eq]
  show 34 = c ∨ 39 = c ∨ 92 = c ∨ 96 = c ↔ _
  omega

/-- An escapable sign is told by its byte. -/
theorem isEscapable_code (t : Text) (x : Nat) :
    isEscapable (t.charAt x).code = true ↔ isEscapable (t.byteAt x) = true := by
  have hcode {c : Nat} (hc : c < 128) : (t.charAt x).code = c ↔ t.byteAt x = c := t.code_eq_iff hc
  rw [isEscapable_iff, isEscapable_iff, hcode (by decide), hcode (by decide), hcode (by decide),
    hcode (by decide)]

theorem mark_toNat {token : Token} {mark : Char} (h : markOf? token = some mark) :
    mark.toNat = 34 ∨ mark.toNat = 39 ∨ mark.toNat = 96 := by
  rcases markOf?_cases h with ⟨-, rfl⟩ | ⟨-, rfl⟩ | ⟨-, rfl⟩ <;> decide

namespace Machine

variable {t : Text} {s : Scanner t} {m e : Machine t} {p : Nat} {token : Token} {mark : Char}

/-! ## 2. In a quoted token -/

/-- The quoted token that was opened at `p` is open, and nothing that closes it stands in it so
far. -/
structure Quoting (token : Token) (mark : Char) (p : Nat) (s : Scanner t) : Prop where
  kind : markOf? token = some mark
  sync : s.InSync
  stop_eq : s.stop = t.size + 1
  token_eq : s.token = token
  mark_eq : s.mark = p
  lt_pos : p < s.pos
  unclosed : ∀ x, p < x → x < s.pos → ¬ClosingMark t mark x

/-- Besides, a sign that a backslash would be passed with is not escaped if it comes next. -/
structure InQuotes (token : Token) (mark : Char) (p : Nat) (s : Scanner t) : Prop
    extends Quoting token mark p s where
  even : isEscapable (t.byteAt s.pos) = true → Even (backslashes t s.pos)

namespace Quoting

variable (h : Quoting token mark p s)
include h

theorem more (hs : s.pos ≤ t.size) : s.more = true := by
  have hstop := h.stop_eq
  exact Cursor.more_iff.2 (by omega)

theorem pos_forward (hs : s.pos ≤ t.size) : s.forward.pos = s.pos + (t.charAt s.pos).width := by
  rw [Scanner.toCursor_forward, h.sync.pos_forward (h.more hs)]

/-- A character that does not close the token is passed. -/
theorem forward (hs : s.pos ≤ t.size) (hno : ¬ClosingMark t mark s.pos) :
    Quoting token mark p s.forward where
  kind := h.kind
  sync := h.sync.forward (h.more hs)
  stop_eq := s.toCursor.forward_stop.trans h.stop_eq
  token_eq := h.token_eq
  mark_eq := h.mark_eq
  lt_pos := Nat.lt_of_lt_of_le h.lt_pos s.toCursor.pos_le_forward
  unclosed := by
    have hmark := mark_toNat h.kind
    rw [h.pos_forward hs]
    intro x hpx hx hclose
    rcases Nat.lt_trichotomy x s.pos with hlt | rfl | hgt
    · exact h.unclosed x hpx hlt hclose
    · exact hno hclose
    · -- the rest of a character is no ASCII sign
      have hinside := t.le_byteAt_of_inside hgt hx
      have hbyte := hclose.1
      omega

omit h in
theorem noteEnd (h : Quoting token mark p m.scan) : Quoting token mark p m.noteEnd.scan where
  kind := h.kind
  sync := by rw [toCursor_noteEnd]; exact h.sync
  stop_eq := by rw [toCursor_noteEnd]; exact h.stop_eq
  token_eq := by rw [token_noteEnd]; exact h.token_eq
  mark_eq := by rw [mark_noteEnd]; exact h.mark_eq
  lt_pos := by rw [toCursor_noteEnd]; exact h.lt_pos
  unclosed := by rw [toCursor_noteEnd]; exact h.unclosed

end Quoting

theorem settle_of_quoted (h : markOf? m.scan.token = some mark) : m.settle = m := by
  rw [settle]
  refine if_neg fun hplain => ?_
  rw [hplain] at h
  cases h

theorem endToken_of_quoted (g : Settings) (h : markOf? m.scan.token = some mark) :
    m.endToken g = m.map (quoted mark) := by
  rw [endToken]
  cases ht : m.scan.token <;> rw [ht] at h <;> cases h <;> rfl

/-- A round that leaves the token open passes the character that it comes to, if what stands
behind that is not escaped by it. -/
theorem Quoting.finishRound (h : Quoting token mark p m.scan) (hs : m.scan.pos ≤ t.size)
    (hno : ¬ClosingMark t mark m.scan.pos)
    (heven : isEscapable (t.byteAt (m.scan.pos + (t.charAt m.scan.pos).width)) = true →
      Even (backslashes t (m.scan.pos + (t.charAt m.scan.pos).width))) :
    InQuotes token mark p m.finishRound.scan := by
  have hnote := h.noteEnd
  have hpos := hnote.pos_forward (by rw [toCursor_noteEnd]; exact hs)
  rw [Machine.finishRound, settle_of_quoted (by rw [h.token_eq]; exact h.kind)]
  refine { toQuoting := hnote.forward (by rw [toCursor_noteEnd]; exact hs)
             (by rw [toCursor_noteEnd]; exact hno), even := ?_ }
  show isEscapable (t.byteAt m.noteEnd.scan.forward.pos) = true →
    Even (backslashes t m.noteEnd.scan.forward.pos)
  rw [hpos, toCursor_noteEnd]
  exact heven

namespace InQuotes

variable (h : InQuotes token mark p m.scan)
include h

section

variable (hback : t.byteAt m.scan.pos = backslash.toNat)
include hback

omit h in
theorem charAt_of_backslash : t.charAt m.scan.pos = ⟨t.byteAt m.scan.pos, 1⟩ :=
  t.charAt_of_byteAt_lt (by rw [hback]; decide)

/-- What stands behind a backslash is escaped, if that is a sign for which it matters. -/
theorem isEscapable_next :
    isEscapable m.scan.next = true ↔ isEscapable (t.byteAt (m.scan.pos + 1)) = true := by
  rw [h.sync.next, h.sync.width, charAt_of_backslash hback]
  exact isEscapable_code t _

theorem odd : ¬Even (backslashes t (m.scan.pos + 1)) := by
  rw [backslashes_succ hback, Nat.even_add_one, not_not]
  exact h.even (by rw [hback]; decide)

/-- A backslash closes nothing. -/
theorem not_closingMark : ¬ClosingMark t mark m.scan.pos := by
  rintro ⟨hbyte, -⟩
  have hmark := mark_toNat h.kind
  rw [← hbyte, hback] at hmark
  exact absurd hmark (by decide)

theorem forward_backslash :
    Quoting token mark p m.scan.forward ∧ m.scan.forward.pos = m.scan.pos + 1 := by
  have hs := t.lt_size_of_byteAt (p := m.scan.pos) (by rw [hback]; decide)
  refine ⟨h.toQuoting.forward (Nat.le_of_lt hs) (h.not_closingMark hback), ?_⟩
  rw [h.pos_forward (Nat.le_of_lt hs), charAt_of_backslash hback]

/-- Together with what it escapes a backslash is passed in one round. -/
theorem finishRound_of_escape (hesc : isEscapable m.scan.next = true) :
    InQuotes token mark p (m.map (·.forward)).finishRound.scan := by
  have hnext := isEscapable_iff.1 ((h.isEscapable_next hback).1 hesc)
  have hs := t.lt_size_of_byteAt (p := m.scan.pos + 1) (by omega)
  have hodd := h.odd hback
  obtain ⟨hfirst, hpos⟩ := h.forward_backslash hback
  refine Quoting.finishRound (m := m.map (·.forward)) hfirst ?_ ?_ ?_
  all_goals
    dsimp only [map]
    rw [hpos]
  · exact Nat.le_of_lt hs
  · exact fun hclose => hodd hclose.2
  · intro _
    rw [backslashes_add_width]
    split
    · rw [Nat.even_add_one]
      exact hodd
    · exact Even.zero

/-- A backslash that escapes nothing is passed by itself. -/
theorem finishRound_of_not_escape (hno : ¬isEscapable m.scan.next = true) :
    InQuotes token mark p m.finishRound.scan := by
  have hs := t.lt_size_of_byteAt (p := m.scan.pos) (by rw [hback]; decide)
  refine h.toQuoting.finishRound (Nat.le_of_lt hs) (h.not_closingMark hback) ?_
  rw [charAt_of_backslash hback]
  exact fun hnext => absurd ((h.isEscapable_next hback).2 hnext) hno

end

/-- A round on a quoted token leaves it open, or closes it at the mark that it comes to. -/
theorem step_cases (g : Settings) (hmore : m.scan.more = true) :
    InQuotes token mark p (m.step g).scan
      ∨ (ClosingMark t mark m.scan.pos ∧ m.endToken g = m.map (·.forwardSwitch .plain)) := by
  have hs := h.sync.pos_le_size hmore
  have hmark := mark_toNat h.kind
  have hback := h.sync.sees_iff (a := backslash) (by decide)
  have hsees := h.sync.sees_iff (a := mark) (by omega)
  have hend : m.endToken g = m.map (quoted mark) :=
    endToken_of_quoted g (by rw [h.token_eq]; exact h.kind)
  rw [step_eq, hend]
  by_cases hslash : m.scan.sees backslash = true
  · left
    have hquoted : m.map (quoted mark)
        = m.map fun s => if isEscapable s.next then s.forward else s :=
      congrArg (Machine.mk · m.raw) (if_pos hslash)
    rw [hquoted]
    by_cases hesc : isEscapable m.scan.next = true
    · rw [map, if_pos hesc]
      exact h.finishRound_of_escape (hback.1 hslash) hesc
    · rw [map, if_neg hesc]
      exact h.finishRound_of_not_escape (hback.1 hslash) hesc
  · by_cases hquote : m.scan.sees mark = true
    · have hbyte := hsees.1 hquote
      right
      refine ⟨⟨hbyte, h.even ?_⟩, congrArg (Machine.mk · m.raw) ?_⟩
      · rw [hbyte]
        exact isEscapable_mark h.kind
      · rw [quoted, if_neg hslash, if_pos hquote]
    · left
      have hquoted : m.map (quoted mark) = m :=
        congrArg (Machine.mk · m.raw) (by rw [quoted, if_neg hslash, if_neg hquote])
      rw [hquoted]
      refine h.toQuoting.finishRound hs (fun hclose => hquote (hsees.2 hclose.1)) fun _ => ?_
      rw [backslashes_add_width, if_neg (mt hback.2 hslash)]
      exact Even.zero

/-- The run paints the token as one span, up to where it ends. -/
theorem exists_end (g : Settings) (hends : (engine g).Ends m e) (hsize : p < t.size) :
    ∃ stop, EndsQuoted t mark (p + 1) stop ∧ ⟨p, stop, token⟩ ∈ e.scan.finish.spans := by
  have hmark := mark_toNat h.kind
  rcases hends.exists_last (P := fun m : Machine t => InQuotes token mark p m.scan) h with
    h | ⟨r, -, hmore, h, hlast, hrest⟩
  · have hdone : e.scan.stop ≤ e.scan.pos := hends.stop_le
    rw [h.stop_eq] at hdone
    refine ⟨t.size, Or.inr ⟨fun x hx hclose => ?_, rfl⟩, ?_⟩
    · have hbyte := hclose.1
      have hlt := t.lt_size_of_byteAt (p := x) (by omega)
      exact h.unclosed x hx (by omega) hclose
    · have hmem := Scanner.mem_spans_finish (s := e.scan) (by
        rw [h.mark_eq]
        omega)
      rwa [h.mark_eq, h.token_eq, Nat.min_eq_right (by omega)] at hmem
  · obtain ⟨hclose, hend⟩ := (h.step_cases g hmore).resolve_left hlast
    have hbyte := hclose.1
    have hlt := h.lt_pos
    have hs := t.lt_size_of_byteAt (p := r.scan.pos) (by omega)
    have hpos : r.scan.forward.pos = r.scan.pos + 1 := by
      rw [h.pos_forward (Nat.le_of_lt hs), t.charAt_of_byteAt_lt (by omega)]
    refine ⟨r.scan.pos + 1, Or.inl ⟨r.scan.pos, hlt, hclose, h.unclosed, rfl⟩, ?_⟩
    have hmem := Scanner.mem_spans_switch (s := r.scan.forward) .plain (by
      rw [Scanner.mark_forward, h.mark_eq, hpos]
      omega)
    rw [Scanner.mark_forward, h.mark_eq, hpos, Scanner.token_forward, h.token_eq,
      Nat.min_eq_left (by omega)] at hmem
    have hreach : (r.scan.forwardSwitch .plain).Reach (r.step g).scan := by
      have hround : (endToken g r).scan.Reach (step g r).scan := reach_finishRound _
      rw [hend] at hround
      exact hround
    exact (hreach.trans ((sound g).reach_ends hrest)).finish.mem_spans hmem

end InQuotes

/-! ## 3. Where a quoted token starts -/

/-- Behind the mark that a scanner switches at, the quoted token is open. -/
theorem inQuotes_of_switch (kind : markOf? token = some mark) {n : Machine t}
    (hscan : n.scan = s.switch token) (hsync : s.InSync) (hstop : s.stop = t.size + 1)
    (hmark : s.mark ≤ s.pos) (hbyte : t.byteAt s.pos = mark.toNat) :
    InQuotes token mark s.pos (n.noteEnd.map (·.forward)).scan := by
  have hascii := mark_toNat kind
  have hs := t.lt_size_of_byteAt (p := s.pos) (by omega)
  have hmore : s.more = true := Cursor.more_iff.2 (by omega)
  have hcursor : (n.noteEnd.map (·.forward)).scan.toCursor = s.toCursor.forward := by
    show n.noteEnd.scan.toCursor.forward = _
    rw [toCursor_noteEnd, hscan, Scanner.toCursor_switch]
  have hpos : s.toCursor.forward.pos = s.pos + 1 := hsync.forward_pos_of_byteAt_lt hmore (by omega)
  refine { kind := kind, sync := ?_, stop_eq := ?_, token_eq := ?_, mark_eq := ?_, lt_pos := ?_
           unclosed := ?_, even := ?_ }
  · rw [hcursor]
    exact hsync.forward hmore
  · rw [hcursor, Cursor.forward_stop, hstop]
  · show n.noteEnd.scan.token = _
    rw [token_noteEnd, hscan, Scanner.token_switch]
  · show n.noteEnd.scan.mark = _
    rw [mark_noteEnd, hscan, Scanner.mark_switch]
    omega
  · rw [hcursor, hpos]
    exact Nat.lt_succ_self _
  · rw [hcursor, hpos]
    intro x hx hx'
    omega
  · rw [hcursor, hpos, backslashes_succ_of_ne (by
      rw [hbyte]
      rcases markOf?_cases kind with ⟨-, rfl⟩ | ⟨-, rfl⟩ | ⟨-, rfl⟩ <;> decide)]
    exact fun _ => Even.zero

/-- Outside every token a mark opens the token that it marks. -/
theorem startToken_of_mark (kind : markOf? token = some mark) (hch : m.scan.ch = mark.toNat) :
    m.startToken = m.map (·.switch token) := by
  rcases markOf?_cases kind with ⟨rfl, rfl⟩ | ⟨rfl, rfl⟩ | ⟨rfl, rfl⟩
  all_goals
    simp only [startToken, Cursor.sees, hch]
    rfl

/-- An `r` before a quote is a name of one letter, and the quote opens a token, if they open no
raw string. -/
theorem startToken_of_letter (kind : markOf? token = some mark) (hquote : token ≠ .backticked)
    (hletter : oneOf ['r', 'R'] m.scan.ch = true) (hnext : m.scan.next = mark.toNat)
    (hnone : delimiterAt? t (m.scan.pos + 2) = none) :
    m.startToken = ⟨(m.scan.switch .identifier).forwardSwitch token, none⟩ := by
  have hdigit : (Ascii.isDigit m.scan.ch || (m.scan.sees '.' && Ascii.isDigit m.scan.next))
      = false := by
    rw [Cursor.sees]
    rcases letter_cases hletter with hch | hch <;> rw [hch] <;> rfl
  have hstarts : oneOf [doubleQuote, singleQuote] m.scan.next = true
      ∧ (if m.scan.seesNext doubleQuote = true then Token.string else .singleQuoted) = token := by
    rw [Cursor.seesNext, hnext]
    rcases markOf?_cases kind with ⟨rfl, rfl⟩ | ⟨rfl, rfl⟩ | ⟨rfl, -⟩
    · exact ⟨rfl, rfl⟩
    · exact ⟨rfl, rfl⟩
    · exact absurd rfl hquote
  rw [startToken]
  dsimp only
  rw [hdigit, if_neg Bool.false_ne_true, hletter, hstarts.1, Bool.and_self, if_pos rfl, startRaw,
    hnone]
  dsimp only
  rw [hstarts.2]

theorem delimiterAt?_eq_none (hletter : oneOf ['r', 'R'] (t.byteAt p) = true)
    (hbyte : t.byteAt (p + 1) = mark.toNat) (hnone : ∀ d, ¬Opens t p mark d) :
    delimiterAt? t (p + 2) = none := by
  cases hd : delimiterAt? t (p + 2) with
  | none => rfl
  | some d =>
    obtain ⟨hbracket, hdashes⟩ := delimiterAt?_eq_some hd
    exact absurd ⟨hletter, hbyte, hdashes, hbracket⟩ (hnone d)

section

variable (kind : markOf? token = some mark) (hsync : m.scan.InSync)
  (hstop : m.scan.stop = t.size + 1) (hmark : m.scan.mark ≤ m.scan.pos)
  (hplain : m.scan.token = .plain)
include kind hsync hstop hmark hplain

/-- A machine that comes outside every token to a mark opens the token there. -/
theorem inQuotes_of_mark (byte : t.byteAt m.scan.pos = mark.toNat) :
    InQuotes token mark m.scan.pos m.finishRound.scan := by
  have hascii := mark_toNat kind
  have hch : m.scan.ch = mark.toNat := by
    rw [hsync.ch, t.code_eq_iff (by omega)]
    exact byte
  rw [finishRound, settle, if_pos hplain, startToken_of_mark kind hch]
  exact inQuotes_of_switch kind rfl hsync hstop hmark byte

/-- One that comes to an `r` before the mark opens it behind that, if no raw string starts. -/
theorem inQuotes_of_letter (hquote : token ≠ .backticked)
    (letter : oneOf ['r', 'R'] (t.byteAt m.scan.pos) = true)
    (byte : t.byteAt (m.scan.pos + 1) = mark.toNat) (hnone : ∀ d, ¬Opens t m.scan.pos mark d) :
    InQuotes token mark (m.scan.pos + 1) m.finishRound.scan := by
  have hascii := mark_toNat kind
  have hletter := letter_cases letter
  have hs := t.lt_size_of_byteAt (p := m.scan.pos + 1) (by omega)
  have hone : t.charAt m.scan.pos = ⟨t.byteAt m.scan.pos, 1⟩ := t.charAt_of_byteAt_lt (by omega)
  have hch : m.scan.ch = t.byteAt m.scan.pos := by rw [hsync.ch, hone]
  have hnext : m.scan.next = mark.toNat := by
    rw [hsync.next, hsync.width, hone, t.code_eq_iff (by omega)]
    exact byte
  have hmore : m.scan.more = true := Cursor.more_iff.2 (by omega)
  have hsync' : (m.scan.switch .identifier).forward.InSync := by
    rw [Scanner.toCursor_forward, Scanner.toCursor_switch]
    exact hsync.forward hmore
  have hpos : (m.scan.switch .identifier).forward.pos = m.scan.pos + 1 := by
    rw [Scanner.toCursor_forward, Scanner.toCursor_switch]
    exact hsync.forward_pos_of_byteAt_lt hmore (by omega)
  rw [finishRound, settle, if_pos hplain, startToken_of_letter kind hquote (by rw [hch]; exact letter)
    hnext (delimiterAt?_eq_none letter byte hnone), ← hpos]
  refine inQuotes_of_switch kind rfl hsync' ?_ ?_ ?_
  · rw [Scanner.toCursor_forward, Scanner.toCursor_switch, Cursor.forward_stop, hstop]
  · rw [Scanner.mark_forward, Scanner.mark_switch, hpos]
    omega
  · rw [hpos]
    exact byte

end

end Machine

/-! ## 4. The whole run -/

/-- Where a quoted token is opened, a run over the whole text comes to be in it. -/
theorem OpensQuoted.exists_inQuotes {g : Settings} {t : Text} {token : Token} {mark : Char}
    {p : Nat} (h : OpensQuoted g t token mark p) : p < t.size
      ∧ ∃ q, (engine g).Comes (Machine.start t 0 t.size .plain (LineState.unpack 0)) q
        ∧ Machine.InQuotes token mark p q.scan := by
  cases h with
  | plain kind meets byte =>
    obtain ⟨q, hq, hmore, hplain, rfl⟩ := meets
    have hascii := mark_toNat kind
    have hs := t.lt_size_of_byteAt (p := (q.endToken g).scan.pos) (by omega)
    obtain ⟨hsync, hstop, hmark⟩ := Machine.inSync_endToken g hq hmore hs
    exact ⟨hs, q.step g, hq.round hmore,
      Machine.inQuotes_of_mark kind hsync hstop hmark hplain byte⟩
  | behind kind quote meets letter byte none =>
    obtain ⟨q, hq, hmore, hplain, rfl⟩ := meets
    have hascii := mark_toNat kind
    have hs := t.lt_size_of_byteAt (p := (q.endToken g).scan.pos + 1) (by omega)
    obtain ⟨hsync, hstop, hmark⟩ := Machine.inSync_endToken g hq hmore (by omega)
    exact ⟨hs, q.step g, hq.round hmore,
      Machine.inQuotes_of_letter kind hsync hstop hmark hplain quote letter byte none⟩

/-- What a whole run says of a quoted token: one span to where it ends. -/
theorem exists_endsQuoted (g : Settings) {t : Text} {p : Nat} {token : Token} {mark : Char}
    (h : OpensQuoted g t token mark p) :
    ∃ stop, EndsQuoted t mark (p + 1) stop ∧ ⟨p, stop, token⟩ ∈ ((engine g).whole t).spans := by
  obtain ⟨hs, q, hq, hin⟩ := h.exists_inQuotes
  exact hin.exists_end g (((sound g).ends_start t 0 t.size .plain 0).of_comes hq) hs

end R

end Restyle
