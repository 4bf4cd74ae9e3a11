/-
Restyle.Proofs.Scanner.CarriageReturns — scanners over a text and over
the same text with CRLF for LF.

Byte by byte they see the same signs, so they go in tandem
(`Matching.tandem`). They part at line feeds only, where the second has
two characters to move over for one of the first. In between it is one
byte further on (`Matched 1`), and paints and notes as before.
-/
import Restyle.Proofs.Scanner.Tandem
import Restyle.Proofs.Text.CarriageReturns

namespace Restyle.Scanner

open Text (crlfPos_lt crlfPos_lt_size crlfPos_le_iff crlfPos_succ crlfPos_add size_crlf byteAt_crlfPos
  byteAt_crlfPos_of_ne byteAt_crlfPos_succ lineAt_crlfPos lineEndsAt_crlfPos lineStartsAt_crlfPos
  crlf_size_le_crlfPos_iff crlfPos_inj crlfPos_ne_succ lineEnd_crlf)

variable {t : Text}

/-! ## 1. The relation -/

/-- The scanners have come to the same place, but for `gap` bytes, and have said the same of
all bytes but line feeds. -/
structure Matched (gap : Nat) (s : Scanner t) (s' : Scanner t.crlf) : Prop where
  pos : s'.pos = t.crlfPos s.pos + gap
  stop : s.stop = t.size + 1
  stop' : s'.stop = t.crlf.size + 1
  token : s'.token = s.token
  mark_le : s.mark ≤ min s.pos t.size
  mark_le' : s'.mark ≤ min s'.pos t.crlf.size
  look : ∀ p < s.pos, p < t.size → t.byteAt p ≠ 10 → s'.look (t.crlfPos p) = s.look p
  noted : ∀ line < t.lineAt s.pos, s'.noted line = s.noted line

/-- The open spans start at one place and hold no line feed. -/
structure SameMark (s : Scanner t) (s' : Scanner t.crlf) : Prop where
  mark : s'.mark = t.crlfPos s.mark
  solid : ∀ p, s.mark ≤ p → p < s.pos → t.byteAt p ≠ 10

/-- Scanners at the same place that have more to do. -/
structure Matching (loose : Token → Bool) (s : Scanner t) (s' : Scanner t.crlf) : Prop
    extends Matched 0 s s' where
  sync : s.InSync
  sync' : s'.InSync
  lt : s.pos < t.size + 1
  sameMark : loose s.token = true → SameMark s s'

variable {loose : Token → Bool} {gap : Nat} {s : Scanner t} {s' : Scanner t.crlf}

/-! ## 2. In one place -/

namespace Matched

section

variable (h : Matched gap s s')
include h

theorem crlfPos_lt_pos {p : Nat} (hp : p < s.pos) : t.crlfPos p < s'.pos := by
  have := crlfPos_lt (t := t) hp
  have := h.pos
  omega

/-- A note for a line that is not left behind changes nothing. -/
theorem note (hl : s.line = t.lineAt s.pos) (state : Int) : Matched gap (s.noteHere state) s' :=
  { h with
    noted := by
      intro line hlt
      have hlt : line < t.lineAt s.pos := hlt
      rw [noted_noteHere, if_neg (by omega)]
      exact h.noted line hlt }

theorem note' (hl : s'.line = t.lineAt s.pos) (state : Int) : Matched gap s (s'.noteHere state) :=
  { h with
    noted := by
      intro line hlt
      rw [noted_noteHere, if_neg (by omega)]
      exact h.noted line hlt }

end

variable (ht : t.NoReturns) (h : Matched gap s s')
include ht h

theorem switch (token : Token) : Matched gap (s.switch token) (s'.switch token) where
  pos := by simpa using h.pos
  stop := by simpa using h.stop
  stop' := by simpa using h.stop'
  token := rfl
  mark_le := by
    have hmark := h.mark_le
    rw [mark_switch, toCursor_switch]
    omega
  mark_le' := by
    have hmark := h.mark_le'
    rw [mark_switch, toCursor_switch]
    omega
  look := by
    intro p hp hs hb
    rw [toCursor_switch] at hp
    rw [look_switch _ _ hp hs, look_switch _ _ (h.crlfPos_lt_pos hp) (crlfPos_lt_size ht hs)]
    exact h.look p hp hs hb
  noted := by simpa using h.noted

end Matched

theorem SameMark.le_iff (hm : SameMark s s') (p : Nat) : s'.mark ≤ t.crlfPos p ↔ s.mark ≤ p := by
  rw [hm.mark, crlfPos_le_iff]

theorem Matched.relabel (h : Matched gap s s') (hm : SameMark s s') (token : Token) :
    Matched gap (s.relabel token) (s'.relabel token) :=
  { h with
    token := rfl
    look := by
      intro p hp hs hb
      rw [look_relabel, look_relabel, h.look p hp hs hb]
      simp only [hm.le_iff] }

namespace Matching

section

variable (ht : t.NoReturns) (h : Matching loose s s')
include ht h

theorem lineAt_pos' : t.crlf.lineAt s'.pos = t.lineAt s.pos := by
  rw [h.pos, Nat.add_zero, lineAt_crlfPos ht]

theorem line : s'.line = s.line := by rw [h.sync.line, h.sync'.line, lineAt_pos' ht h]

omit ht in
theorem more : s.more = true := Cursor.more_iff.2 (by rw [h.stop]; exact h.lt)

theorem more' : s'.more = true := by
  have hlt := crlfPos_le_iff (t := t).2 (Nat.le_of_lt_succ h.lt)
  have hpos := h.pos
  rw [Cursor.more_iff, h.stop', size_crlf ht]
  omega

theorem atLineEnd (hb : t.byteAt s.pos ≠ 10) : s'.atLineEnd = s.atLineEnd := by
  rw [h.sync.atLineEnd, h.sync'.atLineEnd, h.pos, Nat.add_zero, lineEndsAt_crlfPos ht hb]

theorem atLineStart : s'.atLineStart = s.atLineStart := by
  rw [h.sync.atLineStart, h.sync'.atLineStart, h.pos, Nat.add_zero, lineStartsAt_crlfPos ht]

theorem atTerminator : s'.atTerminator = s.atTerminator := by
  rw [Cursor.atTerminator, Cursor.atTerminator, line ht h, h.pos, Nat.add_zero, lineEnd_crlf ht,
    Bool.eq_iff_iff, beq_iff_eq, beq_iff_eq, crlfPos_inj]

/-- Painted spans end where the scanners stand. -/
theorem switch (token : Token) : Matching loose (s.switch token) (s'.switch token)
    ∧ SameMark (s.switch token) (s'.switch token) := by
  have hs := h.toMatched.switch ht token
  have hle := Nat.le_of_lt_succ h.lt
  have hsize := size_crlf ht
  have hle' := crlfPos_le_iff (t := t).2 hle
  have hpos := h.pos
  have hmark := h.mark_le
  have hmark' := h.mark_le'
  have hsame : SameMark (s.switch token) (s'.switch token) := by
    constructor
    · rw [mark_switch, mark_switch, show max s.mark (min s.pos t.size) = s.pos by omega]
      omega
    · intro p hp hlt
      rw [mark_switch] at hp
      rw [toCursor_switch] at hlt
      omega
  exact ⟨{ toMatched := hs
           sync := by simpa using h.sync
           sync' := by simpa using h.sync'
           lt := by simpa using h.lt
           sameMark := fun _ => hsame }, hsame⟩

theorem paint (hm : SameMark s s') (token : Token) :
    Matching loose (s.paintTo s.pos token) (s'.paintTo s'.pos token)
      ∧ SameMark (s.paintTo s.pos token) (s'.paintTo s'.pos token) := by
  have hle := Nat.le_of_lt_succ h.lt
  have hsize := size_crlf ht
  have hle' := crlfPos_le_iff (t := t).2 hle
  have hpos := h.pos
  have hmark := h.mark_le
  have hmark' := h.mark_le'
  have hsame : SameMark (s.paintTo s.pos token) (s'.paintTo s'.pos token) := by
    constructor
    · rw [mark_paintTo, mark_paintTo, show max s.mark (min s.pos t.size) = s.pos by omega]
      omega
    · intro p hp hlt
      rw [mark_paintTo] at hp
      rw [toCursor_paintTo] at hlt
      omega
  refine ⟨{ pos := by simpa using hpos
            stop := by simpa using h.stop
            stop' := by simpa using h.stop'
            token := by simpa using h.token
            mark_le := ?_
            mark_le' := ?_
            look := ?_
            noted := by simpa using h.noted
            sync := by simpa using h.sync
            sync' := by simpa using h.sync'
            lt := by simpa using h.lt
            sameMark := fun _ => hsame }, hsame⟩
  · rw [mark_paintTo, toCursor_paintTo]
    omega
  · rw [mark_paintTo, toCursor_paintTo]
    omega
  · intro p hp hs hb
    rw [toCursor_paintTo] at hp
    rw [look_paintTo_pos _ _ hp hs, look_paintTo_pos _ _ (h.crlfPos_lt_pos hp)
      (crlfPos_lt_size ht hs), h.look p hp hs hb]
    simp only [hm.le_iff]

end

theorem relabel (h : Matching loose s s') (hm : SameMark s s') (token : Token) :
    Matching loose (s.relabel token) (s'.relabel token)
      ∧ SameMark (s.relabel token) (s'.relabel token) := by
  have hsame : SameMark (s.relabel token) (s'.relabel token) := ⟨hm.mark, hm.solid⟩
  exact ⟨{ h with toMatched := h.toMatched.relabel hm token, sameMark := fun _ => hsame }, hsame⟩

end Matching

/-! ## 3. Moving on -/

/-- At the end of the text a move changes nothing. -/
theorem Matched.forward_of_not_more (ht : t.NoReturns) (h : Matched 0 s s')
    (hno : s.more = false) : Matched 0 s.forward s'.forward := by
  have hpos := h.pos
  have hno' : s'.more = false := by
    have hstop := h.stop
    have hstop' := h.stop'
    have hsize := size_crlf ht
    rw [Cursor.more, decide_eq_false_iff_not] at hno ⊢
    have := crlfPos_lt (t := t) (p := t.size) (q := s.pos) (by omega)
    omega
  have hcursor := Cursor.forward_of_not_more hno
  have hcursor' := Cursor.forward_of_not_more hno'
  have hsame : s.forward.pos = s.pos := by rw [toCursor_forward, hcursor]
  have hsame' : s'.forward.pos = s'.pos := by rw [toCursor_forward, hcursor']
  refine { h with pos := ?_, stop := ?_, stop' := ?_, mark_le := ?_, mark_le' := ?_, look := ?_,
                  noted := ?_ }
  · rw [hsame, hsame']
    exact hpos
  · rw [toCursor_forward, hcursor]
    exact h.stop
  · rw [toCursor_forward, hcursor']
    exact h.stop'
  · rw [hsame]
    exact h.mark_le
  · rw [hsame']
    exact h.mark_le'
  · rw [hsame]
    exact h.look
  · rw [hsame]
    exact h.noted

section

variable (ht : t.NoReturns) (he : t.encoding = .eightBit) (hsync : s.InSync) (hsync' : s'.InSync)
include ht he hsync hsync'

/-- Over what is no line feed both take one move. -/
theorem Matched.forward (h : Matched 0 s s') (hlt : s.pos < t.size + 1)
    (hb : t.byteAt s.pos ≠ 10)
    (hnoted : s.atLineEnd = true → s'.noted s.line = s.noted s.line) :
    Matched 0 s.forward s'.forward := by
  have hpos := h.pos
  have hstop' := h.stop'
  have hsize := size_crlf ht
  have hle := crlfPos_le_iff (t := t).2 (Nat.le_of_lt_succ hlt)
  have hmore : s.more = true := Cursor.more_iff.2 (by rw [h.stop]; exact hlt)
  have hmore' : s'.more = true := Cursor.more_iff.2 (by omega)
  have hforward := hsync.forward_pos_of_eightBit he hmore
  have hforward' := hsync'.forward_pos_of_eightBit he hmore'
  have hmark := h.mark_le
  have hmark' := h.mark_le'
  refine { pos := ?_, stop := ?_, stop' := ?_, token := h.token, mark_le := ?_, mark_le' := ?_,
           look := ?_, noted := hsync.lines_forward hmore h.noted hnoted }
  · rw [toCursor_forward, toCursor_forward, hforward, hforward', crlfPos_succ ht, if_neg hb]
    omega
  · rw [toCursor_forward, Cursor.forward_stop]; exact h.stop
  · rw [toCursor_forward, Cursor.forward_stop]; exact h.stop'
  · rw [toCursor_forward, hforward, mark_forward]
    omega
  · rw [toCursor_forward, hforward', mark_forward]
    omega
  · intro p hp hs hb
    rw [toCursor_forward, hforward] at hp
    rw [look_forward, look_forward]
    rcases Nat.lt_or_ge p s.pos with hlt | hge
    · exact h.look p hlt hs hb
    · obtain rfl : p = s.pos := by omega
      rw [look_of_le (by omega), look_of_le (by omega), h.token]

omit hsync in
/-- Where the first stands on a line feed the second stands on a carriage return before. -/
theorem Matched.forward_return (h : Matched 0 s s') (hb : t.byteAt s.pos = 10) :
    Matched 1 s s'.forward := by
  have hpos := h.pos
  have hstop' := h.stop'
  have hlt := crlfPos_lt_size ht (t.lt_size_of_byteAt (p := s.pos) (by omega))
  have hmore' : s'.more = true := Cursor.more_iff.2 (by omega)
  have hforward' := hsync'.forward_pos_of_eightBit he hmore'
  have hmark' := h.mark_le'
  refine { h with pos := ?_, stop' := ?_, mark_le' := ?_ }
  · rw [toCursor_forward, hforward', hpos]
  · rw [toCursor_forward, Cursor.forward_stop]; exact h.stop'
  · rw [toCursor_forward, hforward', mark_forward]
    omega

/-- Over the line feed both move together again. -/
theorem Matched.forward_feed (h : Matched 1 s s') (hb : t.byteAt s.pos = 10)
    (hnoted : s'.noted s.line = s.noted s.line) : Matched 0 s.forward s'.forward := by
  have hpos := h.pos
  have hstop := h.stop
  have hstop' := h.stop'
  have hs := t.lt_size_of_byteAt (p := s.pos) (by omega)
  have hlt := crlfPos_lt_size ht hs
  have hmore : s.more = true := Cursor.more_iff.2 (by omega)
  have hmore' : s'.more = true := Cursor.more_iff.2 (by omega)
  have hforward := hsync.forward_pos_of_eightBit he hmore
  have hforward' := hsync'.forward_pos_of_eightBit he hmore'
  have hmark := h.mark_le
  have hmark' := h.mark_le'
  refine { pos := ?_, stop := ?_, stop' := ?_, token := h.token, mark_le := ?_, mark_le' := ?_,
           look := ?_, noted := hsync.lines_forward hmore h.noted fun _ => hnoted }
  · rw [toCursor_forward, toCursor_forward, hforward, hforward', crlfPos_succ ht, if_pos hb]
    omega
  · rw [toCursor_forward, Cursor.forward_stop]; exact hstop
  · rw [toCursor_forward, Cursor.forward_stop]; exact hstop'
  · rw [toCursor_forward, hforward, mark_forward]
    omega
  · rw [toCursor_forward, hforward', mark_forward]
    omega
  · intro p hp hs hno
    rw [toCursor_forward, hforward] at hp
    have hne : p ≠ s.pos := fun heq => hno (heq ▸ hb)
    exact h.look p (by omega) hs hno

end

/-! ## 4. Open spans -/

theorem cutBack_of_le {mark stop : Nat} (h : stop ≤ mark) (t : Text) (pos : Nat) :
    cutBack t mark pos stop = stop := by
  cases stop with
  | zero => rfl
  | succ stop => rw [cutBack, if_neg fun hc => by omega]

theorem le_cutBack (t : Text) (mark pos n : Nat) : mark ≤ cutBack t mark pos (mark + n) := by
  induction n with
  | zero => exact Nat.le_of_eq (cutBack_of_le (Nat.le_refl _) t pos).symm
  | succ n ih =>
    rw [← Nat.add_assoc, cutBack]
    split
    · exact ih
    · omega

namespace SameMark

variable (ht : t.NoReturns) (hm : SameMark s s')
include ht hm

/-- The bytes of the open spans are the same. -/
theorem byteAt {i : Nat} (hi : s.mark + i < s.pos) :
    t.crlf.byteAt (s.mark + i + t.lineOf s.mark) = t.byteAt (s.mark + i) := by
  have hadd := crlfPos_add ht (p := s.mark) i fun j hj => hm.solid _ (by omega) (by omega)
  rw [← byteAt_crlfPos_of_ne ht (hm.solid (s.mark + i) (by omega) hi), hadd, Text.crlfPos]
  congr 1
  omega

theorem cutBack (hpos : s'.pos = s.pos + t.lineOf s.mark) (n : Nat) :
    cutBack t.crlf s'.mark s'.pos (s.mark + n + t.lineOf s.mark)
      = Scanner.cutBack t s.mark s.pos (s.mark + n) + t.lineOf s.mark := by
  have hmark : s'.mark = s.mark + t.lineOf s.mark := hm.mark
  induction n with
  | zero =>
    rw [Nat.add_zero, cutBack_of_le (Nat.le_refl _), cutBack_of_le (Nat.le_of_eq hmark.symm)]
  | succ n ih =>
    rw [show s.mark + (n + 1) + t.lineOf s.mark = s.mark + n + t.lineOf s.mark + 1 by omega,
      show s.mark + (n + 1) = s.mark + n + 1 by omega, Scanner.cutBack, Scanner.cutBack, ih, hmark,
      hpos]
    by_cases hlt : s.mark + n + 1 < s.pos
    · have hbyte := hm.byteAt ht (i := n + 1) hlt
      rw [show s.mark + (n + 1) + t.lineOf s.mark = s.mark + n + t.lineOf s.mark + 1 by omega,
        show s.mark + (n + 1) = s.mark + n + 1 by omega] at hbyte
      rw [hbyte]
      by_cases hc : Utf8.isContinuation (t.byteAt (s.mark + n + 1)) = true
      · rw [if_pos ⟨by omega, by omega, hc⟩, if_pos ⟨by omega, by omega, hc⟩]
      · rw [if_neg fun h => hc h.2.2, if_neg fun h => hc h.2.2]
        omega
    · rw [if_neg (by omega), if_neg (by omega)]
      omega

omit ht in
theorem forward (hb : t.byteAt s.pos ≠ 10) (hforward : s.forward.pos = s.pos + 1) :
    SameMark s.forward s'.forward where
  mark := hm.mark
  solid p hp hlt := by
    rw [hforward] at hlt
    rcases Nat.lt_or_ge p s.pos with hlt' | hge
    · exact hm.solid p hp hlt'
    · obtain rfl : p = s.pos := by omega
      exact hb

end SameMark

namespace Matching

variable (ht : t.NoReturns)

/-! ## 5. Tandem -/

/-- Scanners of the whole texts start so. -/
theorem start (token : Token) (hl : loose token = false) :
    Matching loose (Scanner.start t 0 t.size token) (Scanner.start t.crlf 0 t.crlf.size token) where
  pos := by
    show 0 = t.crlfPos 0 + 0
    rw [Text.crlfPos_zero]
  stop := Cursor.stop_start_of_eq (Nat.zero_add _)
  stop' := Cursor.stop_start_of_eq (t := t.crlf) (Nat.zero_add _)
  token := rfl
  mark_le := Nat.zero_le _
  mark_le' := Nat.zero_le _
  look p hp := absurd hp (Nat.not_lt_zero p)
  noted _ _ := rfl
  sync := Cursor.inSync_start (by omega)
  sync' := Cursor.inSync_start (t := t.crlf) (by omega)
  lt := Nat.succ_pos _
  sameMark hl' := by
    have hl' : loose token = true := hl'
    rw [hl] at hl'
    cases hl'

variable (h : Matching loose s s')
include ht h

/-- Behind signs both see bytes of the same kinds. -/
theorem kind_byteAt (i : Nat) (hi : ∀ j < i, isSign (t.byteAt (s.pos + j)) = true) :
    kind (t.crlf.byteAt (s'.pos + i)) = kind (t.byteAt (s.pos + i)) := by
  have hadd := crlfPos_add ht (p := s.pos) i fun j hj hb => by
    have hc := hi j hj
    rw [hb] at hc
    cases hc
  rw [h.pos, Nat.add_zero, ← hadd, byteAt_crlfPos ht]
  by_cases hb : t.byteAt (s.pos + i) = 10
  · rw [if_pos hb, hb]
    rfl
  · rw [if_neg hb]

theorem openText (hm : SameMark s s') : s'.openText = s.openText := by
  have hle := Nat.le_of_lt_succ h.lt
  have hmark := hm.mark
  have hmark_le := h.mark_le
  have hsize := size_crlf ht
  have hsize_le := crlfPos_le_iff (t := t).2 hle
  have hpos : s'.pos = s.pos + t.lineOf s.mark := by
    have hadd := crlfPos_add ht (p := s.mark) (s.pos - s.mark) fun j hj =>
      hm.solid _ (by omega) (by omega)
    rw [show s.mark + (s.pos - s.mark) = s.pos by omega] at hadd
    rw [h.pos, hadd, Text.crlfPos]
    omega
  rw [Text.crlfPos] at hmark
  obtain ⟨n, hn⟩ : ∃ n, min (min s.pos (s.mark + maxWordSize)) t.size = s.mark + n :=
    ⟨min (min s.pos (s.mark + maxWordSize)) t.size - s.mark, by omega⟩
  have hn' : min (min s'.pos (s'.mark + maxWordSize)) t.crlf.size = s.mark + n + t.lineOf s.mark := by
    have hp := h.pos
    omega
  have hstop := cutBack_le t s.mark s.pos (s.mark + n)
  rw [Scanner.openText, Scanner.openText, hn, hn', hm.cutBack ht hpos, hmark]
  exact Text.slice_crlf ht (le_cutBack t s.mark s.pos n) (by omega) fun p hp hlt =>
    hm.solid p hp (by omega)

variable (he : t.encoding = .eightBit)
include he

/-- Over what is no line feed both take one move. -/
theorem advance (hb : t.byteAt s.pos ≠ 10)
    (hnoted : s.atLineEnd = true → s'.noted s.line = s.noted s.line) :
    Matched 0 s.forward s'.forward ∧ (SameMark s s' → SameMark s.forward s'.forward)
      ∧ (s.forward.pos < t.size + 1 → Matching loose s.forward s'.forward) := by
  have hs := h.toMatched.forward ht he h.sync h.sync' h.lt hb hnoted
  have hmark (hm : SameMark s s') : SameMark s.forward s'.forward :=
    hm.forward hb (h.sync.forward_pos_of_eightBit he h.more)
  exact ⟨hs, hmark, fun hlt =>
    { toMatched := hs
      sync := h.sync.forward h.more
      sync' := h.sync'.forward (h.more' ht)
      lt := hlt
      sameMark := fun hl => hmark (h.sameMark hl) }⟩

/-- So they do at a sign. -/
theorem forward (hc : isSign s.ch = true) : Matching loose s.forward s'.forward
    ∧ (SameMark s s' → SameMark s.forward s'.forward) := by
  have hbyte := byteAt_of_isSign h.sync hc
  obtain ⟨hzero, hlf, -, -⟩ := isSign_iff.1 hc
  have hs := t.lt_size_of_byteAt (p := s.pos) (by omega)
  have hend := h.sync.atLineEnd_eq_false (isSolid_of_isSign hc)
  have hforward := h.sync.forward_pos_of_eightBit he h.more
  obtain ⟨-, hmark, hlt⟩ := h.advance ht he (by omega) (fun hc => absurd (hend.symm.trans hc) Bool.false_ne_true)
  exact ⟨hlt (by rw [toCursor_forward, hforward]; omega), hmark⟩

omit h in
theorem tandem (loose : Token → Bool) :
    Tandem loose (t.size + 1) (Matching loose)
      (fun (s : Scanner t) (s' : Scanner t.crlf) => Matching loose s s' ∧ SameMark s s') where
  of_marked h := h.1
  marked h hl := ⟨h, h.sameMark hl⟩
  sync h := h.sync
  sync' h := h.sync'
  lt h := h.lt
  stop h := Nat.le_of_eq h.stop.symm
  room h := by
    have hpos := h.pos
    have hstop' := h.stop'
    have hsize := size_crlf ht
    have hmono := t.lineOf_mono (Nat.le_of_lt_succ h.lt)
    rw [Text.crlfPos] at hpos hsize
    omega
  token h := h.token
  atLineStart h := h.atLineStart ht
  bytes h i hi := h.kind_byteAt ht i hi
  openText h := h.1.openText ht h.2
  forward h hc := (h.forward ht he hc).1
  forward_marked h hc := ⟨(h.1.forward ht he hc).1, (h.1.forward ht he hc).2 h.2⟩
  switch token h := h.switch ht token
  paint token h := h.1.paint ht h.2 token
  relabel token h := h.1.relabel h.2 token
  note state h := { h with
    toMatched := h.toMatched.note h.sync.line state
    sameMark := fun hl => ⟨(h.sameMark hl).mark, (h.sameMark hl).solid⟩ }
  note' state h := { h with
    toMatched := h.toMatched.note' (h.sync'.line.trans (h.lineAt_pos' ht)) state
    sameMark := fun hl => ⟨(h.sameMark hl).mark, (h.sameMark hl).solid⟩ }

end Matching

/-! ## 6. At a line feed -/

/-- The first stands on a line feed, the second as well and behind a carriage return. -/
structure AtFeed (s : Scanner t) (s' : Scanner t.crlf) : Prop extends Matched 1 s s' where
  sync : s.InSync
  sync' : s'.InSync
  feed : t.byteAt s.pos = 10
  line : s'.line = s.line

section

variable (ht : t.NoReturns)
include ht

/-- The carriage return before a line feed ends no line. -/
theorem Matching.atLineEnd_return (h : Matching loose s s') (hb : t.byteAt s.pos = 10) :
    s'.atLineEnd = false := by
  have hs := crlfPos_lt_size ht (t.lt_size_of_byteAt (p := s.pos) (by omega))
  rw [h.sync'.atLineEnd, h.pos, Nat.add_zero, Text.lineEndsAt, Text.breaksAfter_crlfPos ht,
    Bool.false_or, decide_eq_false_iff_not]
  omega

/-- And it comes before the line feed. -/
theorem Matching.return_feed (he : t.encoding = .eightBit) (h : Matching loose s s')
    (hb : t.byteAt s.pos = 10) : s'.ch = 13 ∧ s'.next = 10 := by
  have hpos : s'.pos = t.crlfPos s.pos := h.pos
  rw [h.sync'.ch, h.sync'.next, h.sync'.width, t.crlf.charAt_of_eightBit he,
    t.crlf.charAt_of_eightBit he, hpos, byteAt_crlfPos ht, if_pos hb, byteAt_crlfPos_succ ht hb]
  exact ⟨rfl, rfl⟩

theorem Matching.atFeed (he : t.encoding = .eightBit) (h : Matching loose s s')
    (hb : t.byteAt s.pos = 10) : AtFeed s s'.forward where
  toMatched := h.toMatched.forward_return ht he h.sync' hb
  sync := h.sync
  sync' := h.sync'.forward (h.more' ht)
  feed := hb
  line := by
    rw [toCursor_forward, Cursor.forward_line (h.more' ht), h.atLineEnd_return ht hb, h.line ht]
    rfl

namespace AtFeed

variable (h : AtFeed s s')
include h

omit ht in
theorem atLineEnd : s.atLineEnd = true := by
  rw [h.sync.atLineEnd, Text.lineEndsAt, Text.breaksAfter, h.feed]
  rfl

omit ht in
theorem lt_size : s.pos < t.size := t.lt_size_of_byteAt (by rw [h.feed]; decide)

omit ht in
theorem more : s.more = true := Cursor.more_iff.2 (by rw [h.stop]; exact Nat.lt_succ_of_lt h.lt_size)

theorem more' : s'.more = true := by
  have hlt := crlfPos_lt_size ht h.lt_size
  rw [Cursor.more_iff, h.stop', h.pos]
  omega

theorem ch' : s'.ch = 10 := by
  have hb := byteAt_crlfPos_succ ht h.feed
  rw [← h.pos] at hb
  rw [h.sync'.ch, t.crlf.charAt_of_byteAt_lt (by omega)]
  exact hb

theorem atLineEnd' : s'.atLineEnd = true := by
  rw [h.sync'.atLineEnd, h.pos, Text.lineEndsAt, Text.breaksAfter_crlfPos_succ ht h.feed]
  rfl

theorem switch (token : Token) : AtFeed (s.switch token) (s'.switch token) where
  toMatched := h.toMatched.switch ht token
  sync := by simpa using h.sync
  sync' := by simpa using h.sync'
  feed := by simpa using h.feed
  line := by simpa using h.line

/-- The line feed is not where the terminator starts. -/
theorem atTerminator' : s'.atTerminator = false := by
  rw [Cursor.atTerminator, h.pos, lineEnd_crlf ht, beq_eq_false_iff_ne]
  exact Ne.symm (crlfPos_ne_succ ht h.feed _)

omit ht in
theorem note (state : Int) : AtFeed (s.noteHere state) s' :=
  { h with toMatched := h.toMatched.note h.sync.line state }

omit ht in
theorem note' (state : Int) : AtFeed s (s'.noteHere state) :=
  { h with toMatched := h.toMatched.note' (h.line.trans h.sync.line) state }

omit ht in
theorem relabel (hm : SameMark s s') (token : Token) : AtFeed (s.relabel token) (s'.relabel token) :=
  { h with toMatched := h.toMatched.relabel hm token }

/-- Over the line feed both move together again, if the same is noted for its line. -/
theorem forward (loose : Token → Bool) (he : t.encoding = .eightBit)
    (hnoted : s'.noted s.line = s.noted s.line) :
    Matched 0 s.forward s'.forward
      ∧ (loose s.token = false → s.forward.pos < t.size + 1 →
        Matching loose s.forward s'.forward) := by
  have hs := h.toMatched.forward_feed ht he h.sync h.sync' h.feed hnoted
  refine ⟨hs, fun hl hp => { toMatched := hs, sync := h.sync.forward h.more,
                             sync' := h.sync'.forward (h.more' ht), lt := hp, sameMark := fun hl' => ?_ }⟩
  rw [token_forward, hl] at hl'
  cases hl'

end AtFeed

end

end Restyle.Scanner
