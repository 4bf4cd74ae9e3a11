/-
Restyle.Proofs.Scanner.Encoding — scanners over the same bytes in
another encoding.

Byte by byte a text has the same lines, and the same signs at the same
places, as in any encoding. So scanners over both go in tandem
(`Recoding.tandem`). They part only at a character of several bytes, which
one of them passes in one move and the other in as many as it has bytes
(`Recoding.forwardBy_width`).
-/
import Restyle.Proofs.Scanner.Tandem

namespace Restyle

namespace Text

/-! ## 1. Texts byte by byte -/

/-- The text with every byte a character. -/
def bytewise (t : Text) : Text := t.recode .eightBit

variable {t : Text}

@[simp] theorem size_bytewise : t.bytewise.size = t.size := rfl

/-- A character of several bytes has no ASCII byte. -/
theorem le_byteAt_add {p i : Nat} (h : 128 ≤ t.byteAt p) (hi : i < (t.charAt p).width) :
    128 ≤ t.byteAt (p + i) := by
  cases i with
  | zero => exact h
  | succ i => exact t.le_byteAt_of_inside (p := p) (by omega) (by omega)

end Text

namespace Scanner

variable {t : Text}

/-! ## 2. Scanners byte by byte -/

theorem forwardBy_eq (count : Nat) : ∀ s : Scanner t,
    s.forwardBy count = { s with toCursor := (s.forwardBy count).toCursor } := by
  induction count with
  | zero => intro s; rfl
  | succ count ih => intro s; exact ih s.forward

theorem forwardBy_succ (count : Nat) : ∀ s : Scanner t,
    s.forwardBy (count + 1) = (s.forwardBy count).forward := by
  induction count with
  | zero => intro s; rfl
  | succ count ih => intro s; exact ih s.forward

theorem forwardBy_of_eightBit (ht : t.encoding = .eightBit) {s : Scanner t} (hs : s.InSync)
    (count : Nat) (h : s.pos + count ≤ s.stop) :
    (s.forwardBy count).InSync ∧ (s.forwardBy count).pos = s.pos + count
      ∧ (s.forwardBy count).stop = s.stop := by
  induction count with
  | zero => exact ⟨hs, rfl, rfl⟩
  | succ count ih =>
    obtain ⟨hsync, hpos, hstop⟩ := ih (by omega)
    have hmore : (s.forwardBy count).more = true := Cursor.more_iff.2 (by omega)
    rw [forwardBy_succ, toCursor_forward, hsync.forward_pos_of_eightBit ht hmore,
      Cursor.forward_stop]
    exact ⟨hsync.forward hmore, by omega, hstop⟩

/-- At a byte outside ASCII stands no sign, and neither the line nor the text ends. -/
theorem inside_of_le_byteAt {s : Scanner t} (hs : s.InSync) (hstop : s.stop = t.size + 1)
    (hb : 128 ≤ t.byteAt s.pos) :
    isSign s.ch = false ∧ s.atLineEnd = false ∧ s.more = true := by
  have hsize := t.lt_size_of_byteAt (p := s.pos) (by omega)
  obtain ⟨hc, hend⟩ := not_sign_of_le_byteAt hs hb
  exact ⟨hc, hend, Cursor.more_iff.2 (by omega)⟩

/-- So it is on the way over many such bytes. -/
theorem inside_forwardBy (ht : t.encoding = .eightBit) {s : Scanner t} (hs : s.InSync)
    (hstop : s.stop = t.size + 1) {i : Nat} (hb : 128 ≤ t.byteAt (s.pos + i)) :
    (s.forwardBy i).InSync ∧ (s.forwardBy i).pos = s.pos + i
      ∧ isSign (s.forwardBy i).ch = false ∧ (s.forwardBy i).atLineEnd = false
      ∧ (s.forwardBy i).more = true := by
  have hsize := t.lt_size_of_byteAt (p := s.pos + i) (by omega)
  obtain ⟨hsync, hpos, hstop'⟩ := forwardBy_of_eightBit ht hs i (by omega)
  exact ⟨hsync, hpos, inside_of_le_byteAt hsync (hstop'.trans hstop) (by rwa [hpos])⟩

/-! ## 3. The relation -/

/-- The scanners have come to the same place and have said the same. -/
structure Recoded (s : Scanner t) (s' : Scanner t.bytewise) : Prop where
  pos : s'.pos = s.pos
  stop : s.stop = t.size + 1
  stop' : s'.stop = t.size + 1
  token : s'.token = s.token
  mark : s'.mark = s.mark
  spans : s'.spans = s.spans
  noted : ∀ line < t.lineAt s.pos, s'.noted line = s.noted line

/-- Scanners at the same place that have more to do. -/
structure Recoding (s : Scanner t) (s' : Scanner t.bytewise) : Prop extends Recoded s s' where
  sync : s.InSync
  sync' : s'.InSync
  lt : s.pos < t.size + 1

variable {s : Scanner t} {s' : Scanner t.bytewise}

theorem Recoded.paint (h : Recoded s s') (token : Token) :
    Recoded (s.paintTo s.pos token) (s'.paintTo s'.pos token) where
  pos := by simpa using h.pos
  stop := by simpa using h.stop
  stop' := by simpa using h.stop'
  token := by simpa using h.token
  mark := by
    rw [mark_paintTo, mark_paintTo, h.mark, h.pos]
    rfl
  spans := by
    rw [paintTo_pos, paintTo_pos, h.mark, h.pos, Text.size_bytewise]
    split
    · rw [h.spans]
    · exact h.spans
  noted := by simpa using h.noted

theorem Recoded.relabel (h : Recoded s s') (token : Token) :
    Recoded (s.relabel token) (s'.relabel token) :=
  { h with token := rfl }

theorem Recoded.switch (h : Recoded s s') (token : Token) :
    Recoded (s.switch token) (s'.switch token) := by
  rw [switch_eq, switch_eq, h.token]
  exact (h.paint s.token).relabel token

/-- A note for a line that is not left behind changes nothing. -/
theorem Recoded.note (h : Recoded s s') (hs : s.InSync) (state : Int) :
    Recoded (s.noteHere state) s' :=
  { h with
    noted := by
      intro line hlt
      have hline := hs.line
      have hlt : line < t.lineAt s.pos := hlt
      rw [noted_noteHere, if_neg (by omega)]
      exact h.noted line hlt }

theorem Recoded.note' (h : Recoded s s') (hs' : s'.InSync) (state : Int) :
    Recoded s (s'.noteHere state) :=
  { h with
    noted := by
      intro line hlt
      have hline : s'.line = t.lineAt s'.pos := hs'.line
      have hpos := h.pos
      rw [noted_noteHere, if_neg (by rw [hline, hpos]; omega)]
      exact h.noted line hlt }

/-- At the end of the text a move changes nothing. -/
theorem Recoded.forward_of_not_more (h : Recoded s s') (hno : s.more = false) :
    Recoded s.forward s'.forward := by
  have hno' : s'.more = false := by
    have hpos := h.pos
    have hstop := h.stop
    have hstop' := h.stop'
    simp only [Cursor.more, decide_eq_false_iff_not] at hno ⊢
    omega
  have hcursor := Cursor.forward_of_not_more hno
  have hcursor' := Cursor.forward_of_not_more hno'
  have hpos : s.forward.pos = s.pos := by rw [toCursor_forward, hcursor]
  refine { h with pos := ?_, stop := ?_, stop' := ?_, noted := ?_ }
  · rw [hpos, toCursor_forward, hcursor']
    exact h.pos
  · rw [toCursor_forward, hcursor]
    exact h.stop
  · rw [toCursor_forward, hcursor']
    exact h.stop'
  · rw [hpos]
    exact h.noted

/-- The scanners have said the same when their open spans are painted too. -/
theorem Recoded.finish (h : Recoded s s') : Recoded s.finish s'.finish := by
  rw [Scanner.finish, Scanner.finish, h.token]
  exact h.paint s.token

/-- Scanners of the whole texts start so. -/
theorem recoding_start (t : Text) (token : Token) :
    Recoding (start t 0 t.size token) (start t.bytewise 0 t.size token) where
  pos := rfl
  stop := Cursor.stop_start_of_eq (Nat.zero_add _)
  stop' := Cursor.stop_start_of_eq (t := t.bytewise) (Nat.zero_add _)
  token := rfl
  mark := rfl
  spans := rfl
  noted _ _ := rfl
  sync := Cursor.inSync_start (by omega)
  sync' := Cursor.inSync_start (t := t.bytewise) (by rw [Text.size_bytewise]; omega)
  lt := Nat.succ_pos _

namespace Recoding

section

variable (h : Recoding s s')
include h

theorem line : s'.line = s.line := by
  rw [h.sync.line, h.sync'.line, h.pos]
  rfl

theorem atLineEnd : s'.atLineEnd = s.atLineEnd := by
  rw [h.sync.atLineEnd, h.sync'.atLineEnd, h.pos]
  rfl

theorem atTerminator : s'.atTerminator = s.atTerminator := by
  rw [Cursor.atTerminator, Cursor.atTerminator, h.line, h.pos]
  rfl

theorem more : s.more = true := Cursor.more_iff.2 (by rw [h.stop]; exact h.lt)

theorem more' : s'.more = true := Cursor.more_iff.2 (by rw [h.stop', h.pos]; exact h.lt)

/-- Which ASCII character stands here. -/
theorem sees {c : Char} (hc : c.toNat < 128) : s'.sees c = s.sees c := by
  rw [Cursor.sees, Cursor.sees, Bool.eq_iff_iff, beq_iff_eq, beq_iff_eq, h.sync.ch, h.sync'.ch,
    Text.code_eq_iff _ hc, Text.code_eq_iff _ hc, h.pos]
  rfl

/-- Which one comes next behind another. -/
theorem seesNext (hb : t.byteAt s.pos < 128) {c : Char} (hc : c.toNat < 128) :
    s'.seesNext c = s.seesNext c := by
  have hb' : t.bytewise.byteAt s'.pos < 128 := by rw [h.pos]; exact hb
  rw [Cursor.seesNext, Cursor.seesNext, Bool.eq_iff_iff, beq_iff_eq, beq_iff_eq, h.sync.next,
    h.sync'.next, Text.code_eq_iff _ hc, Text.code_eq_iff _ hc, h.sync.width, h.sync'.width,
    t.charAt_of_byteAt_lt hb, t.bytewise.charAt_of_byteAt_lt hb', h.pos]
  rfl

/-! ### Steps in one place -/

theorem paint (token : Token) : Recoding (s.paintTo s.pos token) (s'.paintTo s'.pos token) where
  toRecoded := h.toRecoded.paint token
  sync := by simpa using h.sync
  sync' := by simpa using h.sync'
  lt := by simpa using h.lt

theorem relabel (token : Token) : Recoding (s.relabel token) (s'.relabel token) :=
  { h with token := rfl }

theorem switch (token : Token) : Recoding (s.switch token) (s'.switch token) where
  toRecoded := h.toRecoded.switch token
  sync := by simpa using h.sync
  sync' := by simpa using h.sync'
  lt := by simpa using h.lt

theorem note (state : Int) : Recoding (s.noteHere state) s' :=
  { h with toRecoded := h.toRecoded.note h.sync state }

theorem note' (state : Int) : Recoding s (s'.noteHere state) :=
  { h with toRecoded := h.toRecoded.note' h.sync' state }

/-! ### Moving on -/

/-- Over an ASCII character both take one move. What is noted for the line that it leaves has
to be the same. -/
theorem forward (hb : t.byteAt s.pos < 128)
    (hnoted : s.atLineEnd = true → s'.noted s.line = s.noted s.line) :
    Recoded s.forward s'.forward ∧ s.forward.InSync ∧ s'.forward.InSync := by
  have hwidth : s.width = 1 := by rw [h.sync.width, t.charAt_of_byteAt_lt hb]
  have hwidth' : s'.width = 1 := by
    rw [h.sync'.width, h.pos, t.bytewise.charAt_of_byteAt_lt hb]
  refine ⟨{ h with pos := ?_, stop := ?_, stop' := ?_,
                   noted := h.sync.lines_forward h.more h.noted hnoted },
    h.sync.forward h.more, h.sync'.forward h.more'⟩
  · rw [toCursor_forward, toCursor_forward, Cursor.forward_pos h.more, Cursor.forward_pos h.more',
      h.pos, hwidth, hwidth']
  · rw [toCursor_forward, Cursor.forward_stop]; exact h.stop
  · rw [toCursor_forward, Cursor.forward_stop]; exact h.stop'

theorem forward_of_isSign (hc : isSign s.ch = true) : Recoding s.forward s'.forward := by
  have hbyte := byteAt_of_isSign h.sync hc
  obtain ⟨hzero, -, -, hlt⟩ := isSign_iff.1 hc
  have hs := t.lt_size_of_byteAt (p := s.pos) (by omega)
  have hend := h.sync.atLineEnd_eq_false (isSolid_of_isSign hc)
  obtain ⟨hr, hsync, hsync'⟩ := h.forward (by omega) (by simp [hend])
  refine ⟨hr, hsync, hsync', ?_⟩
  rw [toCursor_forward, Cursor.forward_pos h.more, width_of_isSign h.sync hc]
  omega

/-- Over any other the second takes as many moves as the character has bytes. -/
theorem forwardBy_width (hb : 128 ≤ t.byteAt s.pos) :
    Recoding s.forward (s'.forwardBy s.width) := by
  have hs := t.lt_size_of_byteAt (p := s.pos) (by omega)
  have hsize := t.add_width_le_size hs
  rw [← h.sync.width] at hsize
  have hpos := h.pos
  have hstop' := h.stop'
  obtain ⟨hsync, hmoved, hstop⟩ :=
    forwardBy_of_eightBit (t := t.bytewise) rfl h.sync' s.width (by omega)
  have hforward : s.forward.pos = s.pos + s.width := by
    rw [toCursor_forward, Cursor.forward_pos h.more]
  have hend := (not_sign_of_le_byteAt h.sync hb).2
  rw [forwardBy_eq]
  refine { pos := ?_, stop := ?_, stop' := hstop.trans hstop', token := h.token, mark := h.mark,
           spans := h.spans, noted := ?_, sync := h.sync.forward h.more, sync' := hsync, lt := ?_ }
  · rw [hmoved, hforward, hpos]
  · rw [toCursor_forward, Cursor.forward_stop]; exact h.stop
  · exact h.sync.lines_forward h.more h.noted (by simp [hend])
  · omega

/-- So when both have moved once, bytes are left to the second, all outside ASCII, behind which
it is in the same place. -/
theorem exists_rest (hb : 128 ≤ t.byteAt s.pos) :
    ∃ count, Recoding s.forward (s'.forward.forwardBy count) ∧ s'.forward.InSync
      ∧ s'.forward.stop = t.size + 1 ∧ ∀ i < count, 128 ≤ t.byteAt (s'.forward.pos + i) := by
  have hs := h.forwardBy_width hb
  have hw : 0 < s.width := by rw [h.sync.width]; exact t.width_pos _
  obtain ⟨count, hcount⟩ := Nat.exists_eq_succ_of_ne_zero (Nat.ne_of_gt hw)
  rw [hcount] at hs
  refine ⟨count, hs, h.sync'.forward h.more', ?_, ?_⟩
  · rw [toCursor_forward, Cursor.forward_stop]
    exact h.stop'
  · intro i hi
    rw [toCursor_forward, h.sync'.forward_pos_of_eightBit rfl h.more', h.pos, Nat.add_assoc]
    exact Text.le_byteAt_add hb (by rw [← h.sync.width]; omega)

end

/-! ## 4. Tandem -/

theorem openText (h : Recoding s s') : s'.openText = s.openText := by
  have hcut : ∀ stop, cutBack t.bytewise s.mark s.pos stop = cutBack t s.mark s.pos stop := by
    intro stop
    induction stop with
    | zero => rfl
    | succ stop ih => rw [cutBack, cutBack, ih]; rfl
  rw [Scanner.openText, Scanner.openText, h.mark, h.pos, hcut]
  rfl

theorem tandem (loose : Token → Bool) :
    Tandem loose (t.size + 1) Recoding (fun (s : Scanner t) s' => Recoding s s') where
  of_marked h := h
  marked h _ := h
  sync h := h.sync
  sync' h := h.sync'
  lt h := h.lt
  stop h := Nat.le_of_eq h.stop.symm
  room h := by
    have hstop := h.stop'
    have hpos := h.pos
    omega
  token h := h.token
  atLineStart h := by
    rw [h.sync.atLineStart, h.sync'.atLineStart, h.pos]
    rfl
  bytes h i _ := by rw [h.pos]; rfl
  openText h := h.openText
  forward h hc := h.forward_of_isSign hc
  forward_marked h hc := h.forward_of_isSign hc
  switch token h := h.switch token
  paint token h := h.paint token
  relabel token h := h.relabel token
  note state h := h.note state
  note' state h := h.note' state

end Recoding

end Scanner

end Restyle
