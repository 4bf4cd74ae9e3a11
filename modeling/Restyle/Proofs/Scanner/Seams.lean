/-
Restyle.Proofs.Scanner.Seams — scanners that cut a text at its seams only.

A scanner is sewn if the spans that it has painted, and the open one, start
and end at seams. That is kept wherever it moves, and painted wherever it
stands at a seam. Behind a sign it does; so a scanner and itself go in
tandem as long as they move over signs only (`Sewing.tandem`), and what
lexers do at signs keeps scanners sewn.
-/
import Restyle.Proofs.Scanner.Tandem
import Restyle.Proofs.Text.Seams

namespace Restyle.Scanner

variable {t : Text}

/-! ## 1. Sewn scanners -/

/-- All spans of the scanner, on its way through the whole text, start and end at seams. -/
structure Sewn (s : Scanner t) : Prop where
  stop : s.stop = t.size + 1
  sync : s.pos < t.size + 1 → s.InSync
  mark : t.Seam s.mark
  spans : ∀ span ∈ s.spans, t.Seam span.start ∧ t.Seam span.stop

/-- A scanner of the whole text starts so. -/
theorem sewn_start (t : Text) (token : Token) : (start t 0 t.size token).Sewn where
  stop := Cursor.stop_start_of_eq (Nat.zero_add _)
  sync _ := Cursor.inSync_start (by omega)
  mark := Text.seam_zero
  spans := by intro span hspan; simp [start] at hspan

namespace Sewn

variable {s : Scanner t} (h : s.Sewn)
include h

theorem more (hlt : s.pos < t.size + 1) : s.more = true := Cursor.more_iff.2 (h.stop ▸ hlt)

theorem lt (hmore : s.more = true) : s.pos < t.size + 1 := h.stop ▸ Cursor.more_iff.1 hmore

theorem forward : s.forward.Sewn where
  stop := (Cursor.forward_stop _).trans h.stop
  sync hlt := by
    cases hmore : s.more with
    | true => exact (h.sync (h.lt hmore)).forward hmore
    | false =>
      have hno := Cursor.more_iff.not.1 (Bool.not_eq_true _ ▸ hmore)
      have hle := s.toCursor.pos_le_forward
      have hlt : s.toCursor.forward.pos < t.size + 1 := hlt
      rw [h.stop] at hno
      omega
  mark := h.mark
  spans := h.spans

theorem relabel (token : Token) : (s.relabel token).Sewn := ⟨h.stop, h.sync, h.mark, h.spans⟩

theorem note (state : Int) : (s.noteHere state).Sewn := ⟨h.stop, h.sync, h.mark, h.spans⟩

theorem paint (hseam : t.Seam s.pos) (token : Token) : (s.paintTo s.pos token).Sewn := by
  have hstop := Text.seam_min_size hseam
  refine ⟨by simpa using h.stop, by simpa using h.sync, ?_, ?_⟩
  · rw [paintTo_pos]
    split
    · exact hstop
    · exact h.mark
  · rw [paintTo_pos]
    split
    · intro span hspan
      rcases Array.mem_push.1 hspan with hspan | rfl
      · exact h.spans span hspan
      · exact ⟨h.mark, hstop⟩
    · exact h.spans

theorem switch (hseam : t.Seam s.pos) (token : Token) : (s.switch token).Sewn := by
  rw [switch_eq]
  exact (h.paint hseam s.token).relabel token

/-- Behind an ASCII character the text can be cut. -/
theorem seam_forward (hlt : s.pos < t.size + 1) (hb : t.byteAt s.pos < 128) :
    t.Seam s.forward.pos := by
  rw [toCursor_forward, Cursor.forward_pos (h.more hlt), (h.sync hlt).width,
    t.charAt_of_byteAt_lt hb]
  exact Text.seam_succ hb

end Sewn

/-! ## 2. At seams -/

/-- The first scanner is sewn and stands at a seam, and the second differs from it in what it has
said at most. -/
structure Sewing (s s' : Scanner t) : Prop where
  sewn : s.Sewn
  lt : s.pos < t.size + 1
  seam : t.Seam s.pos
  cursor : s'.toCursor = s.toCursor
  token : s'.token = s.token
  mark : s'.mark = s.mark

theorem Sewn.sewing {s : Scanner t} (h : s.Sewn) (hlt : s.pos < t.size + 1)
    (hseam : t.Seam s.pos) : Sewing s s := ⟨h, hlt, hseam, rfl, rfl, rfl⟩

namespace Sewing

variable {s s' : Scanner t} (h : Sewing s s')
include h

theorem sync : s.InSync := h.sewn.sync h.lt

theorem sync' : s'.InSync := by
  rw [h.cursor]
  exact h.sync

/-- A move over an ASCII character inside the text. -/
theorem forward_of_lt (hzero : t.byteAt s.pos ≠ 0) (hb : t.byteAt s.pos < 128) :
    Sewing s.forward s'.forward := by
  have hsize := t.lt_size_of_byteAt hzero
  refine { h with sewn := h.sewn.forward, lt := ?_, cursor := ?_,
                  seam := h.sewn.seam_forward h.lt hb }
  · rw [toCursor_forward, Cursor.forward_pos (h.sewn.more h.lt), h.sync.width,
      t.charAt_of_byteAt_lt hb]
    exact Nat.succ_lt_succ hsize
  · rw [toCursor_forward, toCursor_forward, h.cursor]

theorem forward (hc : isSign s.ch = true) : Sewing s.forward s'.forward := by
  obtain ⟨hzero, -, -, hlt⟩ := isSign_iff.1 hc
  rw [← byteAt_of_isSign h.sync hc] at hzero hlt
  exact h.forward_of_lt hzero hlt

theorem paint (token : Token) : Sewing (s.paintTo s.pos token) (s'.paintTo s'.pos token) where
  sewn := h.sewn.paint h.seam token
  lt := by simpa using h.lt
  seam := by simpa using h.seam
  cursor := by simpa using h.cursor
  token := by simpa using h.token
  mark := by rw [mark_paintTo, mark_paintTo, h.mark, h.cursor]

theorem relabel (token : Token) : Sewing (s.relabel token) (s'.relabel token) :=
  { h with sewn := h.sewn.relabel token, token := rfl }

theorem switch (token : Token) : Sewing (s.switch token) (s'.switch token) := by
  rw [switch_eq, switch_eq, h.token]
  exact (h.paint s.token).relabel token

theorem note (state : Int) : Sewing (s.noteHere state) s' := { h with sewn := h.sewn.note state }

theorem note' (state : Int) : Sewing s (s'.noteHere state) := { h with }

theorem openText : s'.openText = s.openText := by
  rw [Scanner.openText, Scanner.openText, h.mark, h.cursor]

omit h in
theorem tandem (t : Text) (loose : Token → Bool) :
    Tandem loose (t.size + 1) (Sewing (t := t)) Sewing where
  of_marked h := h
  marked h _ := h
  sync h := h.sync
  sync' h := h.sync'
  lt h := h.lt
  stop h := Nat.le_of_eq h.sewn.stop.symm
  room h := Nat.le_of_eq (by rw [h.cursor, h.sewn.stop])
  token h := h.token
  atLineStart h := by rw [h.cursor]
  bytes h i _ := by rw [h.cursor]
  openText h := h.openText
  forward h hc := h.forward hc
  forward_marked h hc := h.forward hc
  switch token h := h.switch token
  paint token h := h.paint token
  relabel token h := h.relabel token
  note state h := h.note state
  note' state h := h.note' state

end Sewing

end Restyle.Scanner
