/-
Restyle.Proofs.Cursor.Sync — a cursor tells the truth about its text, and
two cursors abreast see the same.

* `InSync`: everything that a cursor carries is what the text has at its
  position. A walk starts so (`inSync_start`) and stays so as long as it
  has not ended (`InSync.forward`).
* `Abreast k`: cursors over two texts with the same bytes up to `k` stand
  at the same position, at or before `k`. Before `k` they see the same
  character, and behind it the same one unless their line ends there
  (`Abreast.next`), and they stay abreast.
-/
import Restyle.Proofs.Text.Characters

namespace Restyle

/-! ## 1. Characters that end no line -/

/-- A character on which no line ends and no text either. -/
def isSolid (c : Nat) : Bool := c != 0 && c != 10 && c != 13

namespace Cursor

/-! ## 2. One cursor -/

variable {t : Text}

/-- The widths that a cursor carries are those of the characters at its position. -/
structure Measured (c : Cursor t) : Prop where
  width : c.width = (t.charAt c.pos).width
  nextWidth : c.nextWidth = (t.charAt (c.pos + c.width)).width

/-- What a cursor carries is what the text has at its position. -/
structure InSync (c : Cursor t) : Prop extends Measured c where
  pos_le : c.pos ≤ t.size + 1
  stop_le : c.stop ≤ t.size + 1
  ch : c.ch = (t.charAt c.pos).code
  next : c.next = (t.charAt (c.pos + c.width)).code
  line : c.line = t.lineAt c.pos
  atLineStart : c.atLineStart = (c.pos == 0 || t.lineEndsAt (c.pos - 1))
  atLineEnd : c.atLineEnd = t.lineEndsAt c.pos

theorem stop_start (t : Text) (start length : Nat) : (Cursor.start t start length).stop
    = if start + length = t.size then start + length + 1 else start + length := rfl

section

variable {start length : Nat}

/-- A walk to the end of the text goes over its end. -/
theorem stop_start_of_eq (h : start + length = t.size) :
    (Cursor.start t start length).stop = t.size + 1 := by
  rw [stop_start, if_pos h, h]

theorem le_stop_start : start + length ≤ (Cursor.start t start length).stop := by
  rw [stop_start]
  split <;> omega

theorem stop_start_le (h : start + length ≤ t.size) :
    (Cursor.start t start length).stop ≤ t.size + 1 := by
  rw [stop_start]
  split <;> omega

theorem lt_of_lt_stop_start {p : Nat} (hp : p < (Cursor.start t start length).stop)
    (hs : p < t.size) : p < start + length := by
  rw [stop_start] at hp
  split at hp <;> omega

/-- A walk to a line start or to the end of the text stops at a place for that. -/
theorem isStop_stop_start (h : start + length ∈ t.starts ∨ start + length = t.size)
    (hpos : 0 < (Cursor.start t start length).stop) :
    t.IsStop (Cursor.start t start length).stop := by
  by_cases hs : start + length = t.size
  · rw [stop_start_of_eq hs]
    exact t.isStop_size_succ
  · rw [stop_start, if_neg hs] at hpos ⊢
    exact t.isStop_of_mem_starts (h.resolve_right hs) hpos

end

theorem measured_start (t : Text) (start length : Nat) : (Cursor.start t start length).Measured :=
  ⟨rfl, rfl⟩

theorem inSync_start {start length : Nat} (h : start + length ≤ t.size) :
    (Cursor.start t start length).InSync where
  toMeasured := measured_start t start length
  pos_le := by show start ≤ _; omega
  stop_le := stop_start_le h
  ch := rfl
  next := rfl
  line := (t.lineAt_of_le (by omega)).symm
  atLineStart := by
    have hiff := t.lineStart_lineOf_eq_iff start
    simp only [Cursor.start, Text.lineEndsAt]
    rw [Bool.eq_iff_iff]
    simp only [decide_eq_true_eq, Bool.or_eq_true, beq_iff_eq, hiff]
    constructor
    · rintro (h0 | hb)
      · exact Or.inl h0
      · exact Or.inr (Or.inl hb)
    · rintro (h0 | hb | hs)
      · exact Or.inl h0
      · exact Or.inr hb
      · have := of_decide_eq_true hs
        left; omega
  atLineEnd := by
    have hline := t.lineAt_of_le (p := start) (by omega)
    show endsLineAt t (t.lineOf start) start = t.lineEndsAt start
    rw [← hline, t.endsLineAt_lineAt (by omega)]

theorem more_iff {c : Cursor t} : c.more = true ↔ c.pos < c.stop := by simp [more]

theorem forward_of_more {c : Cursor t} (h : c.more = true) :
    c.forward =
      { pos := c.pos + c.width
        stop := c.stop
        line := if c.atLineEnd then c.line + 1 else c.line
        atLineStart := c.atLineEnd
        atLineEnd := endsLineAt t (if c.atLineEnd then c.line + 1 else c.line) (c.pos + c.width)
        prev := c.ch
        ch := c.next
        width := c.nextWidth
        next := (t.charAt (c.pos + c.width + c.nextWidth)).code
        nextWidth := (t.charAt (c.pos + c.width + c.nextWidth)).width } := by
  rw [forward, if_pos h]

theorem forward_of_not_more {c : Cursor t} (h : c.more = false) :
    c.forward =
      { c with atLineStart := false, atLineEnd := true, prev := 0x20, ch := 0x20, next := 0x20 } := by
  rw [forward, h, if_neg Bool.false_ne_true]

@[simp] theorem forward_stop (c : Cursor t) : c.forward.stop = c.stop := by
  cases h : c.more
  · rw [forward_of_not_more h]
  · rw [forward_of_more h]

theorem forward_pos {c : Cursor t} (h : c.more = true) : c.forward.pos = c.pos + c.width := by
  rw [forward_of_more h]

theorem forward_line {c : Cursor t} (h : c.more = true) :
    c.forward.line = if c.atLineEnd then c.line + 1 else c.line := by
  rw [forward_of_more h]

theorem pos_le_forward (c : Cursor t) : c.pos ≤ c.forward.pos := by
  cases h : c.more
  · exact Nat.le_of_eq (by rw [forward_of_not_more h])
  · rw [forward_of_more h]
    exact Nat.le_add_right _ _

theorem line_le_forward (c : Cursor t) : c.line ≤ c.forward.line := by
  cases h : c.more
  · exact Nat.le_of_eq (by rw [forward_of_not_more h])
  · rw [forward_of_more h]
    dsimp only
    split <;> omega

theorem Measured.forward {c : Cursor t} (h : c.Measured) : c.forward.Measured := by
  cases hm : c.more
  · rw [forward_of_not_more hm]; exact ⟨h.width, h.nextWidth⟩
  · rw [forward_of_more hm]; exact ⟨h.nextWidth, rfl⟩

theorem Measured.pos_forward {c : Cursor t} (h : c.Measured) (hm : c.more = true) :
    c.forward.pos = c.pos + (t.charAt c.pos).width := by rw [forward_pos hm, h.width]

theorem Measured.pos_lt_forward {c : Cursor t} (h : c.Measured) (hm : c.more = true) :
    c.pos < c.forward.pos := by
  have := t.width_pos c.pos
  rw [h.pos_forward hm]
  omega

namespace InSync

variable {c : Cursor t} (h : c.InSync)
include h

theorem pos_le_size (hm : c.more = true) : c.pos ≤ t.size := by
  have := more_iff.1 hm
  have := h.stop_le
  omega

theorem forward (hm : c.more = true) : c.forward.InSync := by
  have hpos := h.pos_le_size hm
  have hle : c.pos + c.width ≤ t.size + 1 := by
    rw [h.width]
    exact Text.add_width_le_of_isStop t.isStop_size_succ (by omega)
  have hw := t.width_pos c.pos
  have hline : (if c.atLineEnd = true then c.line + 1 else c.line) = t.lineAt (c.pos + c.width) := by
    rw [h.width, t.lineAt_add_width hpos, ← h.atLineEnd, ← h.line]
    split <;> rfl
  refine { toMeasured := h.toMeasured.forward, pos_le := ?_, stop_le := ?_, ch := ?_, next := ?_,
           line := ?_, atLineStart := ?_, atLineEnd := ?_ }
  · rw [forward_pos hm]; exact hle
  · rw [forward_stop]; exact h.stop_le
  · rw [forward_of_more hm]; exact h.next
  · rw [forward_of_more hm]
  · rw [forward_of_more hm]; exact hline
  · rw [forward_of_more hm]
    have hne : (c.pos + c.width == 0) = false := by rw [h.width]; simp; omega
    rw [hne, Bool.false_or, h.atLineEnd]
    -- the last byte of a character ends a line only if it is the first as well
    by_cases hone : c.width = 1
    · rw [hone, Nat.add_sub_cancel]
    · rw [h.width] at hone
      have hlast := t.lineEndsAt_eq_false_of_inside (p := c.pos) (q := c.pos + c.width - 1)
        (by rw [h.width]; omega) (by rw [h.width]; omega)
      rw [hlast]
      cases he : t.lineEndsAt c.pos with
      | false => rfl
      | true => exact absurd (t.charAt_of_lineEndsAt he).2 hone
  · rw [forward_of_more hm]
    dsimp only
    rw [hline, t.endsLineAt_lineAt hle]

theorem atLineEnd_eq_false (hc : isSolid c.ch = true) : c.atLineEnd = false := by
  cases he : c.atLineEnd with
  | false => rfl
  | true =>
    rw [h.atLineEnd] at he
    have := (t.charAt_of_lineEndsAt he).1
    rw [← h.ch] at this
    simp [isSolid] at hc
    omega

theorem forward_pos_of_eightBit (he : t.encoding = .eightBit) (hm : c.more = true) :
    c.forward.pos = c.pos + 1 := by
  rw [forward_pos hm, h.width, t.charAt_of_eightBit he]

/-- What holds of the lines before and of the one that a move leaves holds of all that it
leaves behind. -/
theorem lines_forward {P : Nat → Prop} (hm : c.more = true)
    (hbefore : ∀ line < t.lineAt c.pos, P line) (hline : c.atLineEnd = true → P c.line) :
    ∀ line < t.lineAt c.forward.pos, P line := by
  intro line hlt
  have hc := h.line
  have hpos : c.pos ≤ t.size := by
    have hlt := Cursor.more_iff.1 hm
    have hstop := h.stop_le
    omega
  rw [forward_pos hm, h.width, t.lineAt_add_width hpos, ← h.atLineEnd] at hlt
  by_cases hold : line < t.lineAt c.pos
  · exact hbefore line hold
  · cases hend : c.atLineEnd with
    | false =>
      rw [hend, if_neg Bool.false_ne_true] at hlt
      omega
    | true =>
      rw [hend, if_pos rfl] at hlt
      obtain rfl : line = c.line := by omega
      exact hline hend

/-- An ASCII character is its byte. -/
theorem byteAt_of_ch_lt (hc : c.ch < 128) : t.byteAt c.pos = c.ch ∧ c.width = 1 := by
  have hb : t.byteAt c.pos = c.ch := by
    rw [t.byteAt_eq_of_code_lt (by rw [← h.ch]; exact hc), h.ch]
  exact ⟨hb, by rw [h.width, t.charAt_of_byteAt_lt (by omega)]⟩

/-- Which ASCII character stands here. -/
theorem sees_iff {a : Char} (ha : a.toNat < 128) :
    c.sees a = true ↔ t.byteAt c.pos = a.toNat := by
  rw [sees, beq_iff_eq, h.ch, t.code_eq_iff ha]

theorem seesPair_iff {a b : Char} (ha : a.toNat < 128) (hb : b.toNat < 128) :
    c.seesPair a b = true ↔ t.byteAt c.pos = a.toNat ∧ t.byteAt (c.pos + 1) = b.toNat := by
  rw [seesPair, Bool.and_eq_true, h.sees_iff ha, seesNext, beq_iff_eq, h.next, t.code_eq_iff hb]
  apply and_congr_right
  intro hbyte
  rw [h.width, t.charAt_of_byteAt_lt (by omega)]

/-- A move over an ASCII character. -/
theorem forward_pos_of_byteAt_lt (hm : c.more = true) (hb : t.byteAt c.pos < 128) :
    c.forward.pos = c.pos + 1 := by
  rw [forward_pos hm, h.width, t.charAt_of_byteAt_lt hb]

/-- The carriage return of a pair ends no line. -/
theorem atLineEnd_of_pair (hc : c.ch = 13) (hn : c.next = 10) : c.atLineEnd = false := by
  obtain ⟨hb, hone⟩ := h.byteAt_of_ch_lt (by omega)
  rw [hc] at hb
  have hb' : t.byteAt (c.pos + 1) = 10 := by
    rw [t.byteAt_eq_of_code_lt (by rw [← hone, ← h.next]; omega), ← hone, ← h.next, hn]
  have hs := t.lt_size_of_byteAt (p := c.pos) (by omega)
  rw [h.atLineEnd]
  simp [Text.lineEndsAt, Text.breaksAfter, hb, hb', hs]

/-- A line terminator starts at a byte of one that is not its second. -/
theorem atTerminator_of_ch (hc : c.ch = 10 ∨ c.ch = 13) (hno : t.endsPair c.pos = false) :
    c.atTerminator = true := by
  have hb := (h.byteAt_of_ch_lt (by omega)).1
  have hs := t.lt_size_of_byteAt (p := c.pos) (by omega)
  have hend : t.lineEnd (t.lineOf c.pos) = c.pos := by
    cases hbreak : t.breaksAfter c.pos with
    | true =>
      rw [t.lineEnd_of_breaksAfter hbreak, hno]
      rfl
    | false =>
      -- the carriage return of a pair, which ends behind the line feed
      have hpair : t.byteAt c.pos = 13 ∧ t.byteAt (c.pos + 1) = 10 := by
        simp [Text.breaksAfter] at hbreak
        omega
      have hbreak' : t.breaksAfter (c.pos + 1) = true := by simp [Text.breaksAfter, hpair.2]
      have hline := t.lineOf_succ c.pos
      rw [hbreak, if_neg Bool.false_ne_true] at hline
      rw [show t.lineOf c.pos = t.lineOf (c.pos + 1) from hline.symm,
        t.lineEnd_of_breaksAfter hbreak']
      simp [Text.endsPair, hpair.1, hpair.2]
  rw [atTerminator, h.line, t.lineAt_of_le (by omega), hend, beq_self_eq_true]

/-- A line terminator starts at no other byte. -/
theorem atTerminator_eq_false (hs : c.pos < t.size) (hlf : t.byteAt c.pos ≠ 10)
    (hcr : t.byteAt c.pos ≠ 13) : c.atTerminator = false := by
  rw [Bool.eq_false_iff]
  intro hterm
  rw [atTerminator, beq_iff_eq, h.line, t.lineAt_of_le (by omega)] at hterm
  have hbyte := t.byteAt_lineEnd (t.lineOf_le_lastLine c.pos)
  rw [← hterm] at hbyte
  omega

/-- A move comes to the second byte of a terminator from its first. -/
theorem endsPair_forward (hm : c.more = true) (hc : c.ch ≠ 13) :
    t.endsPair c.forward.pos = false := by
  have hw := t.width_pos c.pos
  rw [h.pos_forward hm]
  by_cases hone : (t.charAt c.pos).width = 1
  · have hb : t.byteAt c.pos ≠ 13 := by
      intro hb
      apply hc
      rw [h.ch, t.charAt_of_byteAt_lt (by omega)]
      exact hb
    simp [Text.endsPair, hone, hb]
  · have hcont := t.le_byteAt_of_inside (p := c.pos)
      (q := c.pos + (t.charAt c.pos).width - 1) (by omega) (by omega)
    have hb : t.byteAt (c.pos + (t.charAt c.pos).width - 1) ≠ 13 := by omega
    simp [Text.endsPair, hb]

end InSync

/-! ## 3. Two cursors -/

/-- Cursors over texts that begin alike, at one position at or before `k`, on walks that
both go on to `k`. -/
structure Abreast {t t' : Text} (k : Nat) (c : Cursor t) (c' : Cursor t') : Prop where
  same : Text.SameTo k t t'
  sync : c.InSync
  sync' : c'.InSync
  pos : c'.pos = c.pos
  pos_le : c.pos ≤ k
  stop : k ≤ c.stop
  stop' : k ≤ c'.stop

namespace Abreast

variable {t t' : Text} {k : Nat} {c : Cursor t} {c' : Cursor t'} (h : Abreast k c c')
include h

theorem more (hlt : c.pos < k) : c.more = true := by
  have := h.stop
  rw [more_iff]; omega

theorem more' (hlt : c.pos < k) : c'.more = true := by
  have := h.stop'
  have := h.pos
  rw [more_iff]; omega

theorem line : c'.line = c.line := by
  rw [h.sync.line, h.sync'.line, h.pos, h.same.lineAt h.pos_le]

theorem ch (hlt : c.pos < k) : c'.ch = c.ch := by
  rw [h.sync.ch, h.sync'.ch, h.pos, h.same.charAt hlt]

theorem width (hlt : c.pos < k) : c'.width = c.width := by
  rw [h.sync.width, h.sync'.width, h.pos, h.same.charAt hlt]

theorem atLineStart : c'.atLineStart = c.atLineStart := by
  have hle := h.pos_le
  rw [h.sync.atLineStart, h.sync'.atLineStart, h.pos]
  by_cases hpos : c.pos = 0
  · simp [hpos]
  · rw [h.same.lineEndsAt (by omega)]

theorem atLineEnd (hlt : c.pos < k) : c'.atLineEnd = c.atLineEnd := by
  rw [h.sync.atLineEnd, h.sync'.atLineEnd, h.pos, h.same.lineEndsAt hlt]

theorem next_lt (hlt : c.pos < k) (hend : c.atLineEnd = false) : c.pos + c.width < k := by
  rw [h.sync.width]
  exact Text.add_width_lt_of_isStop h.same.stop hlt (by rw [← h.sync.atLineEnd]; exact hend)

theorem next (hlt : c.pos < k) (hend : c.atLineEnd = false) : c'.next = c.next := by
  rw [h.sync.next, h.sync'.next, h.pos, h.width hlt, h.same.charAt (h.next_lt hlt hend)]

theorem forward (hlt : c.pos < k) : Abreast k c.forward c'.forward where
  same := h.same
  sync := h.sync.forward (h.more hlt)
  sync' := h.sync'.forward (h.more' hlt)
  pos := by rw [forward_pos (h.more hlt), forward_pos (h.more' hlt), h.pos, h.width hlt]
  pos_le := by
    rw [h.sync.pos_forward (h.more hlt)]
    exact Text.add_width_le_of_isStop h.same.stop hlt
  stop := by rw [forward_stop]; exact h.stop
  stop' := by rw [forward_stop]; exact h.stop'

theorem forward_lt (hlt : c.pos < k) (hend : c.atLineEnd = false) : c.forward.pos < k := by
  rw [forward_pos (h.more hlt)]
  exact h.next_lt hlt hend

end Abreast

end Cursor

end Restyle
