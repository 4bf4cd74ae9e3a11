/-
Restyle.Proofs.Scanner.Notes — which lines a scanner notes states for.

A note is for the line that the cursor is on. So a scanner whose walk
ends at a line start makes none for the lines behind that one
(`Bound.noted_of_reach`). It spares that line too, as long as it makes its
notes before it has come there (`Spares.note`); moving, painting and
relabelling make no notes, and keep that wherever they are done
(`Spares.of_reach`).

At signs a scanner stays before the line start whatever it does, which
makes it go in tandem with itself (`Alone.tandem`).
-/
import Restyle.Proofs.Scanner.Tandem

namespace Restyle.Scanner

variable {t : Text} {k : Nat} {s s' r : Scanner t}

/-! ## 1. What makes no notes -/

@[simp] theorem lineStates_forward (s : Scanner t) : s.forward.lineStates = s.lineStates := rfl

@[simp] theorem lineStates_forwardBy (count : Nat) :
    ∀ s : Scanner t, (s.forwardBy count).lineStates = s.lineStates := by
  induction count with
  | zero => exact fun _ => rfl
  | succ count ih => exact fun s => ih s.forward

@[simp] theorem lineStates_forwardWhile (p : Nat → Bool) (fuel : Nat) :
    ∀ s : Scanner t, (s.forwardWhile p fuel).lineStates = s.lineStates := by
  induction fuel with
  | zero => exact fun _ => rfl
  | succ fuel ih =>
    intro s
    rw [forwardWhile]
    split
    · exact ih s.forward
    · rfl

@[simp] theorem lineStates_skip (p : Nat → Bool) (s : Scanner t) :
    (s.skip p).lineStates = s.lineStates := lineStates_forwardWhile p _ s

@[simp] theorem lineStates_paintTo (s : Scanner t) (stop : Nat) (token : Token) :
    (s.paintTo stop token).lineStates = s.lineStates := by
  simp only [paintTo]
  split <;> rfl

@[simp] theorem lineStates_relabel (s : Scanner t) (token : Token) :
    (s.relabel token).lineStates = s.lineStates := rfl

@[simp] theorem lineStates_switch (s : Scanner t) (token : Token) :
    (s.switch token).lineStates = s.lineStates := lineStates_paintTo ..

@[simp] theorem lineStates_forwardSwitch (s : Scanner t) (token : Token) :
    (s.forwardSwitch token).lineStates = s.lineStates := lineStates_switch ..

theorem noted_of_lineStates (h : r.lineStates = s.lineStates) (line : Nat) :
    r.noted line = s.noted line := by
  rw [noted, noted, Styling.stateOf?, Styling.stateOf?]
  exact congrArg _ h

/-! ## 2. Bound for a line start -/

/-- At its end a scanner stays on its line. -/
theorem Reach.line_of_not_more (h : Reach s r) (hs : s.more = false) :
    r.more = false ∧ r.line = s.line := by
  induction h with
  | refl => exact ⟨hs, rfl⟩
  | @forward r _ ih =>
    rw [toCursor_forward, Cursor.forward_of_not_more ih.1]
    exact ih
  | paint token _ ih => simpa using ih
  | relabel token _ ih => exact ih
  | note state _ ih => exact ih

/-- The walk ends at the line start `k`, and the cursor knows its place as long as it has not come
there. -/
structure Bound (k : Nat) (s : Scanner t) : Prop where
  start : k ∈ t.starts
  stop : s.stop = k
  sync : s.more = true → s.InSync
  line_le : s.line ≤ t.lineOf k

namespace Bound

variable (h : Bound k s)
include h

theorem more_iff : s.more = true ↔ s.pos < k := by rw [Cursor.more_iff, h.stop]

section

variable (hmore : s.more = true)
include hmore

theorem isStop : t.IsStop k :=
  t.isStop_of_mem_starts h.start (Nat.zero_lt_of_lt (h.more_iff.1 hmore))

theorem pos_lt_size : s.pos < t.size :=
  Nat.lt_of_lt_of_le (h.more_iff.1 hmore) (t.le_size_of_mem_starts h.start)

/-- Before the line start the cursor is on a line before. -/
theorem line_lt : s.line < t.lineOf k := by
  rw [(h.sync hmore).line, t.lineAt_of_le (Nat.le_of_lt (h.pos_lt_size hmore))]
  exact t.lineOf_lt_of_mem_starts h.start (h.more_iff.1 hmore)

/-- A line ends at a line feed or a carriage return, and at nothing else before its end. -/
theorem atLineEnd_eq_false (hlf : s.ch ≠ 10) (hcr : s.ch ≠ 13) : s.atLineEnd = false := by
  have hsync := h.sync hmore
  have hsize := h.pos_lt_size hmore
  rw [hsync.atLineEnd, Text.lineEndsAt, Bool.or_eq_false_iff, decide_eq_false_iff_not]
  refine ⟨Bool.eq_false_iff.2 fun hbreak => ?_, Nat.not_le_of_lt hsize⟩
  have hbyte := t.byteAt_of_breaksAfter hbreak
  have hch : s.ch = t.byteAt s.pos := by rw [hsync.ch, t.charAt_of_byteAt_lt (by omega)]
  omega

end

theorem forward : Bound k s.forward where
  start := h.start
  stop := (Cursor.forward_stop _).trans h.stop
  sync := by
    intro hmore
    cases hbefore : s.more with
    | true => exact (h.sync hbefore).forward hbefore
    | false =>
      rw [(Reach.refl.forward.line_of_not_more hbefore).1] at hmore
      cases hmore
  line_le := by
    cases hmore : s.more with
    | true =>
      have hlt := h.line_lt hmore
      rw [toCursor_forward, Cursor.forward_line hmore]
      split <;> omega
    | false =>
      rw [(Reach.refl.forward.line_of_not_more hmore).2]
      exact h.line_le

theorem reach (hr : Reach s r) : Bound k r := by
  induction hr with
  | refl => exact h
  | forward _ ih => exact ih.forward
  | paint token _ ih =>
    obtain ⟨hstart, hstop, hsync, hline⟩ := ih
    exact ⟨hstart, by simpa using hstop, by simpa using hsync, by simpa using hline⟩
  | relabel token _ ih => exact ⟨ih.start, ih.stop, ih.sync, ih.line_le⟩
  | note state _ ih => exact ⟨ih.start, ih.stop, ih.sync, ih.line_le⟩

/-- No notes are made for the lines behind the line start. -/
theorem noted_of_reach (hr : Reach s r) {line : Nat} (hline : t.lineOf k < line) :
    r.noted line = s.noted line := by
  induction hr with
  | refl => rfl
  | forward _ ih => exact ih
  | paint token _ ih => simpa using ih
  | relabel token _ ih => exact ih
  | note state hr ih =>
    have hle := (h.reach hr).line_le
    rw [noted_noteHere, if_neg (by omega)]
    exact ih

section

variable (hmore : s.more = true)
include hmore

/-- No move inside a line comes to a line start. -/
theorem more_forward (hend : s.atLineEnd = false) : s.forward.more = true := by
  have hsync := h.sync hmore
  rw [h.forward.more_iff, toCursor_forward, hsync.pos_forward hmore]
  exact Text.add_width_lt_of_isStop (h.isStop hmore) (h.more_iff.1 hmore)
    (hsync.atLineEnd.symm.trans hend)

theorem more_forward_of_isSign (hc : isSign s.ch = true) : s.forward.more = true :=
  h.more_forward hmore ((h.sync hmore).atLineEnd_eq_false (isSolid_of_isSign hc))

/-- A walk that comes to its end makes its last move over the last byte of a line. -/
theorem pos_of_not_more (hno : s.forward.more = false) :
    s.pos + 1 = k ∧ s.forward.pos = k ∧ s.forward.InSync := by
  have hsync := h.sync hmore
  have hend : s.atLineEnd = true := by
    cases he : s.atLineEnd with
    | true => rfl
    | false =>
      rw [h.more_forward hmore he] at hno
      cases hno
  have hpos : s.forward.pos = s.pos + 1 := by
    rw [toCursor_forward, Cursor.forward_pos hmore, hsync.width,
      (t.charAt_of_lineEndsAt (hsync.atLineEnd.symm.trans hend)).2]
  have hlt := h.more_iff.1 hmore
  have hge : ¬s.forward.pos < k := fun hlt => by
    rw [h.forward.more_iff.2 hlt] at hno
    cases hno
  exact ⟨by omega, by omega, hsync.forward hmore⟩

end

end Bound

theorem bound_start {start length : Nat} (hk : start + length ∈ t.starts)
    (h : start + length < t.size) (token : Token) :
    Bound (start + length) (Scanner.start t start length token) where
  start := hk
  stop := by rw [Scanner.start, Cursor.stop_start, if_neg (Nat.ne_of_lt h)]
  sync _ := Cursor.inSync_start (Nat.le_of_lt h)
  line_le := t.lineOf_mono (Nat.le_add_right ..)

/-! ## 3. Before the line start -/

/-- A scanner bound for `k` that has noted nothing for the line there. -/
structure Spares (k : Nat) (s : Scanner t) : Prop extends Bound k s where
  spared : s.noted (t.lineOf k) = none

namespace Spares

variable (h : Spares k s)
include h

theorem of_reach (hr : Reach s r) (hquiet : r.lineStates = s.lineStates) : Spares k r :=
  ⟨h.reach hr, (noted_of_lineStates hquiet _).trans h.spared⟩

theorem forward : Spares k s.forward := h.of_reach Reach.refl.forward rfl

theorem switch (token : Token) : Spares k (s.switch token) :=
  h.of_reach (Reach.refl.switch token) (by simp)

theorem note (hmore : s.more = true) (state : Int) : Spares k (s.noteHere state) where
  toBound := h.reach (Reach.refl.note state)
  spared := by
    have hlt := h.line_lt hmore
    rw [noted_noteHere, if_neg (by omega)]
    exact h.spared

end Spares

/-! ## 4. At signs -/

/-- The first scanner has not come to `k` and spares the line there; the second differs from it in
what it has said at most. -/
structure Alone (k : Nat) (s s' : Scanner t) : Prop where
  spares : s.Spares k
  more : s.more = true
  cursor : s'.toCursor = s.toCursor
  token : s'.token = s.token
  mark : s'.mark = s.mark

theorem Spares.alone (h : Spares k s) (hmore : s.more = true) : Alone k s s :=
  ⟨h, hmore, rfl, rfl, rfl⟩

namespace Alone

variable (h : Alone k s s')
include h

theorem sync : s.InSync := h.spares.sync h.more

theorem forward_of_not_atLineEnd (hend : s.atLineEnd = false) : Alone k s.forward s'.forward where
  spares := h.spares.forward
  more := h.spares.more_forward h.more hend
  cursor := congrArg Cursor.forward h.cursor
  token := h.token
  mark := h.mark

theorem paint (token : Token) : Alone k (s.paintTo s.pos token) (s'.paintTo s'.pos token) where
  spares := h.spares.of_reach (Reach.refl.paint token) (by simp)
  more := by simpa using h.more
  cursor := by simpa using h.cursor
  token := by simpa using h.token
  mark := by rw [mark_paintTo, mark_paintTo, h.mark, h.cursor]

theorem relabel (token : Token) : Alone k (s.relabel token) (s'.relabel token) :=
  { h with spares := h.spares.of_reach (Reach.refl.relabel token) rfl, token := rfl }

theorem switch (token : Token) : Alone k (s.switch token) (s'.switch token) := by
  rw [switch_eq, switch_eq, h.token]
  exact (h.paint s.token).relabel token

theorem openText : s'.openText = s.openText := by
  rw [Scanner.openText, Scanner.openText, h.mark, h.cursor]

omit h in
theorem tandem (t : Text) (loose : Token → Bool) (k : Nat) :
    Tandem loose k (Alone (t := t) k) (Alone k) where
  of_marked h := h
  marked h _ := h
  sync h := h.sync
  sync' h := by rw [h.cursor]; exact h.sync
  lt h := h.spares.more_iff.1 h.more
  stop h := Nat.le_of_eq h.spares.stop.symm
  room h := Nat.le_of_eq (by rw [h.cursor, h.spares.stop])
  token h := h.token
  atLineStart h := by rw [h.cursor]
  bytes h i _ := by rw [h.cursor]
  openText h := h.openText
  forward h hc :=
    h.forward_of_not_atLineEnd (h.sync.atLineEnd_eq_false (isSolid_of_isSign hc))
  forward_marked h hc :=
    h.forward_of_not_atLineEnd (h.sync.atLineEnd_eq_false (isSolid_of_isSign hc))
  switch token h := h.switch token
  paint token h := h.paint token
  relabel token h := h.relabel token
  note state h := { h with spares := h.spares.note h.more state }
  note' state h := { h with }

end Alone

end Restyle.Scanner
