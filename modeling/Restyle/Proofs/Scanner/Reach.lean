/-
Restyle.Proofs.Scanner.Reach — what a scanner can come to, whatever it is
used for.

A lexer only ever moves its scanner on, paints the open span up to it,
relabels that span and notes states of the line it is on. `Reach` is the
closure of these four, so that what each of them keeps holds of every
lexer: what is painted stays (`Reach.look`), and so do the states of the
lines left behind (`Reach.noted`).
-/
import Restyle.Proofs.Buffer.Restyle
import Restyle.Proofs.Cursor.Sync
import Restyle.Scanner

namespace Restyle.Scanner

variable {t : Text}

/-! ## 1. What a scanner has said -/

/-- The token that the byte at `pos` has if the open span ends as it is labelled. -/
def look (s : Scanner t) (pos : Nat) : Option Token :=
  if s.mark ≤ pos then some s.token else s.styling.tokenAt? pos

/-- The state last noted for `line`. -/
def noted (s : Scanner t) (line : Nat) : Option Int := s.styling.stateOf? line

theorem look_of_lt {s : Scanner t} {pos : Nat} (h : pos < s.mark) :
    s.look pos = s.styling.tokenAt? pos := by
  rw [look, if_neg (by omega)]

theorem look_of_le {s : Scanner t} {pos : Nat} (h : s.mark ≤ pos) : s.look pos = some s.token := by
  rw [look, if_pos h]

/-! ### Moving -/

@[simp] theorem toCursor_forward (s : Scanner t) : s.forward.toCursor = s.toCursor.forward := rfl

@[simp] theorem token_forward (s : Scanner t) : s.forward.token = s.token := rfl

@[simp] theorem mark_forward (s : Scanner t) : s.forward.mark = s.mark := rfl

@[simp] theorem look_forward (s : Scanner t) (pos : Nat) : s.forward.look pos = s.look pos := rfl

@[simp] theorem noted_forward (s : Scanner t) (line : Nat) : s.forward.noted line = s.noted line :=
  rfl

@[simp] theorem token_forwardWhile (p : Nat → Bool) (fuel : Nat) :
    ∀ s : Scanner t, (s.forwardWhile p fuel).token = s.token := by
  induction fuel with
  | zero => intro s; rfl
  | succ fuel ih =>
    intro s
    rw [Scanner.forwardWhile]
    split
    · exact ih s.forward
    · rfl

@[simp] theorem token_skip (p : Nat → Bool) (s : Scanner t) : (s.skip p).token = s.token :=
  token_forwardWhile p _ s

@[simp] theorem token_forwardBy (count : Nat) :
    ∀ s : Scanner t, (s.forwardBy count).token = s.token := by
  induction count with
  | zero => intro s; rfl
  | succ count ih => intro s; exact ih s.forward

@[simp] theorem mark_forwardBy (count : Nat) :
    ∀ s : Scanner t, (s.forwardBy count).mark = s.mark := by
  induction count with
  | zero => intro s; rfl
  | succ count ih => intro s; exact ih s.forward

/-! ### Painting -/

theorem paintTo_pos (s : Scanner t) (token : Token) :
    s.paintTo s.pos token =
      if s.mark < min s.pos t.size then
        { s with spans := s.spans.push ⟨s.mark, min s.pos t.size, token⟩, mark := min s.pos t.size }
      else s := rfl

@[simp] theorem toCursor_paintTo (s : Scanner t) (stop : Nat) (token : Token) :
    (s.paintTo stop token).toCursor = s.toCursor := by
  simp only [paintTo]
  split <;> rfl

@[simp] theorem token_paintTo (s : Scanner t) (stop : Nat) (token : Token) :
    (s.paintTo stop token).token = s.token := by
  simp only [paintTo]
  split <;> rfl

@[simp] theorem noted_paintTo (s : Scanner t) (stop : Nat) (token : Token) (line : Nat) :
    (s.paintTo stop token).noted line = s.noted line := by
  simp only [paintTo]
  split <;> rfl

theorem mark_paintTo (s : Scanner t) (stop : Nat) (token : Token) :
    (s.paintTo stop token).mark = max s.mark (min stop t.size) := by
  simp only [paintTo]
  split
  · dsimp only; omega
  · omega

/-- An open span that is not empty is painted as one. -/
theorem mem_spans_paintTo_pos {s : Scanner t} (token : Token) (h : s.mark < min s.pos t.size) :
    ⟨s.mark, min s.pos t.size, token⟩ ∈ (s.paintTo s.pos token).spans := by
  rw [paintTo_pos, if_pos h]
  exact Array.mem_push_self

/-- Painting the open span in a token decides its bytes up to the cursor. -/
theorem look_paintTo_pos (s : Scanner t) (token : Token) {pos : Nat} (h : pos < s.pos)
    (h' : pos < t.size) :
    (s.paintTo s.pos token).look pos = if s.mark ≤ pos then some token else s.look pos := by
  rw [paintTo_pos]
  split
  · rw [look_of_lt (by dsimp only; omega)]
    show Styling.tokenAt? ⟨s.spans.push _, s.lineStates⟩ pos = _
    rw [Styling.tokenAt?_push]
    simp only [Span.contains, Bool.and_eq_true, decide_eq_true_eq]
    by_cases hm : s.mark ≤ pos
    · rw [if_pos hm, if_pos (by omega)]
    · rw [if_neg hm, if_neg (by omega), look_of_lt (by omega)]
      rfl
  · rw [if_neg (by omega)]

/-- What is painted stays. -/
theorem look_paintTo_pos_of_lt (s : Scanner t) (token : Token) {pos : Nat} (h : pos < s.mark) :
    (s.paintTo s.pos token).look pos = s.look pos := by
  rw [paintTo_pos]
  split
  · rw [look_of_lt (by dsimp only; omega), look_of_lt h]
    show Styling.tokenAt? ⟨s.spans.push _, s.lineStates⟩ pos = _
    rw [Styling.tokenAt?_push, if_neg]
    · rfl
    · simp [Span.contains]
      omega
  · rfl

/-! ### Relabelling and noting -/

@[simp] theorem toCursor_relabel (s : Scanner t) (token : Token) :
    (s.relabel token).toCursor = s.toCursor := rfl

@[simp] theorem token_relabel (s : Scanner t) (token : Token) : (s.relabel token).token = token :=
  rfl

@[simp] theorem mark_relabel (s : Scanner t) (token : Token) : (s.relabel token).mark = s.mark :=
  rfl

@[simp] theorem noted_relabel (s : Scanner t) (token : Token) (line : Nat) :
    (s.relabel token).noted line = s.noted line := rfl

theorem look_relabel (s : Scanner t) (token : Token) (pos : Nat) :
    (s.relabel token).look pos = if s.mark ≤ pos then some token else s.look pos := by
  by_cases h : s.mark ≤ pos
  · rw [if_pos h, look_of_le (by exact h)]
    rfl
  · rw [if_neg h, look_of_lt (by exact Nat.lt_of_not_le h), look_of_lt (Nat.lt_of_not_le h)]
    rfl

@[simp] theorem toCursor_noteHere (s : Scanner t) (state : Int) :
    (s.noteHere state).toCursor = s.toCursor := rfl

@[simp] theorem token_noteHere (s : Scanner t) (state : Int) :
    (s.noteHere state).token = s.token := rfl

@[simp] theorem mark_noteHere (s : Scanner t) (state : Int) : (s.noteHere state).mark = s.mark :=
  rfl

@[simp] theorem look_noteHere (s : Scanner t) (state : Int) (pos : Nat) :
    (s.noteHere state).look pos = s.look pos := rfl

theorem noted_noteHere (s : Scanner t) (state : Int) (line : Nat) :
    (s.noteHere state).noted line = if s.line = line then some state else s.noted line :=
  Styling.stateOf?_push ..

/-! ### Switching -/

theorem switch_eq (s : Scanner t) (token : Token) :
    s.switch token = (s.paintTo s.pos s.token).relabel token := rfl

@[simp] theorem toCursor_switch (s : Scanner t) (token : Token) :
    (s.switch token).toCursor = s.toCursor := by simp [switch_eq]

@[simp] theorem token_switch (s : Scanner t) (token : Token) : (s.switch token).token = token :=
  rfl

@[simp] theorem noted_switch (s : Scanner t) (token : Token) (line : Nat) :
    (s.switch token).noted line = s.noted line := by simp [switch_eq]

theorem mark_switch (s : Scanner t) (token : Token) :
    (s.switch token).mark = max s.mark (min s.pos t.size) := by
  simp [switch_eq, mark_paintTo]

theorem mem_spans_finish {s : Scanner t} (h : s.mark < min s.pos t.size) :
    ⟨s.mark, min s.pos t.size, s.token⟩ ∈ s.finish.spans :=
  mem_spans_paintTo_pos s.token h

theorem mem_spans_switch {s : Scanner t} (token : Token) (h : s.mark < min s.pos t.size) :
    ⟨s.mark, min s.pos t.size, s.token⟩ ∈ (s.switch token).spans :=
  mem_spans_paintTo_pos s.token h

/-- Finishing changes nothing that can be seen of the bytes behind the cursor. -/
theorem look_finish (s : Scanner t) {pos : Nat} (h : pos < s.pos) (h' : pos < t.size) :
    s.finish.look pos = s.look pos := by
  rw [finish, look_paintTo_pos _ _ h h']
  split
  · rename_i hm
    rw [look_of_le hm]
  · rfl

/-- What a walk has to say of the bytes behind the cursor. -/
theorem tokenAt?_finish (s : Scanner t) {pos : Nat} (h : pos < s.pos) (h' : pos < t.size) :
    s.finish.styling.tokenAt? pos = s.look pos := by
  have hmark : pos < s.finish.mark := by rw [finish, mark_paintTo]; omega
  rw [← look_finish s h h', look_of_lt hmark]

theorem stateOf?_finish (s : Scanner t) (line : Nat) :
    s.finish.styling.stateOf? line = s.noted line :=
  noted_paintTo ..

/-- Switching changes nothing that can be seen of them either. -/
theorem look_switch (s : Scanner t) (token : Token) {pos : Nat} (h : pos < s.pos)
    (h' : pos < t.size) : (s.switch token).look pos = s.look pos := by
  have hmark : ¬ (s.paintTo s.pos s.token).mark ≤ pos := by rw [mark_paintTo]; omega
  rw [switch_eq, look_relabel, if_neg hmark]
  exact look_finish s h h'

/-! ## 2. What a scanner can come to -/

/-- `r` is what moving on, painting, relabelling and noting can make of `s`. -/
inductive Reach (s : Scanner t) : Scanner t → Prop
  | refl : Reach s s
  | forward {r : Scanner t} : Reach s r → Reach s r.forward
  | paint {r : Scanner t} (token : Token) : Reach s r → Reach s (r.paintTo r.pos token)
  | relabel {r : Scanner t} (token : Token) : Reach s r → Reach s (r.relabel token)
  | note {r : Scanner t} (state : Int) : Reach s r → Reach s (r.noteHere state)

namespace Reach

variable {s r q : Scanner t}

theorem trans (h : Reach s r) (h' : Reach r q) : Reach s q := by
  induction h' with
  | refl => exact h
  | forward _ ih => exact ih.forward
  | paint token _ ih => exact ih.paint token
  | relabel token _ ih => exact ih.relabel token
  | note state _ ih => exact ih.note state

theorem switch (token : Token) (h : Reach s r) : Reach s (r.switch token) :=
  (h.paint r.token).relabel token

theorem forwardSwitch (token : Token) (h : Reach s r) : Reach s (r.forwardSwitch token) :=
  h.forward.switch token

theorem finish (h : Reach s r) : Reach s r.finish := h.paint r.token

theorem forwardBy (n : Nat) : ∀ {r : Scanner t}, Reach s r → Reach s (r.forwardBy n) := by
  induction n with
  | zero => intro r h; exact h
  | succ n ih => intro r h; exact ih h.forward

theorem forwardWhile (p : Nat → Bool) (fuel : Nat) :
    ∀ {r : Scanner t}, Reach s r → Reach s (r.forwardWhile p fuel) := by
  induction fuel with
  | zero => intro r h; exact h
  | succ fuel ih =>
    intro r h
    rw [Scanner.forwardWhile]
    split
    · exact ih h.forward
    · exact h

theorem skip (p : Nat → Bool) (h : Reach s r) : Reach s (r.skip p) := h.forwardWhile p _

/-! ### What stays -/

theorem stop (h : Reach s r) : r.stop = s.stop := by
  induction h with
  | refl => rfl
  | forward _ ih => simpa using ih
  | paint token _ ih => simpa using ih
  | relabel token _ ih => exact ih
  | note state _ ih => exact ih

theorem pos_le (h : Reach s r) : s.pos ≤ r.pos := by
  induction h with
  | refl => exact Nat.le_refl _
  | forward _ ih => exact Nat.le_trans ih (Cursor.pos_le_forward _)
  | paint token _ ih => simpa using ih
  | relabel token _ ih => exact ih
  | note state _ ih => exact ih

theorem line_le (h : Reach s r) : s.line ≤ r.line := by
  induction h with
  | refl => exact Nat.le_refl _
  | forward _ ih => exact Nat.le_trans ih (Cursor.line_le_forward _)
  | paint token _ ih => simpa using ih
  | relabel token _ ih => exact ih
  | note state _ ih => exact ih

theorem mark_le (h : Reach s r) : s.mark ≤ r.mark := by
  induction h with
  | refl => exact Nat.le_refl _
  | forward _ ih => exact ih
  | paint token _ ih => rw [mark_paintTo]; omega
  | relabel token _ ih => exact ih
  | note state _ ih => exact ih

theorem measured (h : Reach s r) (hs : s.Measured) : r.Measured := by
  induction h with
  | refl => exact hs
  | forward _ ih => exact ih.forward
  | paint token _ ih => rw [toCursor_paintTo]; exact ih
  | relabel token _ ih => exact ih
  | note state _ ih => exact ih

/-- What is painted stays. -/
theorem look (h : Reach s r) {pos : Nat} (hpos : pos < s.mark) : r.look pos = s.look pos := by
  induction h with
  | refl => rfl
  | forward _ ih => exact ih
  | paint token hr ih =>
    rw [look_paintTo_pos_of_lt _ _ (Nat.lt_of_lt_of_le hpos hr.mark_le)]
    exact ih
  | relabel token hr ih =>
    have := hr.mark_le
    rw [look_relabel, if_neg (by omega)]
    exact ih
  | note state _ ih => exact ih

/-- The states of lines left behind stay. -/
theorem noted (h : Reach s r) {line : Nat} (hline : line < s.line) :
    r.noted line = s.noted line := by
  induction h with
  | refl => rfl
  | forward _ ih => exact ih
  | paint token _ ih => simpa using ih
  | relabel token _ ih => exact ih
  | note state hr ih =>
    have := hr.line_le
    rw [noted_noteHere, if_neg (by omega)]
    exact ih

/-- So do the spans. -/
theorem mem_spans (h : Reach s r) {x : Span} (hx : x ∈ s.spans) : x ∈ r.spans := by
  induction h with
  | refl => exact hx
  | forward _ ih => exact ih
  | @paint r token _ ih =>
    rw [paintTo_pos]
    split
    · exact Array.mem_push_of_mem _ ih
    · exact ih
  | relabel token _ ih => exact ih
  | note state _ ih => exact ih

/-- The open span behind the cursor stays open, or is painted as one span. -/
theorem exists_span (h : Reach s r) {p : Nat} (hm : s.mark ≤ p) (hp : p < s.pos)
    (hs : p < t.size) : r.mark = s.mark ∨ p < r.mark ∧ ∃ x ∈ r.spans,
      x.start = s.mark ∧ x.contains p = true ∧ r.look p = some x.token := by
  induction h with
  | refl => exact Or.inl rfl
  | forward _ ih => exact ih
  | @paint r token hr ih =>
    have hle := hr.pos_le
    rcases ih with hopen | ⟨hlt, x, hx, hstart, hin, hlook⟩
    · right
      have hmark := mark_paintTo r r.pos token
      have hlook := look_paintTo_pos r token (by omega) hs
      rw [if_pos (by omega)] at hlook
      refine ⟨by omega, ⟨r.mark, min r.pos t.size, token⟩, mem_spans_paintTo_pos token (by omega),
        hopen, ?_, hlook⟩
      simp [Span.contains]; omega
    · right
      have hmark := mark_paintTo r r.pos token
      exact ⟨by omega, x, (Reach.refl.paint token).mem_spans hx, hstart, hin,
        (look_paintTo_pos_of_lt r token hlt).trans hlook⟩
  | relabel token _ ih =>
    rcases ih with hopen | ⟨hlt, x, hx, hstart, hin, hlook⟩
    · exact Or.inl hopen
    · refine Or.inr ⟨hlt, x, hx, hstart, hin, ?_⟩
      rw [look_relabel, if_neg (by omega)]
      exact hlook
  | note state _ ih => exact ih

/-- What is open behind the cursor is one of the spans in the end. -/
theorem exists_span_finish (h : Reach s r) {p : Nat} (hm : s.mark ≤ p) (hp : p < s.pos)
    (hs : p < t.size) : ∃ x ∈ r.finish.spans, x.start = s.mark ∧ x.contains p = true
      ∧ r.finish.styling.tokenAt? p = some x.token := by
  have hle := h.pos_le
  have hmark := mark_paintTo r r.pos r.token
  rcases h.finish.exists_span hm hp hs with hopen | ⟨hlt, x, hx, hstart, hin, hlook⟩
  · rw [Scanner.finish] at hopen
    omega
  · rw [look_of_lt hlt] at hlook
    exact ⟨x, hx, hstart, hin, hlook⟩

end Reach

/-! ## 3. Moving on -/

/-- `r` is what moving on by at least one character can make of `s`. -/
def Advances (s r : Scanner t) : Prop := ∃ q : Scanner t, Reach s q ∧ Reach q.forward r

namespace Advances

variable {s r q : Scanner t}

theorem of_forward (h : Reach s.forward r) : Advances s r := ⟨s, .refl, h⟩

theorem of_switch_forward {token : Token} (h : Reach (s.switch token).forward r) : Advances s r :=
  ⟨s.switch token, Reach.refl.switch token, h⟩

theorem trans (h : Advances s r) (h' : Reach r q) : Advances s q := by
  obtain ⟨p, hs, hr⟩ := h
  exact ⟨p, hs, hr.trans h'⟩

theorem of_reach (h : Reach s r) (h' : Advances r q) : Advances s q := by
  obtain ⟨p, hs, hr⟩ := h'
  exact ⟨p, h.trans hs, hr⟩

theorem reach (h : Advances s r) : Reach s r := by
  obtain ⟨p, hs, hr⟩ := h
  exact hs.forward.trans hr

/-- Within its range a scanner that moves on leaves its position behind. -/
theorem pos_lt (h : Advances s r) (hs : s.Measured) (hmore : s.more = true) : s.pos < r.pos := by
  obtain ⟨p, hp, hr⟩ := h
  have hle := hp.pos_le
  have hle' : p.forward.pos ≤ r.pos := hr.pos_le
  by_cases heq : p.pos = s.pos
  · have hmore' : p.more = true := by
      rw [Cursor.more_iff, hp.stop, heq]
      exact Cursor.more_iff.1 hmore
    have : p.pos < p.forward.pos := (hp.measured hs).pos_lt_forward hmore'
    omega
  · have : p.pos ≤ p.forward.pos := p.toCursor.pos_le_forward
    omega

end Advances

/-- Only the cursor has moved. -/
def Moved (s r : Scanner t) : Prop := r = { s with toCursor := r.toCursor }

namespace Moved

variable {s r q : Scanner t}

theorem refl (s : Scanner t) : Moved s s := rfl

theorem forward (h : Moved s r) : Moved s r.forward := by
  rw [Moved] at h
  rw [h]
  rfl

theorem trans (h : Moved s r) (h' : Moved r q) : Moved s q := by
  rw [Moved] at h h' ⊢
  rw [h', h]

theorem token (h : Moved s r) : r.token = s.token := by rw [h]

theorem mark (h : Moved s r) : r.mark = s.mark := by rw [h]

end Moved

/-- ASCII characters are passed with a byte each. -/
theorem forwardBy_of_byteAt_lt (count : Nat) : ∀ {s : Scanner t}, s.InSync →
    s.pos + count ≤ s.stop → (∀ i < count, t.byteAt (s.pos + i) < 128) →
    (s.forwardBy count).InSync ∧ (s.forwardBy count).pos = s.pos + count := by
  induction count with
  | zero => exact fun hs _ _ => ⟨hs, rfl⟩
  | succ count ih =>
    intro s hs hle hbytes
    have hmore : s.more = true := Cursor.more_iff.2 (by omega)
    have hpos : s.forward.pos = s.pos + 1 :=
      hs.forward_pos_of_byteAt_lt hmore (hbytes 0 (Nat.succ_pos count))
    have hstop : s.forward.stop = s.stop := s.toCursor.forward_stop
    have hrest := ih (s := s.forward) (hs.forward hmore) (by omega) fun i hi => by
      have hbyte := hbytes (i + 1) (by omega)
      rwa [hpos, Nat.add_right_comm]
    rwa [hpos, Nat.add_right_comm] at hrest

end Restyle.Scanner
