/-
Restyle.Proofs.Buffer.Restyle — what a buffer holds after it took in what
a lexer said.

Of all that a styling says about a byte or a line the last counts:
`tokenAt?` and `stateOf?` look it up. A buffer takes that over and keeps
the rest (`tokenAt_restyle`, `lineState_restyle`).
-/
import Mathlib.Data.List.Induction
import Restyle.Buffer.WellFormed

namespace Restyle

/-! ## 1. Stylings -/

namespace Styling

/-- The token that a styling gives the byte at `pos`, if it gives one. -/
def tokenAt? (r : Styling) (pos : Nat) : Option Token :=
  r.spans.findSomeRev? fun s => if s.contains pos then some s.token else none

/-- The state that a styling stores for `line`, if it stores one. -/
def stateOf? (r : Styling) (line : Nat) : Option Int :=
  r.lineStates.findSomeRev? fun e => if e.1 = line then some e.2 else none

theorem tokenAt?_push (spans : Array Span) (states : Array (Nat × Int)) (s : Span) (pos : Nat) :
    tokenAt? ⟨spans.push s, states⟩ pos
      = if s.contains pos then some s.token else tokenAt? ⟨spans, states⟩ pos := by
  simp only [tokenAt?, Array.findSomeRev?_push]
  split <;> rfl

theorem stateOf?_push (spans : Array Span) (states : Array (Nat × Int)) (e : Nat × Int)
    (line : Nat) :
    stateOf? ⟨spans, states.push e⟩ line
      = if e.1 = line then some e.2 else stateOf? ⟨spans, states⟩ line := by
  simp only [stateOf?, Array.findSomeRev?_push]
  split <;> rfl

end Styling

/-! ## 2. Tables -/

theorem getElem?_fill {α : Type} (x : α) : ∀ (count start : Nat) (xs : Array α) (i : Nat),
    (fill x start count xs)[i]?
      = if start ≤ i ∧ i < start + count ∧ i < xs.size then some x else xs[i]?
  | 0, start, xs, i => by
    have : ¬ (start ≤ i ∧ i < start + 0 ∧ i < xs.size) := by omega
    rw [fill, if_neg this]
  | count + 1, start, xs, i => by
    rw [fill, getElem?_fill x count, Array.getElem?_setIfInBounds, Array.size_setIfInBounds]
    by_cases hi : i = start
    · subst hi
      by_cases hs : i < xs.size
      · simp [hs]
      · simp [hs]
    · have hne : ¬ start = i := fun h => hi h.symm
      rw [if_neg hne]
      by_cases hin : start ≤ i ∧ i < start + (count + 1) ∧ i < xs.size
      · rw [if_pos hin, if_pos (by omega)]
      · rw [if_neg hin, if_neg (by omega)]

/-! ## 3. Buffers -/

namespace Buffer

@[simp] theorem text_setLineState (b : Buffer) (line : Nat) (state : Int) :
    (b.setLineState line state).text = b.text := rfl

@[simp] theorem text_setLevel (b : Buffer) (line : Nat) (level : Int) :
    (b.setLevel line level).text = b.text := rfl

@[simp] theorem text_paint (b : Buffer) (s : Span) : (b.paint s).text = b.text := by
  simp only [paint]
  split <;> rfl

theorem lineStates_paint (b : Buffer) (s : Span) : (b.paint s).lineStates = b.lineStates := by
  simp only [paint]
  split <;> rfl

theorem levels_paint (b : Buffer) (s : Span) : (b.paint s).levels = b.levels := by
  simp only [paint]
  split <;> rfl

theorem styles_size_paint (b : Buffer) (s : Span) : (b.paint s).styles.size = b.styles.size := by
  simp only [paint]
  split
  · rfl
  · exact size_fill ..

theorem tokenAt_paint (b : Buffer) (s : Span) {pos : Nat} (h : pos < b.styles.size) :
    (b.paint s).tokenAt pos = if s.contains pos then s.token else b.tokenAt pos := by
  have look (b : Buffer) : b.tokenAt pos = b.styles[pos]?.getD .plain :=
    Array.getD_eq_getD_getElem? ..
  rw [look, look, paint]
  simp only [Span.contains, Bool.and_eq_true, decide_eq_true_eq]
  by_cases hs : min s.stop b.styles.size ≤ s.start
  · rw [if_pos hs, if_neg (by omega)]
  · rw [if_neg hs]
    dsimp only
    rw [getElem?_fill]
    by_cases hin : s.start ≤ pos ∧ pos < s.stop
    · rw [if_pos hin, if_pos (by omega)]
      rfl
    · rw [if_neg hin, if_neg (by omega)]

/-- A span that is not empty and inside the text is logged as it is. -/
theorem log_paint (b : Buffer) {s : Span} (h : s.start < s.stop) (h' : s.stop ≤ b.styles.size) :
    (b.paint s).log = b.log.push s := by
  have hmin : min s.stop b.styles.size = s.stop := Nat.min_eq_left h'
  simp only [paint, hmin, if_neg (Nat.not_le_of_lt h)]

theorem lineState_setLineState (b : Buffer) (line line' : Nat) (state : Int)
    (h : line' < b.lineStates.size) :
    (b.setLineState line state).lineState line' = if line = line' then state else b.lineState line' := by
  simp only [setLineState, lineState, Array.getD_eq_getD_getElem?, Array.getElem?_setIfInBounds]
  by_cases heq : line = line'
  · subst heq
    simp [h]
  · simp [heq]

/-- Painting changes no other table, and no table's size. -/
theorem foldl_paint_keeps (spans : List Span) (b : Buffer) :
    (spans.foldl paint b).text = b.text ∧ (spans.foldl paint b).lineStates = b.lineStates
      ∧ (spans.foldl paint b).levels = b.levels
      ∧ (spans.foldl paint b).styles.size = b.styles.size := by
  induction spans generalizing b with
  | nil => exact ⟨rfl, rfl, rfl, rfl⟩
  | cons s spans ih =>
    obtain ⟨h₁, h₂, h₃, h₄⟩ := ih (b.paint s)
    rw [List.foldl_cons]
    exact ⟨h₁.trans (text_paint b s), h₂.trans (lineStates_paint b s), h₃.trans (levels_paint b s),
      h₄.trans (styles_size_paint b s)⟩

/-- Storing line states changes nothing else, and not the size of their table. -/
theorem foldl_setLineState_keeps (states : List (Nat × Int)) (b : Buffer) :
    (states.foldl (fun b p => b.setLineState p.1 p.2) b)
      = { b with lineStates := (states.foldl (fun b p => b.setLineState p.1 p.2) b).lineStates }
      ∧ (states.foldl (fun b p => b.setLineState p.1 p.2) b).lineStates.size
        = b.lineStates.size := by
  induction states generalizing b with
  | nil => exact ⟨rfl, rfl⟩
  | cons p states ih =>
    obtain ⟨h₁, h₂⟩ := ih (b.setLineState p.1 p.2)
    rw [List.foldl_cons]
    exact ⟨h₁, h₂.trans Array.size_setIfInBounds⟩

/-- Painting spans in order leaves each byte with the last token given to it. -/
theorem tokenAt_foldl_paint (states : Array (Nat × Int)) {pos : Nat} (spans : List Span)
    (b : Buffer) (h : pos < b.styles.size) :
    (spans.foldl paint b).tokenAt pos
      = (Styling.tokenAt? ⟨spans.toArray, states⟩ pos).getD (b.tokenAt pos) := by
  induction spans using List.reverseRecOn with
  | nil => simp [Styling.tokenAt?]
  | append_singleton spans s ih =>
    have hsize : pos < (spans.foldl paint b).styles.size := by
      rw [(foldl_paint_keeps spans b).2.2.2]
      exact h
    rw [List.foldl_append, List.foldl_cons, List.foldl_nil, tokenAt_paint _ _ hsize, ih,
      show (spans ++ [s]).toArray = spans.toArray.push s by simp, Styling.tokenAt?_push]
    split <;> rfl

/-- Storing line states in order leaves each line with the last one stored for it. -/
theorem lineState_foldl_setLineState (spans : Array Span) {line : Nat} (states : List (Nat × Int))
    (b : Buffer) (h : line < b.lineStates.size) :
    (states.foldl (fun b p => b.setLineState p.1 p.2) b).lineState line
      = (Styling.stateOf? ⟨spans, states.toArray⟩ line).getD (b.lineState line) := by
  induction states using List.reverseRecOn with
  | nil => simp [Styling.stateOf?]
  | append_singleton states e ih =>
    have hsize := (foldl_setLineState_keeps states b).2
    rw [List.foldl_append, List.foldl_cons, List.foldl_nil,
      lineState_setLineState _ _ _ _ (by rw [hsize]; exact h), ih,
      show (states ++ [e]).toArray = states.toArray.push e by simp, Styling.stateOf?_push]
    split <;> rfl

theorem restyle_eq (b : Buffer) (r : Styling) :
    b.restyle r = r.lineStates.toList.foldl (fun b p => b.setLineState p.1 p.2)
      (r.spans.toList.foldl paint b) := by
  rw [restyle, Array.foldl_toList, Array.foldl_toList]

@[simp] theorem text_restyle (b : Buffer) (r : Styling) : (b.restyle r).text = b.text := by
  rw [restyle_eq, (foldl_setLineState_keeps _ _).1]
  exact (foldl_paint_keeps _ _).1

@[simp] theorem levels_restyle (b : Buffer) (r : Styling) : (b.restyle r).levels = b.levels := by
  rw [restyle_eq, (foldl_setLineState_keeps _ _).1]
  exact (foldl_paint_keeps _ _).2.2.1

theorem tokenAt_restyle (b : Buffer) (r : Styling) {pos : Nat} (h : pos < b.styles.size) :
    (b.restyle r).tokenAt pos = (r.tokenAt? pos).getD (b.tokenAt pos) := by
  rw [restyle_eq, (foldl_setLineState_keeps _ _).1]
  exact tokenAt_foldl_paint r.lineStates r.spans.toList b h

theorem lineState_restyle (b : Buffer) (r : Styling) {line : Nat} (h : line < b.lineStates.size) :
    (b.restyle r).lineState line = (r.stateOf? line).getD (b.lineState line) := by
  have hpaint := (foldl_paint_keeps r.spans.toList b).2.1
  rw [restyle_eq, lineState_foldl_setLineState r.spans _ _ (by rw [hpaint]; exact h)]
  rw [lineState, hpaint]
  rfl

theorem tokenAt_ofText (t : Text) (pos : Nat) : (ofText t).tokenAt pos = .plain := by
  rw [tokenAt, Array.getD_eq_getD_getElem?, ofText, Array.getElem?_replicate]
  split <;> rfl

theorem tokenAt_of_size_le {b : Buffer} {pos : Nat} (h : b.styles.size ≤ pos) :
    b.tokenAt pos = .plain := by
  rw [tokenAt, Array.getD_eq_getD_getElem?, Array.getElem?_eq_none h, Option.getD_none]

theorem styles_size_restyle (b : Buffer) (r : Styling) :
    (b.restyle r).styles.size = b.styles.size := by
  rw [restyle_eq, (foldl_setLineState_keeps _ _).1]
  exact (foldl_paint_keeps _ _).2.2.2

/-- A byte that a styling says nothing about keeps its token. -/
theorem tokenAt_restyle_of_none {b : Buffer} {r : Styling} {pos : Nat}
    (h : r.tokenAt? pos = none) : (b.restyle r).tokenAt pos = b.tokenAt pos := by
  by_cases hs : pos < b.styles.size
  · rw [tokenAt_restyle b r hs, h, Option.getD_none]
  · have hle : b.styles.size ≤ pos := Nat.le_of_not_lt hs
    have hle' : (b.restyle r).styles.size ≤ pos := by rw [styles_size_restyle]; exact hle
    rw [tokenAt_of_size_le hle, tokenAt_of_size_le hle']

/-- A line that a styling says nothing about keeps its state. -/
theorem lineState_restyle_of_none {b : Buffer} (hb : b.WellFormed) {r : Styling} {line : Nat}
    (h : r.stateOf? line = none) : (b.restyle r).lineState line = b.lineState line := by
  by_cases hline : line < b.lineStates.size
  · rw [lineState_restyle b r hline, h, Option.getD_none]
  · have hsize : (b.restyle r).lineStates.size = b.lineStates.size := by
      rw [(hb.restyle r).lineStates_size, hb.lineStates_size, text_restyle]
    rw [lineState, lineState, Array.getD_eq_getD_getElem?, Array.getD_eq_getD_getElem?,
      Array.getElem?_eq_none (by omega), Array.getElem?_eq_none (by omega)]

/-- Spans that are not empty and inside the text are logged as they are. -/
theorem log_restyle (b : Buffer) (r : Styling)
    (h : ∀ s ∈ r.spans.toList, s.start < s.stop ∧ s.stop ≤ b.styles.size) :
    (b.restyle r).log.toList = b.log.toList ++ r.spans.toList := by
  rw [restyle_eq, (foldl_setLineState_keeps _ _).1]
  generalize r.spans.toList = spans at h
  show (spans.foldl paint b).log.toList = _
  induction spans generalizing b with
  | nil => simp
  | cons s spans ih =>
    obtain ⟨hs, hstop⟩ := h s List.mem_cons_self
    rw [List.foldl_cons, ih (b.paint s), log_paint b hs hstop]
    · simp
    · intro s' hs'
      rw [styles_size_paint]
      exact h s' (List.mem_cons_of_mem _ hs')

end Buffer

end Restyle
