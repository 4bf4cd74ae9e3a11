/-
Restyle.Proofs.Scanner.Coverage — the spans that a scanner paints tile
what it has walked over.

`Span.Tile` says that spans are not empty, follow one another and reach
from one position to another. `Painted` is the invariant: the spans
painted tile the text from the start of the walk to the mark, and the mark
is not ahead of the cursor. `Strides` says where the cursor can be: at the
end of some number of characters from the start, all of them before the
end of the range. Both hold of whatever a scanner can come to.

A walk that has ended stands at the first position of its kind at or
behind the end of its range (`Strides.walksTo`).
-/
import Restyle.Proofs.Scanner.Reach

namespace Restyle

/-! ## 1. Tilings -/

namespace Span

/-- The spans are not empty, follow one another and reach from `start` to `stop`. -/
def Tile (start : Nat) : List Span → Nat → Prop
  | [], stop => start = stop
  | s :: rest, stop => s.start = start ∧ s.start < s.stop ∧ Tile s.stop rest stop

theorem Tile.concat {s : Span} (hs : s.start < s.stop) : ∀ {spans : List Span} {start : Nat},
    Tile start spans s.start → Tile start (spans ++ [s]) s.stop
  | [], _, h => ⟨h.symm, hs, rfl⟩
  | _ :: _, _, ⟨h, h', hrest⟩ => ⟨h, h', hrest.concat hs⟩

theorem Tile.le : ∀ {spans : List Span} {start stop : Nat}, Tile start spans stop → start ≤ stop
  | [], _, _, h => Nat.le_of_eq h
  | s :: _, _, _, ⟨h, h', hrest⟩ => by
    have := hrest.le
    omega

/-- Every span of a tiling is a proper part of what is tiled. -/
theorem Tile.bounds {s : Span} : ∀ {spans : List Span} {start stop : Nat},
    Tile start spans stop → s ∈ spans → start ≤ s.start ∧ s.start < s.stop ∧ s.stop ≤ stop
  | _ :: _, _, _, ⟨h, h', hrest⟩, hmem => by
    rcases List.mem_cons.1 hmem with rfl | hmem
    · have := hrest.le
      omega
    · have := hrest.bounds hmem
      omega

/-- Nothing is tiled by nothing only. -/
theorem Tile.eq_nil_iff : ∀ {spans : List Span} {start stop : Nat},
    Tile start spans stop → (spans = [] ↔ stop = start)
  | [], _, _, h => by simp [Tile] at h ⊢; exact h.symm
  | s :: _, _, _, ⟨h, h', hrest⟩ => by
    have := hrest.le
    simp; omega

/-- The bytes of a tiling are those in one of its spans. -/
theorem Tile.any_contains_iff (pos : Nat) : ∀ {spans : List Span} {start stop : Nat},
    Tile start spans stop → (spans.any (·.contains pos) = true ↔ start ≤ pos ∧ pos < stop)
  | [], _, _, h => by
    simp only [Tile] at h
    simp
    omega
  | s :: rest, start, stop, ⟨h, h', hrest⟩ => by
    have hle := hrest.le
    have ih : rest.any (·.contains pos) = true ↔ s.stop ≤ pos ∧ pos < stop :=
      hrest.any_contains_iff pos
    have hs : s.contains pos = true ↔ s.start ≤ pos ∧ pos < s.stop := by simp [contains]
    rw [List.any_cons, Bool.or_eq_true, hs]
    constructor
    · rintro (hin | hin)
      · omega
      · have := ih.1 hin
        omega
    · intro hin
      by_cases hlt : pos < s.stop
      · left; omega
      · right; exact ih.2 (by omega)

end Span

/-- Spans say something about the bytes that they tile and about no others. -/
theorem Styling.isSome_tokenAt?_iff {r : Styling} {start stop pos : Nat}
    (h : Span.Tile start r.spans.toList stop) :
    (r.tokenAt? pos).isSome = true ↔ start ≤ pos ∧ pos < stop := by
  rw [Styling.tokenAt?, Array.findSomeRev?_eq_findSome?_reverse, Array.isSome_findSome?,
    Array.any_reverse, ← h.any_contains_iff pos, ← Array.any_toList]
  have hsome (s : Span) : (if s.contains pos = true then some s.token else none).isSome
      = s.contains pos := by
    cases s.contains pos <;> rfl
  simp only [hsome]

namespace Span

/-- A byte is in one span of a tiling only. -/
theorem Tile.eq_of_contains {s s' : Span} {pos : Nat} (hs : s.contains pos = true)
    (hs' : s'.contains pos = true) : ∀ {spans : List Span} {start stop : Nat},
    Tile start spans stop → s ∈ spans → s' ∈ spans → s' = s
  | x :: rest, _, _, ⟨_, _, hrest⟩, hmem, hmem' => by
    have hin := hs
    have hin' := hs'
    simp only [contains, Bool.and_eq_true, decide_eq_true_eq] at hin hin'
    rcases List.mem_cons.1 hmem with hx | hmem
    · rcases List.mem_cons.1 hmem' with hx' | hmem'
      · rw [hx, hx']
      · have := hrest.bounds hmem'
        subst hx
        omega
    · rcases List.mem_cons.1 hmem' with hx' | hmem'
      · have := hrest.bounds hmem
        subst hx'
        omega
      · exact hrest.eq_of_contains hs hs' hmem hmem'

end Span

/-- The bytes of a span have its token. -/
theorem Styling.tokenAt?_of_mem {r : Styling} {start stop pos : Nat}
    (h : Span.Tile start r.spans.toList stop) {s : Span} (hs : s ∈ r.spans)
    (hpos : s.contains pos = true) : r.tokenAt? pos = some s.token := by
  rw [Styling.tokenAt?, Array.findSomeRev?_eq_findSome?_reverse]
  cases hlook : r.spans.reverse.findSome? fun s => if s.contains pos then some s.token else none with
  | none =>
    have hnone := Array.findSome?_eq_none_iff.1 hlook s (by simpa using hs)
    rw [if_pos hpos] at hnone
    cases hnone
  | some token =>
    obtain ⟨x, hx, hxs⟩ := Array.exists_of_findSome?_eq_some hlook
    split at hxs
    · rename_i hin
      obtain rfl := h.eq_of_contains hpos hin (Array.mem_toList_iff.2 hs)
        (Array.mem_toList_iff.2 (by simpa using hx))
      exact hxs.symm
    · cases hxs

/-! ## 2. Walks by characters -/

namespace Text

variable (t : Text)

theorem advance_succ (n pos : Nat) :
    t.advance (n + 1) pos
      = if t.size ≤ t.advance n pos then t.advance n pos
        else t.advance n pos + (t.charAt (t.advance n pos)).width := by
  induction n generalizing pos with
  | zero => rfl
  | succ n ih =>
    rw [advance]
    split
    · rename_i hs
      rw [advance, if_pos hs, if_pos hs]
    · rename_i hs
      rw [ih, show t.advance (n + 1) pos = t.advance n (pos + (t.charAt pos).width) by
        rw [advance, if_neg hs]]

theorem advance_mono (pos : Nat) {m n : Nat} (h : m ≤ n) : t.advance m pos ≤ t.advance n pos := by
  induction h with
  | refl => exact Nat.le_refl _
  | @step n _ ih =>
    rw [Nat.succ_eq_add_one, advance_succ]
    split
    · exact ih
    · omega

theorem advance_le_size {pos : Nat} (h : pos ≤ t.size) : ∀ n, t.advance n pos ≤ t.size
  | 0 => h
  | n + 1 => by
    rw [advance_succ]
    split
    · exact advance_le_size h n
    · rename_i hlt
      exact t.add_width_le_size (Nat.lt_of_not_le hlt)

/-- `stop` is the first position at or behind `goal` on the walk by characters from
`start`. -/
def WalksTo (start goal stop : Nat) : Prop :=
  (∃ n, t.advance n start = stop) ∧ goal ≤ stop
    ∧ ∀ n, goal ≤ t.advance n start → stop ≤ t.advance n start

variable {t}

theorem walksTo_of_advance {start goal n : Nat} (hgoal : goal ≤ t.advance n start)
    (hbefore : ∀ m < n, t.advance m start < goal) : t.WalksTo start goal (t.advance n start) := by
  refine ⟨⟨n, rfl⟩, hgoal, ?_⟩
  intro m hm
  by_cases hlt : m < n
  · have := hbefore m hlt
    omega
  · exact t.advance_mono start (by omega)

/-- A walk does not step over a line start, nor over the end of the text. -/
theorem advance_le_or_eq {start goal : Nat} (hstart : start ≤ goal)
    (hgoal : goal ∈ t.starts ∨ goal = t.size) (n : Nat) :
    t.advance n start ≤ goal ∨ ∃ m, t.advance m start = goal := by
  have hsize : goal ≤ t.size := by
    rcases hgoal with hmem | rfl
    · exact t.le_size_of_mem_starts hmem
    · exact Nat.le_refl _
  induction n with
  | zero => exact Or.inl hstart
  | succ n ih =>
    rcases ih with hle | hm
    · rcases Nat.lt_or_eq_of_le hle with hlt | heq
      · left
        rw [advance_succ, if_neg (by omega)]
        rcases hgoal with hmem | rfl
        · exact add_width_le_of_isStop (t.isStop_of_mem_starts hmem (by omega)) hlt
        · exact t.add_width_le_size hlt
      · exact Or.inr ⟨n, heq⟩
    · exact Or.inr hm

theorem WalksTo.eq_goal {start goal stop : Nat} (h : t.WalksTo start goal stop)
    (hstart : start ≤ goal) (hgoal : goal ∈ t.starts ∨ goal = t.size) : stop = goal := by
  obtain ⟨⟨n, rfl⟩, hle, hfirst⟩ := h
  rcases advance_le_or_eq hstart hgoal n with hn | ⟨m, hm⟩
  · exact Nat.le_antisymm hn hle
  · have := hfirst m (Nat.le_of_eq hm.symm)
    omega

end Text

/-! ## 3. Scanners -/

namespace Scanner

variable {t : Text} {s r : Scanner t}

/-- What is painted since `start` tiles the text up to the mark, and the mark is not
ahead of the cursor. -/
structure Painted (start : Nat) (s : Scanner t) : Prop where
  tile : Span.Tile start s.spans.toList s.mark
  mark_le : s.mark ≤ min s.pos t.size

theorem painted_start {start : Nat} (h : start ≤ t.size) (length : Nat) (token : Token) :
    Painted start (Scanner.start t start length token) :=
  ⟨rfl, Nat.le_min.2 ⟨Nat.le_refl start, h⟩⟩

/-- Whatever is painted next, the spans tile the text up to the mark. -/
theorem tile_paintTo {start : Nat} (h : Span.Tile start s.spans.toList s.mark) (stop : Nat)
    (token : Token) :
    Span.Tile start (s.paintTo stop token).spans.toList (s.paintTo stop token).mark := by
  simp only [paintTo]
  split
  · rename_i hlt
    show Span.Tile start (s.spans.push ⟨s.mark, min stop t.size, token⟩).toList _
    rw [Array.toList_push]
    exact Span.Tile.concat (s := ⟨s.mark, min stop t.size, token⟩) hlt h
  · exact h

theorem Painted.paint {start : Nat} (h : Painted start s) (token : Token) :
    Painted start (s.paintTo s.pos token) := by
  have hmark := h.mark_le
  refine ⟨tile_paintTo h.tile s.pos token, ?_⟩
  rw [mark_paintTo, toCursor_paintTo]
  omega

theorem Painted.reach {start : Nat} (h : Painted start s) (hr : Reach s r) : Painted start r := by
  induction hr with
  | refl => exact h
  | @forward r _ ih =>
    have := r.toCursor.pos_le_forward
    have := ih.mark_le
    exact ⟨ih.tile, by simp only [mark_forward, toCursor_forward]; omega⟩
  | paint token _ ih => exact ih.paint token
  | relabel token _ ih => exact ⟨ih.tile, ih.mark_le⟩
  | note state _ ih => exact ⟨ih.tile, ih.mark_le⟩

/-- Finishing paints all that was walked over. -/
theorem Painted.mark_finish {start : Nat} (h : Painted start s) :
    s.finish.mark = min s.pos t.size := by
  have := h.mark_le
  rw [finish, mark_paintTo]
  omega

/-- The cursor stands at the end of some characters from `start`, all of them before the
end of the walk. -/
def Strides (start : Nat) (s : Scanner t) : Prop :=
  s.Measured ∧ s.stop ≤ t.size + 1 ∧
    ∃ n, t.advance n start = min s.pos t.size ∧ ∀ m < n, t.advance m start < s.stop

theorem strides_start {start length : Nat} (h : start + length ≤ t.size) (token : Token) :
    Strides start (Scanner.start t start length token) := by
  refine ⟨Cursor.measured_start t start length, (Cursor.inSync_start h).stop_le, 0, ?_, ?_⟩
  · show start = min start t.size
    omega
  · intro m hm
    omega

theorem Strides.reach {start : Nat} (h : Strides start s) (hr : Reach s r) : Strides start r := by
  induction hr with
  | refl => exact h
  | @forward r _ ih =>
    obtain ⟨hm, hstop, n, hn, hbefore⟩ := ih
    refine ⟨hm.forward, by simpa using hstop, ?_⟩
    simp only [toCursor_forward, Cursor.forward_stop]
    cases hmore : r.more with
    | false => exact ⟨n, by rw [hn, Cursor.forward_of_not_more hmore], hbefore⟩
    | true =>
      have hlt := Cursor.more_iff.1 hmore
      rw [hm.pos_forward hmore]
      by_cases hs : r.pos < t.size
      · refine ⟨n + 1, ?_, ?_⟩
        · have := t.add_width_le_size hs
          rw [t.advance_succ, hn, if_neg (by omega), Nat.min_eq_left (by omega : r.pos ≤ t.size)]
          omega
        · intro m hm
          rcases Nat.lt_succ_iff_lt_or_eq.1 hm with hm | rfl
          · exact hbefore m hm
          · omega
      · exact ⟨n, by rw [hn]; omega, hbefore⟩
  | paint token _ ih =>
    obtain ⟨hm, hstop, hn⟩ := ih
    simp only [Strides, toCursor_paintTo]
    exact ⟨hm, hstop, hn⟩
  | relabel token _ ih => exact ih
  | note state _ ih => exact ih

/-- A walk that has ended has come to the first position at or behind the end of its
range. -/
theorem Strides.walksTo {start goal : Nat} (h : Strides start s) (hgoal : goal ≤ t.size)
    (hstop : s.stop = if goal = t.size then goal + 1 else goal) (hmore : s.more = false) :
    t.WalksTo start goal (min s.pos t.size) := by
  obtain ⟨-, -, n, hn, hbefore⟩ := h
  have hend : s.stop ≤ s.pos := by simpa [Cursor.more] using hmore
  rw [← hn]
  by_cases hsize : goal = t.size
  · rw [if_pos hsize] at hstop
    refine ⟨⟨n, rfl⟩, by omega, ?_⟩
    intro m hm
    omega
  · rw [if_neg hsize] at hstop
    apply Text.walksTo_of_advance
    · omega
    · intro m hm
      have := hbefore m hm
      omega

end Scanner

end Restyle
