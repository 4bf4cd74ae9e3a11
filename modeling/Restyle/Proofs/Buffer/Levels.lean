/-
Restyle.Proofs.Buffer.Levels — what a buffer holds after fold levels are
stored.

Of all the levels that a list has for a line the last counts: `levelOf?`
looks it up, packed as it is stored. A buffer takes that over and keeps
the levels of the other lines (`level_setLevels`). `Holds` says that it
has, for the first lines, the levels of a list.
-/
import Restyle.Proofs.Buffer.Restyle

namespace Restyle

/-! ## 1. Lists of levels -/

/-- The packed level that a list has for `line`, if it has one. -/
def levelOf? : List (Nat × FoldLevel) → Nat → Option Int
  | [], _ => none
  | e :: rest, line => (levelOf? rest line).or (if e.1 = line then some e.2.pack else none)

theorem levelOf?_append (xs ys : List (Nat × FoldLevel)) (line : Nat) :
    levelOf? (xs ++ ys) line = (levelOf? ys line).or (levelOf? xs line) := by
  induction xs with
  | nil => simp [levelOf?]
  | cons e xs ih => simp [levelOf?, ih, Option.or_assoc]

theorem isSome_levelOf?_iff {levels : List (Nat × FoldLevel)} {line : Nat} :
    (levelOf? levels line).isSome = true ↔ line ∈ levels.map Prod.fst := by
  induction levels with
  | nil => simp [levelOf?]
  | cons e levels ih =>
    rw [levelOf?, Option.isSome_or, Bool.or_eq_true, ih]
    by_cases heq : e.1 = line
    · simp [heq]
    · have hne : ¬ line = e.1 := fun h => heq h.symm
      simp [heq, hne]

/-- Lists that say the same when packed say the same of every line. -/
theorem levelOf?_congr {xs ys : List (Nat × FoldLevel)}
    (h : xs.map (fun e => (e.1, e.2.pack)) = ys.map (fun e => (e.1, e.2.pack))) (line : Nat) :
    levelOf? xs line = levelOf? ys line := by
  induction xs generalizing ys with
  | nil =>
    cases ys with
    | nil => rfl
    | cons e ys => cases h
  | cons e xs ih =>
    cases ys with
    | nil => cases h
    | cons e' ys =>
      simp only [List.map_cons, List.cons.injEq, Prod.mk.injEq] at h
      obtain ⟨⟨hline, hpack⟩, hrest⟩ := h
      simp only [levelOf?, ih hrest, hline, hpack]

/-! ## 2. Buffers -/

namespace Buffer

@[simp] theorem text_setLevels (b : Buffer) (levels : List (Nat × FoldLevel)) :
    (b.setLevels levels).text = b.text := by
  unfold setLevels
  induction levels generalizing b with
  | nil => rfl
  | cons e levels ih => exact ih _

@[simp] theorem styles_setLevels (b : Buffer) (levels : List (Nat × FoldLevel)) :
    (b.setLevels levels).styles = b.styles := by
  unfold setLevels
  induction levels generalizing b with
  | nil => rfl
  | cons e levels ih => exact ih _

@[simp] theorem lineStates_setLevels (b : Buffer) (levels : List (Nat × FoldLevel)) :
    (b.setLevels levels).lineStates = b.lineStates := by
  unfold setLevels
  induction levels generalizing b with
  | nil => rfl
  | cons e levels ih => exact ih _

@[simp] theorem tokenAt_setLevels (b : Buffer) (levels : List (Nat × FoldLevel)) (pos : Nat) :
    (b.setLevels levels).tokenAt pos = b.tokenAt pos := by
  simp [tokenAt]

theorem level_setLevel (b : Buffer) (line line' : Nat) (level : Int)
    (h : line' < b.levels.size) :
    (b.setLevel line level).level line' = if line = line' then level else b.level line' := by
  simp only [setLevel, Buffer.level, Array.getD_eq_getD_getElem?, Array.getElem?_setIfInBounds]
  by_cases heq : line = line'
  · subst heq
    simp [h]
  · simp [heq]

/-- Storing levels in order leaves each line with the last one stored for it. -/
theorem level_setLevels (b : Buffer) (levels : List (Nat × FoldLevel)) {line : Nat}
    (h : line < b.levels.size) :
    (b.setLevels levels).level line = (levelOf? levels line).getD (b.level line) := by
  unfold setLevels
  induction levels generalizing b with
  | nil => simp [levelOf?]
  | cons e levels ih =>
    have hsize : line < (b.setLevel e.1 e.2.pack).levels.size := by simpa [setLevel] using h
    rw [List.foldl_cons, ih _ hsize, level_setLevel _ _ _ _ h, levelOf?]
    cases levelOf? levels line with
    | some level => simp
    | none => by_cases heq : e.1 = line <;> simp [heq]

theorem level_setLevels_of_some (b : Buffer) {levels : List (Nat × FoldLevel)} {line : Nat}
    {level : Int} (h : line < b.levels.size) (hl : levelOf? levels line = some level) :
    (b.setLevels levels).level line = level := by
  simp [level_setLevels b levels h, hl]

theorem level_setLevels_of_none (b : Buffer) {levels : List (Nat × FoldLevel)} {line : Nat}
    (h : line < b.levels.size) (hl : levelOf? levels line = none) :
    (b.setLevels levels).level line = b.level line := by
  simp [level_setLevels b levels h, hl]

/-- What is stored does not depend on the text. -/
theorem levels_setLevels_congr {b b' : Buffer} (h : b'.levels = b.levels)
    (levels : List (Nat × FoldLevel)) :
    (b'.setLevels levels).levels = (b.setLevels levels).levels := by
  unfold setLevels
  induction levels generalizing b b' with
  | nil => exact h
  | cons e levels ih => exact ih (congrArg (·.setIfInBounds e.1 e.2.pack) h)

/-- The lines before `n` have in the buffer the levels that the list has for them. -/
def Holds (b : Buffer) (levels : List (Nat × FoldLevel)) (n : Nat) : Prop :=
  ∀ line < n, levelOf? levels line = some (b.level line)

theorem Holds.mono {b : Buffer} {levels : List (Nat × FoldLevel)} {m n : Nat}
    (h : b.Holds levels n) (hm : m ≤ n) : b.Holds levels m :=
  fun line hline => h line (Nat.lt_of_lt_of_le hline hm)

/-- Storing what a list of levels has from line `m` on makes a buffer hold it up to `n`, if
it held it up to `m`. -/
theorem Holds.setLevels {b : Buffer} {whole levels : List (Nat × FoldLevel)} {m n : Nat}
    (h : b.Holds whole m) (hn : n ≤ b.levels.size)
    (hbefore : ∀ line < m, levelOf? levels line = none)
    (hfrom : ∀ line, m ≤ line → line < n →
      (levelOf? whole line).isSome = true ∧ levelOf? levels line = levelOf? whole line) :
    (b.setLevels levels).Holds whole n := by
  intro line hline
  rcases Nat.lt_or_ge line m with hlt | hge
  · rw [level_setLevels_of_none b (by omega) (hbefore line hlt)]
    exact h line hlt
  · obtain ⟨hsome, hsame⟩ := hfrom line hge hline
    obtain ⟨level, hlevel⟩ := Option.isSome_iff_exists.1 hsome
    rw [level_setLevels_of_some b (by omega) (hsame.trans hlevel)]
    exact hlevel

/-- Well-formed buffers of one text with the same levels have the same table of them. -/
theorem levels_ext {b b' : Buffer} (hb : b.WellFormed) (hb' : b'.WellFormed)
    (ht : b'.text = b.text) (h : ∀ line < b.text.lineCount, b'.level line = b.level line) :
    b'.levels = b.levels := by
  have hs := hb.levels_size
  have hs' := hb'.levels_size
  rw [ht] at hs'
  apply Array.ext (by rw [hs, hs'])
  intro line hline' hline
  have hlook := h line (by omega)
  simpa [level, Array.getD_eq_getD_getElem?, hline, hline'] using hlook

end Buffer

end Restyle
