/-
Restyle.Proofs.Haskell.Imports — blocks of imports in the fold levels of
Haskell.

The folder takes a line for an import if it has the letters of the word at
its start, and puts it one level below the first such line of the text
(`LaterImport`). In a run of lines that start with the word itself, all
lines but the first follow an import (`FollowsImport`), and to these the
folder gives the level that makes the run one fold
(`ImportRun.exists_level`). The first line of a run opens that fold unless
it goes astray (`Astray`): another import, somewhere before, has put it a
level down already (`ImportRun.exists_level_first`).

What a run over the text says of a line of code is told here of any
columns; only reading it back needs a bound.
-/
import Mathlib.Data.Nat.Find
import Restyle.Proofs.Haskell.Levels

namespace Restyle.Haskell.Folding

variable {o : Options} {b : Buffer} {line mid first last j : Nat}

/-! ## 1. From one line of code to the next -/

/-- Two lines of code with none in between. -/
structure Neighbours (b : Buffer) (line next : Nat) : Prop where
  lt : line < next
  code : HoldsCode b line
  code' : HoldsCode b next
  between : ∀ j < next, line < j → ¬ HoldsCode b j

theorem neighbours_iff {next : Nat} :
    Neighbours b line next ↔ line < next ∧ HoldsCode b line ∧ HoldsCode b next
      ∧ ∀ j < next, line < j → ¬ HoldsCode b j :=
  ⟨fun h => ⟨h.lt, h.code, h.code', h.between⟩, fun ⟨lt, code, code', between⟩ =>
    ⟨lt, code, code', between⟩⟩

instance (b : Buffer) (line next : Nat) : Decidable (Neighbours b line next) :=
  decidable_of_iff _ neighbours_iff.symm

/-- Around every line from one line of code up to another stand neighbours, the first of them
perhaps on it. -/
theorem exists_neighbours (hfirst : HoldsCode b first) (hlast : HoldsCode b last)
    (hj : first ≤ j) (hlt : j < last) :
    ∃ line next, first ≤ line ∧ line ≤ j ∧ j < next ∧ next ≤ last ∧ Neighbours b line next := by
  have hex : ∃ n, j < n ∧ HoldsCode b n := ⟨last, hlt, hlast⟩
  obtain ⟨hafter, hcode'⟩ := Nat.find_spec hex
  have hbefore := Nat.findGreatest_le (P := HoldsCode b) j
  refine ⟨Nat.findGreatest (HoldsCode b) j, Nat.find hex, Nat.le_findGreatest hj hfirst,
    hbefore, hafter, Nat.find_le ⟨hlt, hlast⟩, ?_⟩
  refine ⟨Nat.lt_of_le_of_lt hbefore hafter, Nat.findGreatest_spec hj hfirst, hcode',
    fun k hk hgt hcode => ?_⟩
  rcases Nat.lt_or_ge j k with hjk | hkj
  · exact Nat.find_min hex hk ⟨hjk, hcode⟩
  · exact Nat.findGreatest_is_greatest hgt hkj hcode

/-- From a line that it stands on a run goes to the next line of code, also if it does not see
that one for code. -/
theorem next_stateAt_of_holdsCode (hhead : IsHead b line) (hlt : line < mid)
    (hcode : HoldsCode b mid) (hle : mid ≤ b.text.lastLine)
    (hno : ∀ j, line < j → j < mid → isCode b j = false) :
    next o b (stateAt o b line) = stateAt o b mid := by
  cases hsees : isCode b mid with
  | true => exact next_stateAt hhead hlt hsees hno
  | false =>
    have hlast := eq_lastLine_of_holdsCode hcode hle hsees
    have hbefore : (stateAt o b line).line < b.text.lastLine := by
      rw [line_stateAt]
      omega
    obtain ⟨hgt, -, hstop⟩ := next_spec o b (stateAt o b line)
    have hline : (next o b (stateAt o b line)).line = mid := by
      refine Nat.le_antisymm (hlast ▸ line_next_le hbefore) (Nat.le_of_not_lt fun hlt' => ?_)
      rcases hstop with hend | hother
      · omega
      · rw [hno _ hgt hlt'] at hother
        cases hother
    have hland : (landing b (stateAt o b line)).1 = mid := hline
    have hindent := landing_snd hbefore
    rw [hland, if_neg fun hwhite => hcode.1 hwhite.2] at hindent
    rw [next_eq, hland, hindent, ← seen_eq hhead hlt hno]
    rfl

/-- A run to the end of the text from a line of code says of it and the lines behind what a
run from the first line says of them. -/
theorem levelOf?_runTo_of_holdsCode (h : HoldsCode b line) (hj : line ≤ j)
    (hle : j ≤ b.text.lastLine) :
    levelOf? (runTo o b b.text.lastLine (stateAt o b line)).1 j = levelOf? (whole o b) j := by
  cases hsees : isCode b line with
  | true => exact levelOf?_runTo_lastLine (Or.inr hsees) hj hle
  | false =>
    rcases Nat.eq_zero_or_pos line with rfl | hpos
    · exact levelOf?_runTo_lastLine (Or.inl rfl) hj hle
    · -- it is the last line, and the run comes to it from the line of code before
      have hlast := eq_lastLine_of_holdsCode h (Nat.le_trans hj hle) hsees
      have hlt := codeBefore_lt (b := b) hpos
      have hhead := isHead_codeBefore b line
      have hnext := next_stateAt_of_holdsCode (o := o) hhead hlt h (Nat.le_of_eq hlast)
        fun k hk hk' => isCode_eq_false_of_codeBefore_lt hk hk'
      have hbefore : (stateAt o b (codeBefore b line)).line ≤ j := by
        rw [line_stateAt]
        omega
      rw [← levelOf?_runTo_lastLine hhead hbefore hle, Stop.levelOf?_runTo hbefore hle, hnext,
        if_neg (by rw [line_stateAt]; omega)]

/-- What the levels of a text say from a line of code up to where a run goes from it. -/
theorem levelOf?_whole_of_holdsCode (h : HoldsCode b line) (hj : line ≤ j)
    (hle : j ≤ b.text.lastLine) (hlt : j < (next o b (stateAt o b line)).line) :
    levelOf? (whole o b) j
      = levelOf? (levelsBetween o b (stateAt o b line) (next o b (stateAt o b line))) j := by
  rw [← levelOf?_runTo_of_holdsCode h hj hle, Stop.levelOf?_runTo hj hle, if_pos hlt]

theorem levelOf?_own_of_holdsCode (h : HoldsCode b line) (hle : line ≤ b.text.lastLine) :
    levelOf? (whole o b) line
      = some (ownLevel o (stateAt o b line) (next o b (stateAt o b line))).pack := by
  have hgt := (next_spec o b (stateAt o b line)).1
  rw [levelOf?_whole_of_holdsCode h (Nat.le_refl _) hle hgt]
  exact (levelOf?_levelsBetween hgt).1

namespace Neighbours

variable {next : Nat} (h : Neighbours b line next)
include h

/-- A line of code opens a fold if the next one is deeper, whatever put it there. -/
theorem header_ownLevel_iff :
    (ownLevel o (stateAt o b line) (stateAt o b next)).header = true
      ↔ (stateAt o b line).level.level < (stateAt o b next).level.level := by
  simp [ownLevel, Stop.white_stateAt, white_indent_of_holdsCode h.code]

variable (hle : next ≤ b.text.lastLine)
include hle

theorem next_stateAt : Folding.next o b (stateAt o b line) = stateAt o b next := by
  have hcode := (isCode_iff (Nat.lt_of_lt_of_le h.lt hle)).2 h.code
  refine next_stateAt_of_holdsCode (Or.inr hcode) h.lt h.code' hle fun j hj hlt => ?_
  rw [← Bool.not_eq_true]
  exact fun hsees => h.between j hlt hj (holdsCode_of_isCode hsees)

theorem levelOf?_own :
    levelOf? (whole o b) line = some (ownLevel o (stateAt o b line) (stateAt o b next)).pack := by
  have hlt := h.lt
  rw [levelOf?_own_of_holdsCode h.code (by omega), h.next_stateAt hle]

/-- The lines in between have one of two levels. -/
theorem levelOf?_between (hj : line < j) (hlt : j < next) :
    ∃ level, (level = max (stateAt o b line).level.level (stateAt o b next).level.level
        ∨ level = (stateAt o b next).level.level)
      ∧ levelOf? (whole o b) j = some (asideLevel o b j level).pack := by
  have hnext := h.next_stateAt (o := o) hle
  have hgt : (stateAt o b line).line < (stateAt o b next).line := h.lt
  have hbefore : j < (Folding.next o b (stateAt o b line)).line := by
    rw [hnext]
    exact hlt
  obtain ⟨-, cut, hcut⟩ := levelOf?_levelsBetween (o := o) (b := b) hgt
  rw [levelOf?_whole_of_holdsCode h.code (Nat.le_of_lt hj) (by omega) hbefore, hnext,
    hcut j hj hlt]
  refine ⟨_, ?_, rfl⟩
  split
  · exact Or.inl rfl
  · exact Or.inr rfl

end Neighbours

/-! ## 2. Imports -/

/-- The first token of a line is the word `import`, at its start. -/
def StartsWithImport (b : Buffer) (line : Nat) : Prop :=
  (∀ i < importWord.length, importWord[i]? = some (b.text.byteAt (b.text.lineStart line + i)))
    ∧ ∃ s ∈ b.log, s.start = b.text.lineStart line
      ∧ s.stop = b.text.lineStart line + importWord.length

instance (b : Buffer) (line : Nat) : Decidable (StartsWithImport b line) :=
  inferInstanceAs (Decidable (_ ∧ _))

/-- A line starts with an import, and so does the line of code before it. -/
def FollowsImport (b : Buffer) (line : Nat) : Prop :=
  StartsWithImport b line ∧ ∃ j < line, StartsWithImport b j ∧ Neighbours b j line

instance (b : Buffer) (line : Nat) : Decidable (FollowsImport b line) :=
  inferInstanceAs (Decidable (_ ∧ ∃ j < _, _))

/-- A line is taken for a later one of a block of imports although it does not follow one. -/
def Astray (o : Options) (b : Buffer) (line : Nat) : Prop :=
  LaterImport o b line ∧ ¬ FollowsImport b line

instance (o : Options) (b : Buffer) (line : Nat) : Decidable (Astray o b line) :=
  inferInstanceAs (Decidable (_ ∧ _))

theorem StartsWithImport.isImport (h : StartsWithImport b line) (hon : o.foldImports = true) :
    isImport o b.text line = true := by
  refine isImport_iff.2 ⟨hon, fun i c hc => ?_⟩
  obtain ⟨hi, -⟩ := List.getElem?_eq_some_iff.1 hc
  exact Option.some.inj ((h.1 i hi).symm.trans hc)

theorem StartsWithImport.columns (h : StartsWithImport b line) : b.text.columns line = 0 :=
  columns_of_isImport (h.isImport (o := { foldImports := true }) rfl)

section

variable (hon : o.foldImports = true)
include hon

theorem FollowsImport.laterImport (h : FollowsImport b line) : LaterImport o b line := by
  obtain ⟨himport, j, hj, hbefore, hnext⟩ := h
  exact ⟨himport.isImport hon, j, hj, hbefore.isImport hon, Or.inr hnext.code⟩

/-- Either a line follows an import, or it goes astray. -/
theorem laterImport_iff_of_foldImports :
    LaterImport o b line ↔ FollowsImport b line ∨ Astray o b line := by
  by_cases hfollows : FollowsImport b line
  · exact iff_of_true (hfollows.laterImport hon) (Or.inl hfollows)
  · exact ⟨fun hlater => Or.inr ⟨hlater, hfollows⟩, fun h => (h.resolve_left hfollows).1⟩

end

/-! ## 3. Runs of imports -/

/-- From the line `first` up to `last` all code is imports, and the line of code before, if
there is one, is no import. -/
structure ImportRun (b : Buffer) (first last : Nat) : Prop where
  lt : first < last
  code : HoldsCode b first
  code' : HoldsCode b last
  imports : ∀ j ≤ last, first ≤ j → HoldsCode b j → StartsWithImport b j
  starts : ¬ FollowsImport b first

namespace ImportRun

variable (h : ImportRun b first last)
include h

/-- All lines of code but the first follow an import. -/
theorem followsImport (hj : first < j) (hle : j ≤ last) (hcode : HoldsCode b j) :
    FollowsImport b j := by
  obtain ⟨line, next, hline, hbefore, hafter, hnext, hn⟩ :=
    exists_neighbours h.code hcode (j := j - 1) (by omega) (by omega)
  obtain rfl : next = j := by omega
  have hlt := hn.lt
  exact ⟨h.imports next hle (by omega) hcode, line, hlt, h.imports line (by omega) hline hn.code,
    hn⟩

variable (hon : o.foldImports = true) (hlast : last ≤ b.text.lastLine)
include hon hlast

theorem level_stateAt_first :
    (stateAt o b first).level.level = FoldLevel.base + if Astray o b first then 1 else 0 := by
  have hlt := h.lt
  have himport := h.imports first (Nat.le_of_lt hlt) (Nat.le_refl _) h.code
  rw [level_stateAt_of_holdsCode h.code (by omega), himport.columns]
  simp only [laterImport_iff_of_foldImports hon, or_iff_right h.starts]
  simp

theorem level_stateAt_of_lt (hj : first < j) (hle : j ≤ last) (hcode : HoldsCode b j) :
    (stateAt o b j).level.level = FoldLevel.base + 1 := by
  have hfollows := h.followsImport hj hle hcode
  rw [level_stateAt_of_holdsCode hcode (by omega), hfollows.1.columns,
    if_pos (hfollows.laterImport hon)]
  rfl

/-- The first line has the level that its columns give it and opens a fold, unless it went
astray. -/
theorem exists_level_first :
    ∃ l : FoldLevel, levelOf? (whole o b) first = some l.pack
      ∧ (l.header = true ↔ ¬ Astray o b first) := by
  obtain ⟨line, next, hline, hbefore, hafter, hnext, hn⟩ :=
    exists_neighbours h.code h.code' (Nat.le_refl first) h.lt
  obtain rfl : line = first := by omega
  refine ⟨_, hn.levelOf?_own (by omega), ?_⟩
  rw [hn.header_ownLevel_iff, h.level_stateAt_first hon hlast,
    h.level_stateAt_of_lt hon hlast hn.lt hnext hn.code']
  split
  · rename_i hastray
    exact iff_of_false (Int.lt_irrefl _) fun hno => hno hastray
  · rename_i hno
    exact iff_of_true (by omega) hno

/-- The lines behind it, blank lines and comments too, are one level down. None of them opens a
fold of its own before the last. -/
theorem exists_level (hj : first < j) (hle : j ≤ last) :
    ∃ l : FoldLevel, levelOf? (whole o b) j = some l.pack ∧ l.level = FoldLevel.base + 1
      ∧ (j < last → l.header = false) := by
  rcases Nat.lt_or_eq_of_le hle with hlt | rfl
  · obtain ⟨line, next, hline, hbefore, hafter, hnext, hn⟩ :=
      exists_neighbours h.code h.code' (Nat.le_of_lt hj) hlt
    have hlevel' : (stateAt o b next).level.level = FoldLevel.base + 1 :=
      h.level_stateAt_of_lt hon hlast (by omega) hnext hn.code'
    rcases Nat.lt_or_eq_of_le hbefore with hbetween | rfl
    · -- an aside: no import around it is deeper than the next
      obtain ⟨level, hlevel, haside⟩ :=
        hn.levelOf?_between (o := o) (by omega) hbetween hafter
      refine ⟨_, haside, ?_, fun _ => rfl⟩
      have hle' : (stateAt o b line).level.level ≤ FoldLevel.base + 1 := by
        rcases Nat.lt_or_eq_of_le hline with hgt | rfl
        · exact Int.le_of_eq (h.level_stateAt_of_lt hon hlast hgt (by omega) hn.code)
        · rw [h.level_stateAt_first hon hlast]
          split <;> omega
      show level = FoldLevel.base + 1
      omega
    · have hlevel := h.level_stateAt_of_lt hon hlast hj (Nat.le_of_lt hlt) hn.code
      refine ⟨_, hn.levelOf?_own (by omega), hlevel, fun _ => ?_⟩
      rw [← Bool.not_eq_true, hn.header_ownLevel_iff, hlevel, hlevel']
      exact Int.lt_irrefl _
  · exact ⟨_, levelOf?_own_of_holdsCode h.code' hlast,
      h.level_stateAt_of_lt hon hlast hj (Nat.le_refl _) h.code',
      fun hlt => absurd hlt (Nat.lt_irrefl _)⟩

end ImportRun

end Restyle.Haskell.Folding
