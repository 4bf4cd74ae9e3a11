/-
Restyle.Proofs.Haskell.Folding — folding Haskell in pieces is folding it
at once.

A run over the text stands on its first line and then on every line of
code (`Leads.exists_of_isHead`). Where it stands on one, it knows nothing but the
first import that it met so far (`stateAt`): what the lines behind will be
does not matter. It has said the levels of all lines before (`Leads`).

A restart backs up to such a line, and of the import it remembers it keeps
what a run would know there. So if the lines before it have their levels,
a call gives the next ones theirs (`Folded.fold`), whatever it took the
lines behind its range to be when it looked ahead.
-/
import Restyle.Haskell.Folding
import Restyle.Proofs.Buffer.Editing

namespace Restyle.Haskell.Folding

variable {o : Options} {b b' : Buffer} {s : State}

/-! ## 1. Lines of code -/

/-- The empty line at the end of a text is white, and so is what is behind it. -/
theorem white_of_lineStart_eq {line : Nat} (h : b.text.lineStart line = b.text.size) :
    (indent b line).white = true := by
  unfold indent Indentation.level
  simp [h]

theorem le_lastLine_of_isCode {line : Nat} (h : isCode b line = true) :
    line ≤ b.text.lastLine := by
  rcases Nat.lt_or_ge b.text.lastLine line with hlt | hge
  · have hwhite := white_of_lineStart_eq (b.text.lineStart_of_lastLine_lt hlt)
    simp [isCode, hwhite] at h
  · exact hge

theorem white_of_isCode {line : Nat} (h : isCode b line = true) :
    (indent b line).white = false := by
  simp only [isCode, Bool.and_eq_true, Bool.not_eq_true'] at h
  exact h.1

/-- A line that folding stands on wherever it started: the first line, or one of code. -/
def IsHead (b : Buffer) (line : Nat) : Prop := line = 0 ∨ isCode b line = true

theorem codeBefore_le (b : Buffer) (n : Nat) : codeBefore b n ≤ n := by
  induction n with
  | zero => exact Nat.le_refl 0
  | succ n ih =>
    unfold codeBefore
    split <;> omega

theorem codeBefore_lt {n : Nat} (h : 0 < n) : codeBefore b n < n := by
  cases n with
  | zero => omega
  | succ n =>
    have := codeBefore_le b n
    unfold codeBefore
    split <;> omega

theorem isHead_codeBefore (b : Buffer) (n : Nat) : IsHead b (codeBefore b n) := by
  induction n with
  | zero => exact Or.inl rfl
  | succ n ih =>
    unfold codeBefore
    split
    · exact Or.inr ‹_›
    · exact ih

theorem isCode_eq_false_of_codeBefore_lt {line n : Nat} (h : codeBefore b n < line)
    (h' : line < n) : isCode b line = false := by
  induction n with
  | zero => omega
  | succ n ih =>
    unfold codeBefore at h
    split at h
    · omega
    · by_cases heq : line = n
      · subst heq
        simpa using ‹¬ isCode b line = true›
      · exact ih h (by omega)

theorem codeBefore_mono {m n : Nat} (h : m ≤ n) : codeBefore b m ≤ codeBefore b n := by
  rcases Nat.lt_or_ge (codeBefore b n) (codeBefore b m) with hlt | hge
  · rcases isHead_codeBefore b m with hzero | hcode
    · omega
    · have hle := codeBefore_le b m
      have hne : codeBefore b m ≠ m := by
        intro heq
        have := codeBefore_lt (b := b) (n := m) (by omega)
        omega
      rw [isCode_eq_false_of_codeBefore_lt hlt (by omega)] at hcode
      cases hcode
  · exact hge

/-! ## 2. What a run knows on a line -/

/-- The first import line that a run meets before a line. -/
def seen (o : Options) (b : Buffer) : Nat → Option Nat
  | 0 => none
  | line + 1 =>
    if line = 0 ∨ isCode b line = true then
      (withImport o b.text (seen o b line) line (indent b line)).1
    else seen o b line

/-- Where a run stands on a line. -/
def stateAt (o : Options) (b : Buffer) (line : Nat) : State :=
  let (firstImport, l) := withImport o b.text (seen o b line) line (indent b line)
  { line, level := l, firstImport }

@[simp] theorem line_stateAt (line : Nat) : (stateAt o b line).line = line := rfl

theorem withImport_fst (t : Text) (first : Option Nat) (line : Nat) (l : FoldLevel) :
    (withImport o t first line l).1
      = first.or (if isImport o t line then some line else none) := by
  unfold withImport countImport
  cases isImport o t line <;> cases first <;> rfl

theorem seen_lt {line f : Nat} (h : seen o b line = some f) : f < line := by
  induction line with
  | zero => cases h
  | succ line ih =>
    unfold seen at h
    split at h
    · rw [withImport_fst] at h
      cases hs : seen o b line with
      | some f' =>
        rw [hs] at h
        have := ih (hs.trans h)
        omega
      | none =>
        rw [hs] at h
        cases hi : isImport o b.text line <;> simp [hi] at h
        omega
    · have := ih h
      omega

/-- An import on a line `n` or behind does not count for what is known before `n`. -/
theorem filter_withImport {n line : Nat} (h : n ≤ line) (t : Text) (first : Option Nat)
    (l : FoldLevel) :
    (withImport o t first line l).1.filter (· < n) = first.filter (· < n) := by
  rw [withImport_fst]
  cases first with
  | some f => rfl
  | none => cases isImport o t line <;> simp [h]

theorem filter_seen {n line : Nat} (h : n ≤ line) :
    (seen o b line).filter (· < n) = seen o b n := by
  induction h with
  | refl =>
    cases hs : seen o b n with
    | none => rfl
    | some f => simp [seen_lt hs]
  | @step line hle ih =>
    rw [seen]
    split
    · rw [filter_withImport hle, ih]
    · exact ih

/-- From one line of code to the next nothing is learnt but on the first. -/
theorem seen_eq {line next : Nat} (hhead : IsHead b line) (hlt : line < next)
    (hno : ∀ j, line < j → j < next → isCode b j = false) :
    seen o b next = (stateAt o b line).firstImport := by
  induction hlt with
  | refl => exact if_pos hhead
  | @step next hlt ih =>
    have hlt : line < next := hlt
    have hnot : ¬ (next = 0 ∨ isCode b next = true) := by
      rw [hno next hlt (Nat.lt_succ_self next)]
      simp
      omega
    rw [seen, if_neg hnot]
    exact ih fun j hj hj' => hno j hj (by omega)

/-! ## 3. From one line of code to the next -/

/-- Skipping goes to the first line of code, or to the last line of the text. -/
theorem skipAsides_spec {fuel line : Nat} {l : FoldLevel}
    (hl : line ≤ b.text.lastLine → l.white = (indent b line).white)
    (hf : b.text.lastLine - line ≤ fuel) :
    line ≤ (skipAsides b fuel line l).1
      ∧ (∀ j, line ≤ j → j < (skipAsides b fuel line l).1 → isCode b j = false)
      ∧ (b.text.lastLine ≤ (skipAsides b fuel line l).1
        ∨ isCode b (skipAsides b fuel line l).1 = true)
      ∧ (skipAsides b fuel line l = (line, l)
        ∨ (skipAsides b fuel line l).2 = indent b (skipAsides b fuel line l).1) := by
  induction fuel generalizing line l with
  | zero =>
    unfold skipAsides
    exact ⟨Nat.le_refl _, fun j h h' => by omega, Or.inl (by omega), Or.inl rfl⟩
  | succ fuel ih =>
    unfold skipAsides
    split
    · rename_i hskip
      simp only [Bool.and_eq_true, decide_eq_true_eq, Bool.or_eq_true] at hskip
      obtain ⟨hle, hno, hstop, hlevel⟩ :=
        ih (fun _ => (rfl : (indent b (line + 1)).white = (indent b (line + 1)).white)) (by omega)
      refine ⟨by omega, ?_, hstop, ?_⟩
      · intro j hj hj'
        by_cases heq : j = line
        · rw [heq, isCode, ← hl (by omega)]
          rcases hskip.2 with hwhite | haside
          · simp [hwhite]
          · simp [haside]
        · exact hno j (by omega) hj'
      · rcases hlevel with hsame | hindent
        · rw [hsame]
          exact Or.inr rfl
        · exact Or.inr hindent
    · rename_i hstop
      refine ⟨Nat.le_refl _, fun j h h' => by omega, ?_, Or.inl rfl⟩
      by_cases hlast : line < b.text.lastLine
      · simp only [hlast, decide_true, Bool.true_and, Bool.not_eq_true,
          Bool.or_eq_false_iff] at hstop
        rw [hl (by omega)] at hstop
        simp [isCode, hstop]
      · exact Or.inl (by omega)

/-- The line that a run goes to from `s`, before imports are counted. -/
def landing (b : Buffer) (s : State) : Nat × FoldLevel :=
  skipAsides b (b.text.lastLine - (s.line + 1)) (s.line + 1) (levelAfter b s.line s.level)

theorem next_eq (o : Options) (b : Buffer) (s : State) :
    next o b s
      = { line := (landing b s).1
          level := (withImport o b.text s.firstImport (landing b s).1 (landing b s).2).2
          firstImport := (withImport o b.text s.firstImport (landing b s).1 (landing b s).2).1 } :=
  rfl

theorem white_levelAfter {line : Nat} (h : line + 1 ≤ b.text.lastLine) (l : FoldLevel) :
    (levelAfter b line l).white = (indent b (line + 1)).white := by
  simp only [levelAfter, if_pos h]
  cases hw : (indent b (line + 1)).white <;> simp [hw]

theorem levelAfter_of_isCode {line : Nat} (h : isCode b (line + 1) = true) (l : FoldLevel) :
    levelAfter b line l = indent b (line + 1) := by
  simp [levelAfter, le_lastLine_of_isCode h, white_of_isCode h]

theorem next_spec (o : Options) (b : Buffer) (s : State) :
    s.line < (next o b s).line
      ∧ (∀ j, s.line < j → j < (next o b s).line → isCode b j = false)
      ∧ (b.text.lastLine ≤ (next o b s).line ∨ isCode b (next o b s).line = true) := by
  obtain ⟨hle, hno, hstop, -⟩ := skipAsides_spec (b := b)
    (l := levelAfter b s.line s.level) (fun h => white_levelAfter h s.level) (Nat.le_refl _)
  exact ⟨hle, hno, hstop⟩

theorem level_landing (h : isCode b (landing b s).1 = true) :
    (landing b s).2 = indent b (landing b s).1 := by
  obtain ⟨-, -, -, hlevel⟩ := skipAsides_spec (b := b)
    (l := levelAfter b s.line s.level) (fun h => white_levelAfter h s.level) (Nat.le_refl _)
  rcases hlevel with hsame | hindent
  · have hline : (landing b s).1 = s.line + 1 := congrArg Prod.fst hsame
    rw [hline] at h ⊢
    exact (congrArg Prod.snd hsame).trans (levelAfter_of_isCode h _)
  · exact hindent

/-- From a line of code a run goes to the next, and knows there what any run knows. -/
theorem next_stateAt {line mid : Nat} (hhead : IsHead b line) (hlt : line < mid)
    (hcode : isCode b mid = true) (hno : ∀ j, line < j → j < mid → isCode b j = false) :
    next o b (stateAt o b line) = stateAt o b mid := by
  obtain ⟨hgt, hskip, hstop⟩ := next_spec o b (stateAt o b line)
  have hline : (next o b (stateAt o b line)).line = mid := by
    rcases Nat.lt_trichotomy (next o b (stateAt o b line)).line mid with hlt' | heq | hgt'
    · have hlast := le_lastLine_of_isCode hcode
      rcases hstop with hend | hother
      · omega
      · rw [hno _ hgt hlt'] at hother
        cases hother
    · exact heq
    · rw [hskip mid hlt hgt'] at hcode
      cases hcode
  have hland : (landing b (stateAt o b line)).1 = mid := hline
  have hlevel := level_landing (s := stateAt o b line) (by rw [hland]; exact hcode)
  rw [next_eq, hlevel, hland, ← seen_eq hhead hlt hno]
  rfl

/-! ## 4. Runs -/

/-- A run to line `last` with as much fuel as it needs. -/
def runTo (o : Options) (b : Buffer) (last : Nat) (s : State) : List (Nat × FoldLevel) × State :=
  run o b last (last + 1 - s.line) s

theorem run_fuel {last fuel fuel' : Nat} (h : last + 1 - s.line ≤ fuel)
    (h' : last + 1 - s.line ≤ fuel') : run o b last fuel' s = run o b last fuel s := by
  induction fuel generalizing fuel' s with
  | zero =>
    have hlt : ¬ s.line ≤ last := by omega
    cases fuel' with
    | zero => rfl
    | succ fuel' => simp [run, hlt]
  | succ fuel ih =>
    cases fuel' with
    | zero =>
      have hlt : ¬ s.line ≤ last := by omega
      simp [run, hlt]
    | succ fuel' =>
      have hnext := (next_spec o b s).1
      have hle : last + 1 - (next o b s).line ≤ fuel := by omega
      have hle' : last + 1 - (next o b s).line ≤ fuel' := by omega
      simp only [run, ih hle hle']

theorem runTo_of_lt {last : Nat} (h : last < s.line) : runTo o b last s = ([], s) := by
  rw [runTo, show last + 1 - s.line = 0 by omega, run]

theorem runTo_of_le {last : Nat} (h : s.line ≤ last) :
    runTo o b last s
      = (levelsBetween o b s (next o b s) ++ (runTo o b last (next o b s)).1,
        (runTo o b last (next o b s)).2) := by
  have hnext := (next_spec o b s).1
  have hle : last + 1 - (next o b s).line ≤ last - s.line := by omega
  have hfuel := run_fuel (o := o) (b := b) (Nat.le_refl (last + 1 - (next o b s).line)) hle
  rw [runTo, show last + 1 - s.line = last - s.line + 1 by omega, run, if_pos h]
  simp only [hfuel]
  rfl

/-! ### What a run says -/

theorem map_fst_asideLevels (after before : Int) (level : Int) (lines : List Nat) :
    (asideLevels o b after before level lines).map Prod.fst = lines := by
  induction lines generalizing level with
  | nil => rfl
  | cons line lines ih => simp [asideLevels, ih]

theorem isSome_levelOf?_levelsBetween {after : State} (h : s.line < after.line) {line : Nat} :
    (levelOf? (levelsBetween o b s after) line).isSome = true
      ↔ s.line ≤ line ∧ line < after.line := by
  rw [isSome_levelOf?_iff, levelsBetween, List.map_append, map_fst_asideLevels]
  simp only [List.map_cons, List.map_nil, List.mem_append, List.mem_reverse, List.mem_range'_1,
    List.mem_singleton]
  omega

/-- A run says the levels of all lines from its first on, and none before. -/
theorem isSome_levelOf?_runTo {last line : Nat} (hline : line ≤ last) :
    (levelOf? (runTo o b last s).1 line).isSome = true ↔ s.line ≤ line := by
  induction hn : last + 1 - s.line using Nat.strongRecOn generalizing s with
  | _ n ih =>
    by_cases hle : s.line ≤ last
    · have hnext := (next_spec o b s).1
      have hrest := ih (last + 1 - (next o b s).line) (by omega) (s := next o b s) rfl
      rw [runTo_of_le hle, levelOf?_append, Option.isSome_or, Bool.or_eq_true, hrest,
        isSome_levelOf?_levelsBetween hnext]
      omega
    · rw [runTo_of_lt (by omega)]
      simp [levelOf?]
      omega

/-- What a run learns of imports does not concern the lines before it. -/
theorem filter_firstImport_runTo {last n : Nat} (hn : n ≤ s.line) :
    (runTo o b last s).2.firstImport.filter (· < n) = s.firstImport.filter (· < n) := by
  induction hm : last + 1 - s.line using Nat.strongRecOn generalizing s with
  | _ m ih =>
    by_cases hle : s.line ≤ last
    · have hnext := (next_spec o b s).1
      have hrest := ih (last + 1 - (next o b s).line) (by omega) (s := next o b s) (by omega) rfl
      rw [runTo_of_le hle, hrest, next_eq]
      exact filter_withImport (Nat.le_trans hn (Nat.le_of_lt hnext)) ..
    · rw [runTo_of_lt (by omega)]

/-! ### Runs between lines of code -/

/-- Folding stands on `line`, a first line or one of code, and later on `mid`, the last of
the lines of code in between and behind; on the way it says `levels`. -/
inductive Leads (o : Options) (b : Buffer) (line : Nat) : List (Nat × FoldLevel) → Nat → Prop where
  | refl : Leads o b line [] line
  | step {levels : List (Nat × FoldLevel)} {mid next : Nat} (h : Leads o b line levels mid)
      (hhead : IsHead b mid) (hlt : mid < next) (hcode : isCode b next = true)
      (hno : ∀ j, mid < j → j < next → isCode b j = false) :
      Leads o b line (levels ++ levelsBetween o b (stateAt o b mid) (stateAt o b next)) next

namespace Leads

variable {line mid : Nat} {levels : List (Nat × FoldLevel)}

theorem le (h : Leads o b line levels mid) : line ≤ mid := by
  induction h with
  | refl => exact Nat.le_refl _
  | step _ _ hlt _ _ ih => omega

theorem trans {levels' : List (Nat × FoldLevel)} {last : Nat} (h : Leads o b line levels mid)
    (h' : Leads o b mid levels' last) : Leads o b line (levels ++ levels') last := by
  induction h' with
  | refl => rwa [List.append_nil]
  | step _ hhead hlt hcode hno ih =>
    rw [← List.append_assoc]
    exact ih.step hhead hlt hcode hno

/-- The lines before the last have their levels said. -/
theorem isSome_levelOf?_iff (h : Leads o b line levels mid) {j : Nat} :
    (levelOf? levels j).isSome = true ↔ line ≤ j ∧ j < mid := by
  induction h with
  | refl =>
    simp [levelOf?]
  | @step levels mid next hlead _ hlt _ _ ih =>
    have hle := hlead.le
    rw [levelOf?_append, Option.isSome_or, Bool.or_eq_true, ih,
      isSome_levelOf?_levelsBetween (by exact hlt)]
    simp only [line_stateAt]
    omega

/-- A run from the first of the lines comes to the last one, saying the levels on the way. -/
theorem runTo (h : Leads o b line levels mid) {last : Nat} (hle : mid ≤ last) :
    runTo o b last (stateAt o b line)
      = (levels ++ (Folding.runTo o b last (stateAt o b mid)).1,
        (Folding.runTo o b last (stateAt o b mid)).2) := by
  induction h with
  | refl => rfl
  | step _ hhead hlt hcode hno ih =>
    rw [ih (by omega), runTo_of_le (by rw [line_stateAt]; omega),
      next_stateAt hhead hlt hcode hno, List.append_assoc]

theorem exists_of_isHead (hline : IsHead b line) (hmid : IsHead b mid) (hle : line ≤ mid) :
    ∃ levels, Leads o b line levels mid := by
  induction hn : mid using Nat.strongRecOn generalizing mid with
  | _ n ih =>
    subst hn
    by_cases heq : line = mid
    · subst heq
      exact ⟨[], .refl⟩
    · have hlt := codeBefore_lt (b := b) (n := mid) (by omega)
      have hbefore : line ≤ codeBefore b mid := by
        rcases Nat.lt_or_ge (codeBefore b mid) line with hlt' | hge
        · rcases hline with hzero | hcode
          · omega
          · rw [isCode_eq_false_of_codeBefore_lt hlt' (by omega)] at hcode
            cases hcode
        · exact hge
      have hcode : isCode b mid = true := hmid.resolve_left (by omega)
      obtain ⟨levels, hlead⟩ := ih _ hlt (isHead_codeBefore b mid) hbefore rfl
      exact ⟨_, hlead.step (isHead_codeBefore b mid) hlt hcode
        fun j hj hj' => isCode_eq_false_of_codeBefore_lt hj hj'⟩

end Leads

theorem IsHead.le_lastLine {line : Nat} (h : IsHead b line) : line ≤ b.text.lastLine := by
  rcases h with rfl | hcode
  · exact Nat.zero_le _
  · exact le_lastLine_of_isCode hcode

/-- The levels of a whole text. -/
def whole (o : Options) (b : Buffer) : List (Nat × FoldLevel) :=
  (runTo o b b.text.lastLine (stateAt o b 0)).1

/-- A whole text says of the lines before one of code what is said on the way to it. -/
theorem Leads.levelOf?_whole {levels : List (Nat × FoldLevel)} {mid j : Nat}
    (h : Leads o b 0 levels mid) (hmid : IsHead b mid) (hj : j < mid) :
    levelOf? (whole o b) j = levelOf? levels j := by
  have hlast := hmid.le_lastLine
  have hrest := isSome_levelOf?_runTo (o := o) (b := b) (s := stateAt o b mid)
    (Nat.le_trans (Nat.le_of_lt hj) hlast)
  have hnone : levelOf? (Folding.runTo o b b.text.lastLine (stateAt o b mid)).1 j = none := by
    rw [← Option.not_isSome_iff_eq_none, hrest, line_stateAt]
    omega
  rw [whole, h.runTo hlast, levelOf?_append, hnone, Option.none_or]

/-- A run from a line of code says of the lines before a later one what a run from the
first line says of them. -/
theorem levelOf?_runTo_of_lt {line mid last j : Nat} (hline : IsHead b line)
    (hmid : IsHead b mid) (hle : line ≤ mid) (hlast : mid ≤ last) (hj : line ≤ j) (hj' : j < mid) :
    levelOf? (runTo o b last (stateAt o b line)).1 j = levelOf? (whole o b) j := by
  obtain ⟨before, hbefore⟩ := Leads.exists_of_isHead (o := o) (Or.inl rfl) hline (Nat.zero_le line)
  obtain ⟨levels, hlead⟩ := Leads.exists_of_isHead (o := o) hline hmid hle
  have hrest := isSome_levelOf?_runTo (o := o) (b := b) (s := stateAt o b mid)
    (Nat.le_trans (Nat.le_of_lt hj') hlast)
  have hnone : levelOf? (runTo o b last (stateAt o b mid)).1 j = none := by
    rw [← Option.not_isSome_iff_eq_none, hrest, line_stateAt]
    omega
  obtain ⟨level, hlevel⟩ := Option.isSome_iff_exists.1 (hlead.isSome_levelOf?_iff.2 ⟨hj, hj'⟩)
  rw [(hbefore.trans hlead).levelOf?_whole hmid hj', hlead.runTo hlast, levelOf?_append,
    levelOf?_append, hnone, hlevel]
  rfl

/-- A run to the end of the text from a line of code says of it and the lines behind what a
run from the first line says of them. -/
theorem levelOf?_runTo_lastLine {line j : Nat} (hline : IsHead b line) (hj : line ≤ j)
    (hj' : j ≤ b.text.lastLine) :
    levelOf? (runTo o b b.text.lastLine (stateAt o b line)).1 j = levelOf? (whole o b) j := by
  obtain ⟨before, hbefore⟩ := Leads.exists_of_isHead (o := o) (Or.inl rfl) hline (Nat.zero_le line)
  obtain ⟨level, hlevel⟩ := Option.isSome_iff_exists.1
    ((isSome_levelOf?_runTo (o := o) (s := stateAt o b line) hj').2 hj)
  rw [whole, hbefore.runTo hline.le_lastLine, levelOf?_append, hlevel]
  rfl

/-! ## 5. Calls -/

/-- The lines before the one that folding backs up to from `k` have the levels of the whole
text, and the import remembered is the one that a run knows of there. -/
structure Folded (o : Options) (b : Buffer) (firstImport : Option Nat) (k : Nat) : Prop where
  levels : b.Holds (whole o b) (codeBefore b (b.text.lineOf k))
  firstImport : firstImport.filter (· < codeBefore b (b.text.lineOf k))
    = seen o b (codeBefore b (b.text.lineOf k))

section

variable {f : Option Nat} {k : Nat}

theorem folded_zero (o : Options) (b : Buffer) (f : Option Nat) : Folded o b f 0 := by
  have hzero : codeBefore b (b.text.lineOf 0) = 0 := by
    rw [b.text.lineOf_zero]
    rfl
  constructor
  · intro line hline
    omega
  · rw [hzero]
    cases f <;> rfl

/-- What is known up to a position is known up to one before. -/
theorem Folded.mono (h : Folded o b f k) {k' : Nat} (hk : k' ≤ k) : Folded o b f k' := by
  have hle := codeBefore_mono (b := b) (b.text.lineOf_mono hk)
  refine ⟨h.levels.mono hle, ?_⟩
  rw [← filter_seen hle, ← h.firstImport, Option.filter_filter]
  congr 1
  funext j
  simp
  omega

theorem Folded.start_eq (h : Folded o b f k) :
    start o b f k = stateAt o b (codeBefore b (b.text.lineOf k)) := by
  simp only [start, h.firstImport]
  rfl

/-- The last line that a call says the level of. -/
def lastOf (t : Text) (k n : Nat) : Nat := min t.lastLine (lastLineOf t k n)

theorem Folded.levels_eq (ho : o.fold = true) (h : Folded o b f k) (n : Nat) :
    Folding.levels o b f k n
      = ((runTo o b (lastOf b.text k n) (stateAt o b (codeBefore b (b.text.lineOf k)))).1,
        (runTo o b (lastOf b.text k n)
          (stateAt o b (codeBefore b (b.text.lineOf k)))).2.firstImport) := by
  unfold Folding.levels
  rw [if_pos ho, h.start_eq]
  rfl

theorem lastOf_size (t : Text) : lastOf t 0 t.size = t.lastLine := by
  simp [lastOf, lastLineOf, Text.lastLine]

theorem lineOf_pred_of_mem_starts {t : Text} {p : Nat} (h : p ∈ t.starts) (hpos : 0 < p) :
    t.lineOf p = t.lineOf (p - 1) + 1 := by
  have hsucc := t.lineOf_succ (p - 1)
  have hb := (t.mem_starts_iff.1 h).resolve_left (by omega)
  rwa [Nat.sub_add_cancel hpos, hb, if_pos rfl] at hsucc

/-- A call comes to the line of code before the end of its range, if that is a line start or
the end of the text. -/
theorem codeBefore_le_lastOf {n : Nat} (hstop : k + n ∈ b.text.starts ∨ k + n = b.size) :
    codeBefore b (b.text.lineOf (k + n)) ≤ lastOf b.text k n := by
  have hhead := (isHead_codeBefore b (b.text.lineOf (k + n))).le_lastLine
  have hle := codeBefore_le b (b.text.lineOf (k + n))
  refine Nat.le_min.2 ⟨hhead, ?_⟩
  unfold lastLineOf
  split
  · exact hle
  · rename_i hne
    rcases Nat.eq_zero_or_pos (k + n) with hzero | hpos
    · rw [hzero, b.text.lineOf_zero] at hle ⊢
      omega
    · have hstart := hstop.resolve_right hne
      have hline := lineOf_pred_of_mem_starts hstart hpos
      have := codeBefore_lt (b := b) (n := b.text.lineOf (k + n)) (by omega)
      omega

/-- A call that starts where folding knows what it needs gives the next lines of code and
those before them their levels, and knows what it needs at its end. -/
theorem Folded.fold (ho : o.fold = true) (hb : b.WellFormed) (h : Folded o b f k) {n : Nat}
    (hstop : k + n ∈ b.text.starts ∨ k + n = b.size) :
    (b.setLevels (Folding.levels o b f k n).1).Holds (whole o b)
        (codeBefore b (b.text.lineOf (k + n)))
      ∧ (Folding.levels o b f k n).2.filter (· < codeBefore b (b.text.lineOf (k + n)))
        = seen o b (codeBefore b (b.text.lineOf (k + n))) := by
  have hline := isHead_codeBefore b (b.text.lineOf k)
  have hmid := isHead_codeBefore b (b.text.lineOf (k + n))
  have hle := codeBefore_mono (b := b) (b.text.lineOf_mono (Nat.le_add_right k n))
  have hlast := codeBefore_le_lastOf hstop
  have hcount := b.text.lineCount_eq_lastLine
  have hlines := hmid.le_lastLine
  rw [h.levels_eq ho]
  generalize codeBefore b (b.text.lineOf (k + n)) = mid at hmid hle hlast hlines ⊢
  constructor
  · apply h.levels.setLevels
    · rw [hb.levels_size]
      omega
    · intro j hj
      rw [← Option.not_isSome_iff_eq_none, isSome_levelOf?_runTo (by omega), line_stateAt]
      omega
    · intro j hj hj'
      obtain ⟨levels, hlead⟩ := Leads.exists_of_isHead (o := o) (Or.inl rfl) hmid (Nat.zero_le mid)
      refine ⟨?_, levelOf?_runTo_of_lt hline hmid hle hlast hj hj'⟩
      rw [hlead.levelOf?_whole hmid hj', hlead.isSome_levelOf?_iff]
      exact ⟨Nat.zero_le j, hj'⟩
  · obtain ⟨levels, hlead⟩ := Leads.exists_of_isHead (o := o) hline hmid hle
    rw [hlead.runTo hlast]
    dsimp only
    rw [filter_firstImport_runTo (Nat.le_refl mid), ← filter_seen (Nat.le_refl mid)]
    exact filter_withImport (Nat.le_refl mid) ..

/-- If it goes to the end of the text, all lines have their levels then. -/
theorem Folded.fold_to_end (ho : o.fold = true) (hb : b.WellFormed) (h : Folded o b f k) {n : Nat}
    (hn : k + n = b.size) :
    (b.setLevels (Folding.levels o b f k n).1).Holds (whole o b) b.text.lineCount := by
  have hline := isHead_codeBefore b (b.text.lineOf k)
  have hcount := b.text.lineCount_eq_lastLine
  have hlast : lastOf b.text k n = b.text.lastLine := by
    have heq : k + n = b.text.size := hn
    simp [lastOf, lastLineOf, heq, Text.lastLine]
  rw [h.levels_eq ho, hlast]
  apply h.levels.setLevels (Nat.le_of_eq hb.levels_size.symm)
  · intro j hj
    have hle := hline.le_lastLine
    rw [← Option.not_isSome_iff_eq_none, isSome_levelOf?_runTo (by omega), line_stateAt]
    omega
  · intro j hj hj'
    refine ⟨?_, levelOf?_runTo_lastLine hline hj (by omega)⟩
    rw [whole, isSome_levelOf?_runTo (by omega)]
    exact Nat.zero_le j

end

/-! ## 6. Other buffers -/

/-- The lines before `n` look the same to the folder. It asks of no white line whether it is
an aside. -/
structure Agrees (o : Options) (b b' : Buffer) (n : Nat) : Prop where
  indent : ∀ line < n, indent b' line = indent b line
  aside : ∀ line < n, (Folding.indent b line).white = false → isAside b' line = isAside b line
  imports : ∀ line < n, isImport o b'.text line = isImport o b.text line

namespace Agrees

variable {n : Nat} (h : Agrees o b b' n)
include h

theorem isCode {line : Nat} (hl : line < n) : isCode b' line = isCode b line := by
  rw [Folding.isCode, Folding.isCode, h.indent line hl]
  cases hw : (Folding.indent b line).white with
  | true => rfl
  | false => rw [h.aside line hl hw]

theorem isHead {line : Nat} (hl : line < n) : IsHead b' line ↔ IsHead b line := by
  rw [IsHead, IsHead, h.isCode hl]

theorem withImport {line : Nat} (hl : line < n) (first : Option Nat) (l : FoldLevel) :
    withImport o b'.text first line l = withImport o b.text first line l := by
  rw [Folding.withImport, Folding.withImport, h.imports line hl]

theorem seen {line : Nat} (hl : line ≤ n) : seen o b' line = seen o b line := by
  induction line with
  | zero => rfl
  | succ line ih =>
    rw [Folding.seen, Folding.seen, h.isCode hl, ih (Nat.le_of_lt hl), h.indent line hl,
      h.withImport hl]

theorem stateAt {line : Nat} (hl : line < n) : stateAt o b' line = stateAt o b line := by
  rw [Folding.stateAt, Folding.stateAt, h.seen (Nat.le_of_lt hl), h.indent line hl,
    h.withImport hl]

theorem codeBefore {line : Nat} (hl : line ≤ n) : codeBefore b' line = codeBefore b line := by
  induction line with
  | zero => rfl
  | succ line ih =>
    rw [Folding.codeBefore, Folding.codeBefore, h.isCode hl, ih (Nat.le_of_lt hl)]

theorem asideLevels (after before : Int) {lines : List Nat} (hl : ∀ line ∈ lines, line < n)
    (level : Int) :
    asideLevels o b' after before level lines = asideLevels o b after before level lines := by
  induction lines generalizing level with
  | nil => rfl
  | cons line lines ih =>
    have hline := hl line List.mem_cons_self
    rw [Folding.asideLevels, Folding.asideLevels, h.indent line hline, h.isCode hline]
    simp only [ih fun j hj => hl j (List.mem_cons_of_mem _ hj)]

theorem levelsBetween {s after : State} (hl : after.line ≤ n) :
    levelsBetween o b' s after = levelsBetween o b s after := by
  have hasides : ∀ line ∈ (List.range' (s.line + 1) (after.line - (s.line + 1))).reverse,
      line < n := by
    intro line hline
    rw [List.mem_reverse, List.mem_range'_1] at hline
    omega
  simp only [Folding.levelsBetween, h.asideLevels _ _ hasides]

/-- What a run says on the way to a line does not depend on the lines behind. -/
theorem leads {line mid : Nat} {levels : List (Nat × FoldLevel)}
    (hlead : Leads o b line levels mid) (hl : mid < n) : Leads o b' line levels mid := by
  induction hlead with
  | refl => exact .refl
  | @step levels mid next hlead hhead hlt hcode hno ih =>
    have hmid : mid < n := Nat.lt_trans hlt hl
    rw [← h.stateAt hmid, ← h.stateAt hl, ← h.levelsBetween (Nat.le_of_lt hl)]
    apply (ih hmid).step ((h.isHead hmid).2 hhead) hlt
    · rw [h.isCode hl]
      exact hcode
    · intro j hj hj'
      rw [h.isCode (Nat.lt_trans hj' hl)]
      exact hno j hj hj'

end Agrees

/-! ### The same lines -/

section

variable (h : ∀ n, Agrees o b b' n) (hlast : b'.text.lastLine = b.text.lastLine)
include h hlast

theorem skipAsides_congr {fuel line : Nat} {l : FoldLevel}
    (hl : line < b.text.lastLine → l.white = (indent b line).white) :
    skipAsides b' fuel line l = skipAsides b fuel line l := by
  induction fuel generalizing line l with
  | zero => rfl
  | succ fuel ih =>
    have hskip : (line < b.text.lastLine && (l.white || isAside b' line))
        = (line < b.text.lastLine && (l.white || isAside b line)) := by
      by_cases hlt : line < b.text.lastLine
      · cases hw : l.white with
        | true => rfl
        | false => rw [(h (line + 1)).aside line (Nat.lt_succ_self line) ((hl hlt).symm.trans hw)]
      · simp [hlt]
    rw [skipAsides, skipAsides, hlast, hskip, (h (line + 2)).indent (line + 1) (Nat.lt_succ_self _),
      ih fun _ => rfl]

theorem next_congr (s : State) : next o b' s = next o b s := by
  have hlevel : levelAfter b' s.line s.level = levelAfter b s.line s.level := by
    rw [levelAfter, levelAfter, hlast, (h (s.line + 2)).indent _ (Nat.lt_succ_self _)]
  have hland : landing b' s = landing b s := by
    rw [landing, landing, hlast, hlevel,
      skipAsides_congr h hlast fun hlt => white_levelAfter (Nat.le_of_lt hlt) s.level]
  rw [next_eq, next_eq, hland, (h _).withImport (Nat.lt_succ_self _)]

theorem run_congr (last fuel : Nat) (s : State) : run o b' last fuel s = run o b last fuel s := by
  induction fuel generalizing s with
  | zero => rfl
  | succ fuel ih =>
    have hlevels := (h _).levelsBetween (s := s) (Nat.le_refl (next o b s).line)
    simp only [run, next_congr h hlast, hlevels, ih]

theorem whole_congr_of_agrees : whole o b' = whole o b := by
  rw [whole, whole, hlast, (h 1).stateAt Nat.one_pos, runTo, runTo, run_congr h hlast]

/-- A call on a whole text says the same of the same lines, and remembers the same. -/
theorem levels_congr (f : Option Nat) : levels o b' f 0 b'.size = levels o b f 0 b.size := by
  cases ho : o.fold with
  | false => simp [levels, ho]
  | true =>
    rw [(folded_zero o b f).levels_eq ho, (folded_zero o b' f).levels_eq ho, Buffer.size,
      Buffer.size, lastOf_size, lastOf_size, Text.lineOf_zero, Text.lineOf_zero, codeBefore,
      codeBefore, hlast, (h 1).stateAt Nat.one_pos, runTo, runTo, run_congr h hlast]

end

/-! ### The same bytes and tokens -/

theorem measure_congr {t t' : Text} {k : Nat} (h : ∀ p < k, t'.byteAt p = t.byteAt p)
    {fuel pos : Nat} (hk : pos + fuel ≤ k) (column : Nat) :
    Indentation.measure t' fuel pos column = Indentation.measure t fuel pos column
      ∧ (Indentation.measure t fuel pos column).2 ≤ pos + fuel := by
  induction fuel generalizing pos column with
  | zero => exact ⟨rfl, Nat.le_refl _⟩
  | succ fuel ih =>
    rw [Indentation.measure, Indentation.measure, h pos (by omega)]
    split
    · have hk : pos + 1 + fuel ≤ k := by omega
      obtain ⟨hsame, hle⟩ := ih hk (Indentation.columnAfter (t.byteAt pos) column)
      exact ⟨hsame, by omega⟩
    · exact ⟨rfl, by omega⟩

theorem blankToAside_congr {fuel pos : Nat}
    (h : ∀ p, pos ≤ p → p < pos + fuel →
      b'.text.byteAt p = b.text.byteAt p ∧ b'.tokenAt p = b.tokenAt p) :
    blankToAside b' fuel pos = blankToAside b fuel pos := by
  induction fuel generalizing pos with
  | zero => rfl
  | succ fuel ih =>
    obtain ⟨hbyte, htoken⟩ := h pos (Nat.le_refl pos) (by omega)
    rw [blankToAside, blankToAside, hbyte, htoken, ih fun p hp hp' => h p (by omega) (by omega)]

/-- The folder does not see how bytes make characters. -/
theorem agrees_of_recode {e : Encoding} (ht : b'.text = b.text.recode e)
    (h : ∀ p, b'.tokenAt p = b.tokenAt p) (n : Nat) : Agrees o b b' n where
  indent line _ := by
    have hmeasure (fuel pos column : Nat) : Indentation.measure (b.text.recode e) fuel pos column
        = Indentation.measure b.text fuel pos column :=
      (measure_congr (fun p _ => b.text.byteAt_recode e p) (Nat.le_refl (pos + fuel)) column).1
    rw [indent, indent, ht, Indentation.level, Indentation.level, hmeasure]
    rfl
  aside line _ _ := by
    rw [isAside, isAside, ht]
    exact blankToAside_congr fun p _ _ => ⟨by rw [ht]; rfl, h p⟩
  imports line _ := by rw [ht]; rfl

theorem agrees_of_eq (ht : b'.text = b.text) (h : ∀ p, b'.tokenAt p = b.tokenAt p) (n : Nat) :
    Agrees o b b' n :=
  agrees_of_recode (e := b.text.encoding) ht h n

/-- The levels of a whole text are those of its bytes and tokens. -/
theorem whole_congr (ht : b'.text = b.text) (h : ∀ p, b'.tokenAt p = b.tokenAt p) :
    whole o b' = whole o b :=
  whole_congr_of_agrees (agrees_of_eq ht h) (by rw [ht])

/-! ### The same beginning -/

section

variable {k : Nat}

/-- A line before the place up to which texts are the same starts and ends in the same
places. -/
theorem lineStart_same {t t' : Text} (h : Text.SameTo k t t') {line : Nat}
    (hl : line ≤ t.lineOf k) :
    t'.lineStart line = t.lineStart line ∧ t.lineStart line ≤ k := by
  have hlast := t.lineOf_le_lastLine k
  have hlast' := t'.lineOf_le_lastLine k
  rw [h.lineOf (Nat.le_refl k)] at hlast'
  have hk := (t.lineStart_le_iff (by omega : line ≤ t.lastLine) k).2 hl
  have hk' := (t'.lineStart_le_iff (by omega : line ≤ t'.lastLine) k).2 (by
    rw [h.lineOf (Nat.le_refl k)]
    exact hl)
  exact ⟨h.lineStart (by omega) (by omega) hk hk', hk⟩

theorem lineStart_lt_succ {t : Text} {line : Nat} (h : line < t.lastLine) :
    t.lineStart line < t.lineStart (line + 1) := by
  have hline := t.lineOf_lineStart (Nat.le_of_lt h)
  have hlt : t.lineStart line < t.lineStart (t.lineOf (t.lineStart line) + 1) :=
    t.lt_lineStart_succ (by omega)
  rwa [hline] at hlt

theorem isImport_iff {t : Text} {line : Nat} :
    isImport o t line = true ↔ o.foldImports = true
      ∧ ∀ i c, importWord[i]? = some c → t.byteAt (t.lineStart line + i) = c := by
  simp only [isImport, Bool.and_eq_true, List.all_eq_true, List.mem_zipIdx_iff_getElem?,
    beq_iff_eq, Prod.forall]
  constructor
  · rintro ⟨hon, hall⟩
    exact ⟨hon, fun i c hc => hall c i hc⟩
  · rintro ⟨hon, hall⟩
    exact ⟨hon, fun c i hc => hall i c hc⟩

/-- The word does not go over a line end. -/
theorem lt_of_spells {t : Text} {start : Nat} (hb : t.breaksAfter (k - 1) = true)
    (hk : start < k) (h : ∀ i c, importWord[i]? = some c → t.byteAt (start + i) = c)
    {i c : Nat} (hc : importWord[i]? = some c) : start + i < k := by
  rcases Nat.lt_or_ge (start + i) k with hlt | hge
  · exact hlt
  · exfalso
    obtain ⟨hi, -⟩ := List.getElem?_eq_some_iff.1 hc
    have hj : k - 1 - start < importWord.length := by omega
    have hbyte := h (k - 1 - start) importWord[k - 1 - start] (List.getElem?_eq_getElem hj)
    have hletter : ∀ c ∈ importWord, c ≠ 10 ∧ c ≠ 13 := by decide
    have hno := hletter _ (List.getElem_mem hj)
    rw [show start + (k - 1 - start) = k - 1 by omega] at hbyte
    have hend := t.byteAt_of_breaksAfter hb
    omega

/-- So it stands in every text that has the same bytes up to that line end. -/
theorem spells_of_byteAt {t t' : Text} {start : Nat} (hb : t.breaksAfter (k - 1) = true)
    (hk : start < k) (hbyte : ∀ p < k, t'.byteAt p = t.byteAt p)
    (h : ∀ i c, importWord[i]? = some c → t.byteAt (start + i) = c) :
    ∀ i c, importWord[i]? = some c → t'.byteAt (start + i) = c := by
  intro i c hc
  rw [hbyte _ (lt_of_spells hb hk h hc)]
  exact h i c hc

theorem agrees_of_sameTo (hs : Buffer.SameTo k b b') : Agrees o b b' (b.text.lineOf k) := by
  have hle := b.text.le_size_of_mem_starts hs.start
  have hle' := b'.text.le_size_of_mem_starts hs.start'
  have hplace {line : Nat} (hl : line < b.text.lineOf k) :
      b'.text.lineStart line = b.text.lineStart line
        ∧ Indentation.lineStop b'.text line = Indentation.lineStop b.text line
        ∧ b.text.lineStart line ≤ Indentation.lineStop b.text line
        ∧ Indentation.lineStop b.text line < k := by
    have hsucc : line + 1 ≤ b.text.lineOf k := hl
    obtain ⟨hstart, -⟩ := lineStart_same hs.text (Nat.le_of_lt hl)
    obtain ⟨hnext, hk⟩ := lineStart_same hs.text hsucc
    have hlt := lineStart_lt_succ (Nat.lt_of_lt_of_le hl (b.text.lineOf_le_lastLine k))
    unfold Indentation.lineStop
    rw [hstart, hnext]
    exact ⟨rfl, rfl, by omega, by omega⟩
  constructor
  · intro line hl
    obtain ⟨hstart, hstop, hline, hk⟩ := hplace hl
    have hend : b.text.lineStart line
        + (Indentation.lineStop b.text line - b.text.lineStart line) ≤ k := by omega
    obtain ⟨hsame, hend⟩ := measure_congr (fun p hp => hs.text.byteAt hp) hend 0
    have hbyte := hs.text.byteAt (Nat.lt_of_le_of_lt hend (by omega))
    have hsize : (b.text.lineStart line = b'.text.size) = (b.text.lineStart line = b.text.size) := by
      rw [eq_iff_iff]
      omega
    simp only [indent, Indentation.level, hstop, hstart, hsame, hbyte, hsize]
  · intro line hl _
    obtain ⟨hstart, hstop, hline, hk⟩ := hplace hl
    simp only [isAside, hstart, hstop]
    exact blankToAside_congr fun p _ hp =>
      ⟨hs.text.byteAt (by omega), hs.token p (by omega)⟩
  · intro line hl
    obtain ⟨hstart, -, hline, hk⟩ := hplace hl
    have hb := (b.text.mem_starts_iff.1 hs.start).resolve_left (Nat.ne_of_gt hs.pos)
    have hb' := (b'.text.mem_starts_iff.1 hs.start').resolve_left (Nat.ne_of_gt hs.pos)
    have hlt : b.text.lineStart line < k := by omega
    rw [Bool.eq_iff_iff, isImport_iff, isImport_iff, hstart]
    exact and_congr_right fun _ =>
      ⟨spells_of_byteAt hb' hlt fun p hp => (hs.text.byteAt hp).symm,
        spells_of_byteAt hb hlt fun p hp => hs.text.byteAt hp⟩

/-- What folding knows up to a line start it knows in every buffer that is the same up to
there. -/
theorem Folded.sameTo {f : Option Nat} (h : Folded o b f k) (hs : Buffer.SameTo k b b') :
    Folded o b' f k := by
  have hA : Agrees o b b' (b.text.lineOf k) := agrees_of_sameTo hs
  have hpos := b.text.lineOf_lt_of_mem_starts hs.start hs.pos
  have hlt := codeBefore_lt (b := b) (n := b.text.lineOf k) (by omega)
  have hhead := isHead_codeBefore b (b.text.lineOf k)
  have hsame : codeBefore b' (b'.text.lineOf k) = codeBefore b (b.text.lineOf k) := by
    rw [hs.text.lineOf (Nat.le_refl k), hA.codeBefore (Nat.le_refl _)]
  obtain ⟨levels, hlead⟩ := Leads.exists_of_isHead (o := o) (Or.inl rfl) hhead (Nat.zero_le _)
  constructor
  · rw [hsame]
    intro j hj
    rw [(hA.leads hlead hlt).levelOf?_whole ((hA.isHead hlt).2 hhead) hj,
      ← hlead.levelOf?_whole hhead hj, hs.level j (Nat.lt_trans hj hlt)]
    exact h.levels j hj
  · rw [hsame, hA.seen (Nat.le_of_lt hlt)]
    exact h.firstImport

end

end Restyle.Haskell.Folding
