/-
Restyle.Proofs.R.Folding — folding R in pieces is folding it at once.

A run over the text comes to the start of each line on the level at which
the line before ended (`run_succ_of_break`). A restart reads that level
back from the packed form of the line before, up to a multiple of 65536
(`Folded.start_eq`). Runs whose levels differ by such a multiple say the
same once it is packed (`run_shift`).

So if the lines before a line start have their levels, a call that starts
there gives the next ones theirs (`Folded.fold`).
-/
import Restyle.Proofs.Buffer.Editing
import Restyle.Proofs.Packing
import Restyle.R.Folding

namespace Restyle.R.Folding

variable {o : Options} {b b' : Buffer} {s : State} {k : Nat}

/-! ## 1. Runs -/

theorem run_append (s : State) (xs ys : List Nat) :
    run o b s (xs ++ ys)
      = ((run o b s xs).1 ++ (run o b (run o b s xs).2 ys).1,
        (run o b (run o b s xs).2 ys).2) := by
  induction xs generalizing s with
  | nil => rfl
  | cons x xs ih => simp [run, ih]

/-- A run reads no more than the bytes and tokens at the positions given. -/
theorem run_congr {ps : List Nat} (h : ∀ p ∈ ps, b'.text.byteAt p = b.text.byteAt p
      ∧ b'.tokenAt p = b.tokenAt p ∧ endsLineAt b'.text p = endsLineAt b.text p) (s : State) :
    run o b' s ps = run o b s ps := by
  induction ps generalizing s with
  | nil => rfl
  | cons p ps ih =>
    obtain ⟨hb, ht, he⟩ := h p List.mem_cons_self
    have hstep : step o b' s p = step o b s p := by
      simp only [step, State.countBrace, hb, ht, he]
    simp only [run, hstep, ih fun q hq => h q (List.mem_cons_of_mem _ hq)]

theorem endsLineAt_eq (t : Text) (pos : Nat) : endsLineAt t pos = t.breaksAfter pos := by
  unfold endsLineAt Text.breaksAfter
  exact Bool.or_comm ..

@[simp] theorem line_countBrace (pos : Nat) (s : State) : (s.countBrace b pos).line = s.line := by
  unfold State.countBrace
  split
  · split
    · rfl
    · split <;> rfl
  · rfl

theorem step_of_break {pos : Nat} (h : b.text.breaksAfter pos = true) (s : State) :
    step o b s pos
      = ([(s.line, (s.countBrace b pos).lineLevel o)],
        State.atLine (s.line + 1) (s.countBrace b pos).here) := by
  have hspace : Ascii.isSpace (b.text.byteAt pos) = true := by
    rcases b.text.byteAt_of_breaksAfter h with h | h <;> rw [h] <;> rfl
  simp [step, endsLineAt_eq, h, hspace, State.atLine]

theorem step_of_no_break {pos : Nat} (h : b.text.breaksAfter pos = false) (s : State) :
    (step o b s pos).1 = [] ∧ (step o b s pos).2.line = s.line := by
  simp [step, endsLineAt_eq, h]

theorem range'_succ (k n : Nat) : List.range' k (n + 1) = List.range' k n ++ [k + n] := by
  simp [List.range'_concat]

/-- A run over a range says the levels of the lines that end in it, and stands on the line
of the position behind it. -/
theorem run_range' (hs : s.line = b.text.lineOf k) (n : Nat) :
    (run o b s (List.range' k n)).2.line = b.text.lineOf (k + n)
      ∧ ∀ line, (levelOf? (run o b s (List.range' k n)).1 line).isSome = true
        ↔ b.text.lineOf k ≤ line ∧ line < b.text.lineOf (k + n) := by
  induction n with
  | zero =>
    refine ⟨hs, fun line => ?_⟩
    simp [run, levelOf?]
  | succ n ih =>
    obtain ⟨hline, hlevels⟩ := ih
    have hmono := b.text.lineOf_mono (Nat.le_add_right k n)
    have hsucc := b.text.lineOf_succ (k + n)
    rw [range'_succ, run_append, ← Nat.add_assoc]
    cases hb : b.text.breaksAfter (k + n) with
    | true =>
      rw [hb, if_pos rfl] at hsucc
      simp only [run, step_of_break hb, hline, hsucc]
      refine ⟨rfl, fun line => ?_⟩
      rw [levelOf?_append, Option.isSome_or, Bool.or_eq_true, hlevels line]
      by_cases hl : b.text.lineOf (k + n) = line
      · simp [levelOf?, hl]
        omega
      · simp [levelOf?, hl]
        omega
    | false =>
      obtain ⟨hnone, hsame⟩ := step_of_no_break (o := o) hb (run o b s (List.range' k n)).2
      rw [hb] at hsucc
      simp only [run, hnone, hsame, hline, List.append_nil]
      exact ⟨by simpa using hsucc.symm, fun line => by rw [hlevels line, hsucc]; simp⟩

/-- Behind a line end a run stands at the start of the next line, on the level that it
recorded last. -/
theorem run_succ_of_break (hs : s.line = b.text.lineOf k) {n : Nat}
    (hb : b.text.breaksAfter (k + n) = true) : ∃ l : FoldLevel,
    levelOf? (run o b s (List.range' k (n + 1))).1 (b.text.lineOf (k + n)) = some l.pack
      ∧ (run o b s (List.range' k (n + 1))).2
        = State.atLine (b.text.lineOf (k + n) + 1) l.next := by
  obtain ⟨hline, -⟩ := run_range' (o := o) hs n
  rw [range'_succ, run_append]
  simp only [run, step_of_break hb, hline]
  exact ⟨((run o b s (List.range' k n)).2.countBrace b (k + n)).lineLevel o,
    by simp [levelOf?_append, levelOf?], rfl⟩

/-! ## 2. Shifted levels -/

/-- The state with its levels moved by a multiple of what their packed forms can hold. -/
def State.shift (z : Int) (s : State) : State :=
  { s with
    level := s.level + 65536 * z
    lowest := s.lowest + 65536 * z
    here := s.here + 65536 * z }

theorem countBrace_shift (z : Int) (pos : Nat) (s : State) :
    (s.shift z).countBrace b pos = (s.countBrace b pos).shift z := by
  unfold State.countBrace
  split
  · split
    · simp only [State.shift, State.mk.injEq, true_and, and_true]
      omega
    · split
      · simp only [State.shift, State.mk.injEq, true_and, and_true]
        omega
      · rfl
  · rfl

theorem lineLevel_shift (z : Int) (s : State) :
    (s.shift z).lineLevel o = (s.lineLevel o).shift z := by
  simp only [State.lineLevel, State.shift, FoldLevel.shift, FoldLevel.mk.injEq]
  cases o.foldAtElse <;> simp

theorem step_shift (z : Int) (s : State) (pos : Nat) :
    step o b (s.shift z) pos
      = ((step o b s pos).1.map fun e => (e.1, e.2.shift z), (step o b s pos).2.shift z) := by
  simp only [step, countBrace_shift, lineLevel_shift]
  cases endsLineAt b.text pos with
  | true => rfl
  | false => rfl

/-- A shifted run says the same levels, shifted. -/
theorem run_shift (z : Int) (ps : List Nat) (s : State) :
    run o b (s.shift z) ps
      = ((run o b s ps).1.map fun e => (e.1, e.2.shift z), (run o b s ps).2.shift z) := by
  induction ps generalizing s with
  | nil => rfl
  | cons p ps ih => simp [run, step_shift, ih]

theorem levelOf?_map_shift (z : Int) (levels : List (Nat × FoldLevel)) (line : Nat) :
    levelOf? (levels.map fun e => (e.1, e.2.shift z)) line = levelOf? levels line :=
  levelOf?_congr (by simp [Function.comp_def, FoldLevel.pack_shift]) line

/-! ## 3. Restarts -/

/-- The levels of a whole text. -/
def whole (o : Options) (b : Buffer) : List (Nat × FoldLevel) := levels o b 0 b.size

/-- What a run over the text says before position `k`, and where it stands there. -/
def before (o : Options) (b : Buffer) (k : Nat) : List (Nat × FoldLevel) × State :=
  run o b (start b 0) (List.range' 0 k)

theorem start_zero (b : Buffer) : start b 0 = State.atLine 0 FoldLevel.base := by
  simp [start, b.text.lineOf_zero]

theorem line_start_zero (b : Buffer) : (start b 0).line = b.text.lineOf 0 := rfl

theorem before_add (k n : Nat) :
    before o b (k + n)
      = ((before o b k).1 ++ (run o b (before o b k).2 (List.range' k n)).1,
        (run o b (before o b k).2 (List.range' k n)).2) := by
  unfold before
  rw [← run_append, ← List.range'_append_1, Nat.zero_add]

theorem line_before (o : Options) (b : Buffer) (k : Nat) :
    (before o b k).2.line = b.text.lineOf k := by
  have h := (run_range' (o := o) (line_start_zero b) k).1
  rwa [Nat.zero_add] at h

theorem isSome_levelOf?_before {line : Nat} :
    (levelOf? (before o b k).1 line).isSome = true ↔ line < b.text.lineOf k := by
  have h := (run_range' (o := o) (line_start_zero b) k).2 line
  rwa [b.text.lineOf_zero, Nat.zero_add, and_iff_right (Nat.zero_le _)] at h

/-- A call that ends before the end of the text says what its run says. -/
theorem levels_of_lt {n : Nat} (h : k + n < b.size) :
    levels o b k n = (run o b (start b k) (List.range' k n)).1 := by
  unfold levels
  exact if_neg fun hc => Nat.not_le_of_lt h hc.1

/-- A call that ends at the end of the text says the level of the last line as well. -/
theorem levels_of_eq {n : Nat} (h : k + n = b.size) :
    levels o b k n = (run o b (start b k) (List.range' k n)).1
      ++ [(b.text.lastLine, (run o b (start b k) (List.range' k n)).2.lineLevel o)] := by
  have hline := (run_range' (o := o) (s := start b k) rfl n).1
  rw [h, show b.text.lineOf b.size = b.text.lastLine from rfl] at hline
  have hcount := b.text.lineCount_eq_lastLine
  unfold levels
  rw [← hline]
  exact if_pos ⟨by omega, by omega⟩

theorem whole_eq (o : Options) (b : Buffer) :
    whole o b = (before o b b.size).1 ++ [(b.text.lastLine, (before o b b.size).2.lineLevel o)] :=
  levels_of_eq (Nat.zero_add _)

/-- What a whole text says of a line is said before the next line starts. -/
theorem levelOf?_whole_of_lt (hk : k ≤ b.size) {line : Nat} (h : line < b.text.lineOf k) :
    levelOf? (whole o b) line = levelOf? (before o b k).1 line := by
  obtain ⟨n, hn⟩ := Nat.exists_eq_add_of_le hk
  have hlast := b.text.lineOf_le_lastLine k
  have hrest := (run_range' (o := o) (line_before o b k) n).2 line
  have hnone : levelOf? (run o b (before o b k).2 (List.range' k n)).1 line = none := by
    rw [← Option.not_isSome_iff_eq_none, hrest]
    omega
  have hne : b.text.lastLine ≠ line := by omega
  rw [whole_eq, hn, before_add, levelOf?_append, levelOf?_append, hnone]
  simp [levelOf?, hne]

/-- The lines before the one of `k` have the levels of the whole text. -/
def Folded (o : Options) (b : Buffer) (k : Nat) : Prop := b.Holds (whole o b) (b.text.lineOf k)

/-- A restart at a line start reads back where the run over the text stands there, up to a
multiple of what the packed level of the line before can hold. -/
theorem Folded.start_eq (h : Folded o b k) (hk : k ∈ b.text.starts) :
    ∃ z, start b k = (before o b k).2.shift z := by
  have hle := b.text.le_size_of_mem_starts hk
  cases k with
  | zero => exact ⟨0, by simp [before, run, State.shift]⟩
  | succ j =>
    have hb : b.text.breaksAfter (0 + j) = true := by
      rw [Nat.zero_add]
      simpa using b.text.mem_starts_iff.1 hk
    have hline := b.text.lineOf_succ j
    obtain ⟨l, hlevel, hstate⟩ := run_succ_of_break (o := o) (line_start_zero b) hb
    rw [Nat.zero_add] at hb hlevel hstate
    rw [hb, if_pos rfl] at hline
    have hpack : b.level (b.text.lineOf j) = l.pack := by
      have hlt : b.text.lineOf j < b.text.lineOf (j + 1) := by omega
      have hsaid := h _ hlt
      rw [levelOf?_whole_of_lt hle hlt] at hsaid
      exact Option.some.inj (hsaid.symm.trans hlevel)
    obtain ⟨z, hz⟩ := l.next_unpack_pack
    refine ⟨z, ?_⟩
    unfold start before
    rw [hstate, hline]
    simp [hpack, hz, State.atLine, State.shift]

/-! ## 4. Calls -/

/-- A restart says of the lines that end in its range what the whole text says. -/
theorem Folded.levelOf?_run (h : Folded o b k) (hk : k ∈ b.text.starts) {n line : Nat}
    (hn : k + n ≤ b.size) (hle : b.text.lineOf k ≤ line) (hlt : line < b.text.lineOf (k + n)) :
    levelOf? (run o b (start b k) (List.range' k n)).1 line = levelOf? (whole o b) line := by
  obtain ⟨z, hz⟩ := h.start_eq hk
  have hnone : levelOf? (before o b k).1 line = none := by
    rw [← Option.not_isSome_iff_eq_none, isSome_levelOf?_before]
    omega
  rw [levelOf?_whole_of_lt hn hlt, before_add, levelOf?_append, hnone, Option.or_none, hz,
    run_shift, levelOf?_map_shift]

/-- A call that starts where the lines before have their levels gives theirs to the next. -/
theorem Folded.fold (hb : b.WellFormed) (h : Folded o b k) (hk : k ∈ b.text.starts) {n : Nat}
    (hn : k + n ≤ b.size) :
    (b.setLevels (levels o b k n)).Holds (whole o b) (b.text.lineOf (k + n)) := by
  have hrun := (run_range' (o := o) (s := start b k) rfl n).2
  have hmono := b.text.lineOf_mono (Nat.le_add_right k n)
  have hlast := b.text.lineOf_le_lastLine (k + n)
  have hsame : ∀ line < b.text.lineOf (k + n),
      levelOf? (levels o b k n) line
        = levelOf? (run o b (start b k) (List.range' k n)).1 line := by
    intro line hline
    rcases Nat.lt_or_eq_of_le hn with hlt | heq
    · rw [levels_of_lt hlt]
    · have hne : b.text.lastLine ≠ line := by omega
      rw [levels_of_eq heq, levelOf?_append]
      simp [levelOf?, hne]
  apply h.setLevels
  · rw [hb.levels_size, b.text.lineCount_eq_lastLine]
    omega
  · intro line hline
    rw [hsame line (by omega), ← Option.not_isSome_iff_eq_none, hrun]
    omega
  · intro line hge hlt
    refine ⟨?_, (hsame line hlt).trans (h.levelOf?_run hk hn hge hlt)⟩
    rw [levelOf?_whole_of_lt hn hlt, isSome_levelOf?_before]
    exact hlt

/-- If it goes to the end of the text, all lines have their levels then. -/
theorem Folded.fold_to_end (hb : b.WellFormed) (h : Folded o b k) (hk : k ∈ b.text.starts)
    {n : Nat} (hn : k + n = b.size) :
    (b.setLevels (levels o b k n)).Holds (whole o b) b.text.lineCount := by
  have hcount := b.text.lineCount_eq_lastLine
  have hold := h.fold hb hk (Nat.le_of_eq hn)
  rw [hn, show b.text.lineOf b.size = b.text.lastLine from rfl] at hold
  intro line hline
  rcases Nat.lt_or_eq_of_le (Nat.le_of_lt_succ (hcount ▸ hline)) with hlt | rfl
  · exact hold line hlt
  · obtain ⟨z, hz⟩ := h.start_eq hk
    have hend : (run o b (start b k) (List.range' k n)).2 = (before o b b.size).2.shift z := by
      rw [hz, run_shift, ← hn, before_add]
    have hlevel : levelOf? (levels o b k n) b.text.lastLine
        = some ((before o b b.size).2.lineLevel o).pack := by
      rw [levels_of_eq hn, levelOf?_append, hend, lineLevel_shift]
      simp [levelOf?, FoldLevel.pack_shift]
    rw [Buffer.level_setLevels_of_some b (by rw [hb.levels_size]; omega) hlevel, whole_eq,
      levelOf?_append]
    simp [levelOf?]

/-! ## 5. Other buffers -/

theorem before_congr (o : Options) (h : ∀ p < k, b'.text.byteAt p = b.text.byteAt p
    ∧ b'.tokenAt p = b.tokenAt p ∧ endsLineAt b'.text p = endsLineAt b.text p) :
    before o b' k = before o b k := by
  unfold before
  rw [start_zero, start_zero]
  exact run_congr (fun p hp => h p (by simpa using List.mem_range'_1.1 hp)) _

/-- The folder does not see how bytes make characters. -/
theorem whole_congr_of_recode {e : Encoding} (ht : b'.text = b.text.recode e)
    (h : ∀ p, b'.tokenAt p = b.tokenAt p) : whole o b' = whole o b := by
  have hsame : before o b' b.size = before o b b.size :=
    before_congr o fun p _ => ⟨by rw [ht]; rfl, h p, by rw [ht]; rfl⟩
  have hsize : b'.size = b.size := by rw [Buffer.size, ht]; rfl
  rw [whole_eq, whole_eq, hsize, ht, hsame]
  rfl

/-- The levels of a whole text are those of its bytes and tokens. -/
theorem whole_congr (ht : b'.text = b.text) (h : ∀ p, b'.tokenAt p = b.tokenAt p) :
    whole o b' = whole o b :=
  whole_congr_of_recode (e := b.text.encoding) ht h

/-- Levels are kept where all that they depend on is. -/
theorem Folded.sameTo (h : Folded o b k) (hs : Buffer.SameTo k b b') : Folded o b' k := by
  have hline := hs.text.lineOf (Nat.le_refl k)
  intro line hlt
  rw [hline] at hlt
  have hsame : before o b' k = before o b k := before_congr o fun p hp =>
    ⟨hs.text.byteAt hp, hs.token p hp, by
      rw [endsLineAt_eq, endsLineAt_eq, hs.text.breaksAfter hp]⟩
  rw [levelOf?_whole_of_lt (b'.text.le_size_of_mem_starts hs.start') (by rw [hline]; exact hlt),
    hsame, ← levelOf?_whole_of_lt (b.text.le_size_of_mem_starts hs.start) hlt, hs.level line hlt]
  exact h line hlt

theorem folded_zero (o : Options) (b : Buffer) : Folded o b 0 := by
  intro line hline
  rw [b.text.lineOf_zero] at hline
  omega

end Restyle.R.Folding
