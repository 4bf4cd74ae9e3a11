/-
Restyle.Proofs.R.Braces — the levels of R as a balance of braces.

`balance` counts the braces before a position that are styled as
operators, told from the styles and the bytes alone. Within a line a run
of the folder has the balance at the line start, the balance where it
stands, and the least balance at which the line was entered or opened a
brace (`Counted`). Every byte keeps that (`Counted.take`), and a line end
starts it anew, so it holds wherever a run over the text stands
(`counted_before`). What is said of a line is read off there
(`exists_level`).
-/
import Mathlib.Order.Bounds.Basic
import Restyle.Proofs.R.Folding

namespace Restyle.R.Folding

variable {o : Options} {b : Buffer} {s : State} {start k : Nat}

/-! ## 1. The balance -/

/-- Whether an opening brace stands at `p`, styled as an operator. -/
def opens (b : Buffer) (p : Nat) : Bool :=
  b.tokenAt p = .operator && b.text.byteAt p = '\x7b'.toNat

/-- Whether a closing brace stands at `p`, styled as an operator. -/
def closes (b : Buffer) (p : Nat) : Bool :=
  b.tokenAt p = .operator && b.text.byteAt p = '\x7d'.toNat

theorem closes_of_opens (h : opens b k = true) : closes b k = false := by
  simp only [opens, Bool.and_eq_true, decide_eq_true_eq] at h
  simp [closes, h.2]

/-- How many more braces are opened than closed before `p`. -/
def balance (b : Buffer) (p : Nat) : Int :=
  (List.range p).countP (opens b) - (List.range p).countP (closes b)

@[simp] theorem balance_zero (b : Buffer) : balance b 0 = 0 := rfl

theorem balance_succ (b : Buffer) (p : Nat) :
    balance b (p + 1)
      = balance b p + (if opens b p then 1 else 0) - if closes b p then 1 else 0 := by
  simp only [balance, List.range_succ, List.countP_append, List.countP_singleton]
  split <;> split <;> omega

/-- Before `n` every byte opens a brace. -/
theorem balance_of_opens {n : Nat} (h : ∀ p < n, opens b p = true) : balance b n = n := by
  have hcloses : (List.range n).countP (closes b) = 0 :=
    List.countP_eq_zero.2 fun p hp => by simp [closes_of_opens (h p (List.mem_range.1 hp))]
  have hopens : (List.range n).countP (opens b) = (List.range n).length :=
    List.countP_eq_length.2 fun p hp => h p (List.mem_range.1 hp)
  simp [balance, hcloses, hopens]

/-- Before `n` every byte closes a brace. -/
theorem balance_of_closes {n : Nat} (h : ∀ p < n, closes b p = true) : balance b n = -n := by
  have hopens : (List.range n).countP (opens b) = 0 := by
    refine List.countP_eq_zero.2 fun p hp hopens => ?_
    have hcloses := h p (List.mem_range.1 hp)
    rw [closes_of_opens hopens] at hcloses
    cases hcloses
  have hcloses : (List.range n).countP (closes b) = (List.range n).length :=
    List.countP_eq_length.2 fun p hp => h p (List.mem_range.1 hp)
  simp [balance, hcloses, hopens]

/-- From `start` up to `stop`, where a fold that splits at `else` may take its level: at the
start and before the braces that open. -/
def turns (b : Buffer) (start stop : Nat) : Set Nat :=
  {p | p = start ∨ start ≤ p ∧ p < stop ∧ opens b p = true}

theorem turns_self (b : Buffer) (start : Nat) : turns b start start = {start} := by
  ext p
  simp only [turns, Set.mem_ofPred_eq, Set.mem_singleton_iff]
  omega

theorem turns_succ (h : start ≤ k) :
    turns b start (k + 1) = if opens b k then insert k (turns b start k) else turns b start k := by
  ext p
  by_cases hp : p = k
  · subst hp
    cases ho : opens b p <;> simp [turns, ho, h]
  · have hlt : p < k + 1 ↔ p < k := by omega
    have hmem : p ∈ turns b start (k + 1) ↔ p ∈ turns b start k := by
      simp only [turns, Set.mem_ofPred_eq, hlt]
    cases ho : opens b k <;> simp [hmem, hp]

/-! ## 2. What a run has counted -/

/-- Braces styled as operators are what the folder counts. -/
theorem countBrace_eq (b : Buffer) (pos : Nat) (s : State) :
    s.countBrace b pos
      = if opens b pos then { s with lowest := min s.lowest s.here, here := s.here + 1 }
        else if closes b pos then { s with here := s.here - 1 }
        else s := by
  unfold State.countBrace opens closes
  by_cases htoken : b.tokenAt pos = .operator <;> simp [htoken]

/-- The state behind the byte at `pos`, line ends apart. -/
def State.take (b : Buffer) (pos : Nat) (s : State) : State :=
  { s.countBrace b pos with blank := s.blank && Ascii.isSpace (b.text.byteAt pos) }

@[simp] theorem blank_countBrace (pos : Nat) (s : State) :
    (s.countBrace b pos).blank = s.blank := by
  rw [countBrace_eq]
  split
  · rfl
  · split <;> rfl

theorem step_eq_take (h : b.text.breaksAfter k = false) (s : State) :
    step o b s k = ([], s.take b k) := by
  simp [step, endsLineAt_eq, h, State.take]

theorem step_eq_take_of_break (h : b.text.breaksAfter k = true) (s : State) :
    step o b s k
      = ([(s.line, (s.take b k).lineLevel o)], State.atLine (s.line + 1) (s.take b k).here) := by
  have hspace : Ascii.isSpace (b.text.byteAt k) = true := by
    rcases b.text.byteAt_of_breaksAfter h with h | h <;> rw [h] <;> rfl
  have htake : s.take b k = s.countBrace b k := by
    rw [State.take, hspace, Bool.and_true, ← blank_countBrace (b := b) k s]
  rw [step_of_break h, htake]

/-- The state has counted the bytes from the line start `start` up to `k`. -/
structure Counted (b : Buffer) (start k : Nat) (s : State) : Prop where
  le : start ≤ k
  level : s.level = FoldLevel.base + balance b start
  lowest : IsLeast ((FoldLevel.base + balance b ·) '' turns b start k) s.lowest
  here : s.here = FoldLevel.base + balance b k
  blank : s.blank = true ↔ ∀ p, start ≤ p → p < k → Ascii.isSpace (b.text.byteAt p) = true

theorem counted_atLine (b : Buffer) (k line : Nat) :
    Counted b k k (State.atLine line (FoldLevel.base + balance b k)) where
  le := Nat.le_refl k
  level := rfl
  lowest := by
    rw [turns_self, Set.image_singleton]
    exact isLeast_singleton
  here := rfl
  blank := by
    refine iff_of_true rfl fun p hp hlt => ?_
    omega

/-- A byte is counted. -/
theorem Counted.take (h : Counted b start k s) : Counted b start (k + 1) (s.take b k) := by
  obtain ⟨hle, hlevel, hlowest, hhere, hblank⟩ := h
  have hbal := balance_succ b k
  have hspaces : (s.blank && Ascii.isSpace (b.text.byteAt k)) = true
      ↔ ∀ p, start ≤ p → p < k + 1 → Ascii.isSpace (b.text.byteAt p) = true := by
    rw [Bool.and_eq_true, hblank]
    constructor
    · rintro ⟨hbefore, hk⟩ p hp hlt
      rcases Nat.lt_or_eq_of_le (Nat.le_of_lt_succ hlt) with hlt | rfl
      · exact hbefore p hp hlt
      · exact hk
    · exact fun hall => ⟨fun p hp hlt => hall p hp (by omega), hall k hle (by omega)⟩
  have hturns := turns_succ (b := b) hle
  have htake : ∀ s', s.countBrace b k = s' → s'.level = s.level
      → IsLeast ((FoldLevel.base + balance b ·) '' turns b start (k + 1)) s'.lowest
      → s'.here = FoldLevel.base + balance b (k + 1) → Counted b start (k + 1) (s.take b k) := by
    rintro s' rfl hlevel' hlowest' hhere'
    exact ⟨by omega, hlevel'.trans hlevel, hlowest', hhere', hspaces⟩
  have hcount := countBrace_eq b k s
  split at hcount
  · -- the level before the brace counts, and it opens one more
    rename_i hopens
    rw [if_pos hopens] at hturns
    rw [if_pos hopens, closes_of_opens hopens] at hbal
    refine htake _ hcount rfl ?_ ?_
    · rw [hturns, Set.image_insert_eq, min_comm, hhere]
      exact hlowest.insert _
    · simp [hhere, hbal, Int.add_assoc]
  · rename_i hopens
    rw [if_neg hopens] at hturns hbal
    rw [← hturns] at hlowest
    split at hcount
    · rename_i hcloses
      rw [if_pos hcloses] at hbal
      refine htake _ hcount rfl hlowest ?_
      simp only [hhere, hbal]
      omega
    · rename_i hcloses
      rw [if_neg hcloses] at hbal
      refine htake _ hcount rfl hlowest ?_
      simp [hhere, hbal]

/-- Wherever a run over the text stands, it has counted the line up to there. -/
theorem counted_before (o : Options) (b : Buffer) (k : Nat) :
    Counted b (b.text.lineStart (b.text.lineOf k)) k (before o b k).2 := by
  induction k with
  | zero =>
    have hstart := (b.text.lineStart_lineOf_eq_iff 0).2 (Or.inl rfl)
    have hzero := counted_atLine b 0 0
    rw [hstart, before, start_zero]
    simpa [run] using hzero
  | succ k ih =>
    have hsucc := b.text.lineOf_succ k
    have htake := ih.take
    rw [before_add]
    simp only [List.range'_one, run]
    cases hbreak : b.text.breaksAfter k with
    | true =>
      rw [step_eq_take_of_break hbreak, htake.here,
        (b.text.lineStart_lineOf_eq_iff (k + 1)).2 (Or.inr hbreak)]
      exact counted_atLine ..
    | false =>
      rw [hbreak] at hsucc
      rw [step_eq_take hbreak, hsucc]
      exact htake

/-! ## 3. What is said of a line -/

/-- The level of the bytes from `start` up to `stop` by their braces. -/
structure Balances (o : Options) (b : Buffer) (start stop : Nat) (l : FoldLevel) : Prop where
  next : l.next = FoldLevel.base + balance b stop
  level : o.foldAtElse = false → l.level = FoldLevel.base + balance b start
  levelAtElse : o.foldAtElse = true →
    IsLeast ((FoldLevel.base + balance b ·) '' turns b start stop) l.level
  header : l.header = true ↔ l.level < l.next
  white : l.white = true ↔ o.foldCompact = true
    ∧ ∀ p, start ≤ p → p < stop → Ascii.isSpace (b.text.byteAt p) = true

theorem Counted.lineLevel (h : Counted b start k s) : Balances o b start k (s.lineLevel o) where
  next := h.here
  level := fun hoff => by simp [State.lineLevel, hoff, h.level]
  levelAtElse := fun hon => by
    simp only [State.lineLevel, hon, if_true]
    exact h.lowest
  header := decide_eq_true_iff
  white := by
    simp only [State.lineLevel, Bool.and_eq_true, h.blank, and_comm]

/-- Every line gets the level of its braces. -/
theorem exists_level (o : Options) (b : Buffer) {line : Nat} (h : line ≤ b.text.lastLine) :
    ∃ l, levelOf? (whole o b) line = some l.pack
      ∧ Balances o b (b.text.lineStart line) (b.text.lineStart (line + 1)) l := by
  rcases Nat.lt_or_eq_of_le h with hlt | rfl
  · obtain ⟨q, hq, hbreak, rfl⟩ := b.text.exists_breaksAfter_of_lt hlt
    have hsucc := b.text.lineOf_succ q
    rw [if_pos hbreak] at hsucc
    have hsize := b.text.lt_size_of_breaksAfter hbreak
    refine ⟨((before o b q).2.take b q).lineLevel o, ?_, ?_⟩
    · rw [levelOf?_whole_of_lt (k := q + 1) hsize (by omega), before_add]
      simp [run, step_eq_take_of_break hbreak, line_before, levelOf?_append, levelOf?]
    · rw [hq]
      exact (counted_before o b q).take.lineLevel
  · refine ⟨(before o b b.size).2.lineLevel o, ?_, ?_⟩
    · rw [whole_eq, levelOf?_append]
      simp [levelOf?]
    · rw [b.text.lineStart_of_lastLine_lt (Nat.lt_succ_self _)]
      exact (counted_before o b b.size).lineLevel

/-- Balances that fit give levels that fit. -/
theorem Balances.level_bounds {stop : Nat} {l : FoldLevel} (h : Balances o b start stop l)
    (hle : start ≤ stop)
    (hbal : ∀ p ≤ stop, -1024 ≤ balance b p ∧ balance b p ≤ 3071) :
    0 ≤ l.level ∧ l.level < 4096 := by
  have hbase : FoldLevel.base = 1024 := rfl
  cases hoff : o.foldAtElse with
  | false =>
    have hlevel := h.level hoff
    have := hbal start hle
    omega
  | true =>
    obtain ⟨⟨p, hp, hlevel⟩, -⟩ := h.levelAtElse hoff
    have hle' : p ≤ stop := by
      rcases hp with rfl | ⟨-, hlt, -⟩
      · exact hle
      · omega
    have := hbal p hle'
    simp only at hlevel
    omega

/-- From `start` up to `stop` a line stands in `n` more braces than are closed: where it starts
or, with folding at `else`, where these are least, there and before the braces that it opens. -/
def NestedIn (o : Options) (b : Buffer) (start stop : Nat) (n : Int) : Prop :=
  if o.foldAtElse then IsLeast (balance b '' turns b start stop) n else n = balance b start

/-- The level counts the braces that a line is nested in. -/
theorem Balances.nestedIn_iff {stop : Nat} {l : FoldLevel} (h : Balances o b start stop l)
    (n : Int) : NestedIn o b start stop n ↔ l.level = FoldLevel.base + n := by
  unfold NestedIn
  cases hoff : o.foldAtElse with
  | false =>
    rw [if_neg Bool.false_ne_true, h.level hoff]
    omega
  | true =>
    rw [if_pos rfl]
    obtain ⟨⟨p, hp, hlevel⟩, hlow⟩ := h.levelAtElse hoff
    have hleast : IsLeast (balance b '' turns b start stop) (balance b p) := by
      refine ⟨⟨p, hp, rfl⟩, ?_⟩
      rintro _ ⟨q, hq, rfl⟩
      have hle : l.level ≤ FoldLevel.base + balance b q := hlow ⟨q, hq, rfl⟩
      simp only at hlevel
      omega
    simp only at hlevel
    constructor
    · intro hn
      rw [hn.unique hleast, hlevel]
    · intro hn
      rwa [show n = balance b p by omega]

theorem exists_nestedIn (o : Options) (b : Buffer) {line : Nat} (h : line ≤ b.text.lastLine) :
    ∃ n, NestedIn o b (b.text.lineStart line) (b.text.lineStart (line + 1)) n := by
  obtain ⟨l, -, hbalances⟩ := exists_level o b h
  exact ⟨l.level - FoldLevel.base, (hbalances.nestedIn_iff _).2 (by omega)⟩

end Restyle.R.Folding
