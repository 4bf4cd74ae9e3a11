/-
Restyle.Proofs.Haskell.Levels — what the fold levels of Haskell say.

Whether a line holds code is told from its bytes and tokens (`HoldsCode`);
the folder sees the same on every line but the last (`isCode_iff`), where
it does not matter, as the last line is never skipped.

A run stands on some lines (`Stop`) and decides the lines in between when
it comes to the next. On a line that is not white it knows the level of
the line's columns, one more on a later line of a block of imports. The
lines skipped have the greater of the levels around them and then the
lower (`levelOf?_asideLevels`), so they never get deeper. So a line opens
a fold exactly if the next line is deeper, unless it is white
(`header_iff`).
-/
import Restyle.Proofs.Haskell.Folding
import Restyle.Proofs.Packing
import Restyle.Proofs.Text.Indentation

namespace Restyle.Haskell.Folding

variable {o : Options} {b : Buffer} {s : State} {line : Nat}

/-! ## 1. Lines of code -/

/-- A comment or directive stands on a line, behind nothing but blanks. -/
def StartsAside (b : Buffer) (line : Nat) : Prop :=
  ∃ p < b.text.lineStart (line + 1), b.text.lineStart line ≤ p
    ∧ (∀ q < p, b.text.lineStart line ≤ q → Indentation.isBlank (b.text.byteAt q) = true)
    ∧ ((b.tokenAt p).isComment || b.tokenAt p == .directive) = true

instance (b : Buffer) (line : Nat) : Decidable (StartsAside b line) :=
  inferInstanceAs (Decidable (∃ p < _, _))

/-- There is something else than white space on a line, and it does not start with a comment
or directive. -/
def HoldsCode (b : Buffer) (line : Nat) : Prop :=
  ¬ b.text.IsWhite line ∧ ¬ StartsAside b line

instance (b : Buffer) (line : Nat) : Decidable (HoldsCode b line) :=
  inferInstanceAs (Decidable (_ ∧ _))

theorem blankToAside_iff {fuel pos : Nat} :
    blankToAside b fuel pos = true
      ↔ (∃ p < pos + fuel, pos ≤ p
          ∧ (∀ q < p, pos ≤ q → Indentation.isBlank (b.text.byteAt q) = true)
          ∧ ((b.tokenAt p).isComment || b.tokenAt p == .directive) = true)
        ∨ ∀ q < pos + fuel, pos ≤ q → Indentation.isBlank (b.text.byteAt q) = true := by
  induction fuel generalizing pos with
  | zero =>
    rw [blankToAside]
    exact iff_of_true rfl (Or.inr fun q hq hpos => by omega)
  | succ fuel ih =>
    rw [blankToAside]
    by_cases htoken : ((b.tokenAt pos).isComment || b.tokenAt pos == .directive) = true
    · rw [if_pos htoken]
      exact iff_of_true rfl
        (Or.inl ⟨pos, by omega, Nat.le_refl _, fun q hq hpos => by omega, htoken⟩)
    · rw [if_neg htoken]
      by_cases hblank : Indentation.isBlank (b.text.byteAt pos) = true
      · have hfrom (n : Nat) : (∀ q < n, pos ≤ q → Indentation.isBlank (b.text.byteAt q) = true)
            ↔ ∀ q < n, pos + 1 ≤ q → Indentation.isBlank (b.text.byteAt q) = true := by
          refine ⟨fun h q hq hpos => h q hq (by omega), fun h q hq hpos => ?_⟩
          rcases Nat.eq_or_lt_of_le hpos with rfl | hlt
          · exact hblank
          · exact h q hq hlt
        rw [if_pos hblank, ih, show pos + (fuel + 1) = pos + 1 + fuel by omega]
        simp only [hfrom]
        refine or_congr_left ⟨?_, ?_⟩
        · rintro ⟨p, hp, hle, h⟩
          exact ⟨p, hp, by omega, h⟩
        · rintro ⟨p, hp, hle, h⟩
          rcases Nat.eq_or_lt_of_le hle with rfl | hlt
          · exact absurd h.2 htoken
          · exact ⟨p, hp, hlt, h⟩
      · rw [if_neg hblank]
        refine iff_of_false Bool.false_ne_true ?_
        rintro (⟨p, hp, hle, hbefore, h⟩ | hall)
        · rcases Nat.eq_or_lt_of_le hle with rfl | hlt
          · exact htoken h
          · exact hblank (hbefore pos hlt (Nat.le_refl _))
        · exact hblank (hall pos (by omega) (Nat.le_refl _))

/-- The folder looks at all bytes of a line but the last. -/
theorem isAside_iff :
    isAside b line = true
      ↔ (∃ p < Indentation.lineStop b.text line, b.text.lineStart line ≤ p
          ∧ (∀ q < p, b.text.lineStart line ≤ q → Indentation.isBlank (b.text.byteAt q) = true)
          ∧ ((b.tokenAt p).isComment || b.tokenAt p == .directive) = true)
        ∨ ∀ q < Indentation.lineStop b.text line, b.text.lineStart line ≤ q →
          Indentation.isBlank (b.text.byteAt q) = true := by
  unfold isAside
  rw [blankToAside_iff]
  constructor
  · rintro (⟨p, hp, hle, h⟩ | hall)
    · exact Or.inl ⟨p, by omega, hle, h⟩
    · exact Or.inr fun q hq hle => hall q (by omega) hle
  · rintro (⟨p, hp, hle, h⟩ | hall)
    · exact Or.inl ⟨p, by omega, hle, h⟩
    · exact Or.inr fun q hq hle => hall q (by omega) hle

theorem white_indent_iff : (indent b line).white = true ↔ b.text.IsWhite line :=
  b.text.white_level_iff line

theorem white_indent_of_holdsCode (h : HoldsCode b line) : (indent b line).white = false := by
  rw [← Bool.not_eq_true, white_indent_iff]
  exact h.1

theorem holdsCode_of_isCode (h : isCode b line = true) : HoldsCode b line := by
  simp only [isCode, Bool.and_eq_true, Bool.not_eq_true'] at h
  obtain ⟨hwhite, haside⟩ := h
  refine ⟨fun hw => ?_, ?_⟩
  · rw [white_indent_iff.2 hw] at hwhite
    cases hwhite
  · rintro ⟨p, hp, hle, h⟩
    have hyes : isAside b line = true := by
      rw [isAside_iff]
      unfold Indentation.lineStop
      by_cases hlt : p < b.text.lineStart (line + 1) - 1
      · exact Or.inl ⟨p, hlt, hle, h⟩
      · exact Or.inr fun q hq hqle => h.1 q (by omega) hqle
    rw [haside] at hyes
    cases hyes

/-- Before the last line the folder sees all code. -/
theorem isCode_iff (h : line < b.text.lastLine) : isCode b line = true ↔ HoldsCode b line := by
  refine ⟨holdsCode_of_isCode, fun hcode => ?_⟩
  obtain ⟨e, he, hbreak, -⟩ := b.text.exists_breaksAfter_of_lt h
  have hno : isAside b line = false := by
    rw [← Bool.not_eq_true, isAside_iff]
    unfold Indentation.lineStop
    rintro (⟨p, hp, haside⟩ | hall)
    · exact hcode.2 ⟨p, by omega, haside⟩
    · -- with blanks up to its terminator the line would be white
      refine hcode.1 ((b.text.isWhite_iff line).2 fun p hp hnext => ?_)
      rcases Nat.lt_or_ge p e with hlt | hge
      · exact Or.inl (hall p (by omega) hp)
      · rw [show p = e by omega]
        exact Or.inr (b.text.byteAt_of_breaksAfter hbreak)
  rw [isCode, white_indent_of_holdsCode hcode, hno]
  rfl

/-- Code that the folder does not see stands on the last line. -/
theorem eq_lastLine_of_holdsCode (h : HoldsCode b line) (hle : line ≤ b.text.lastLine)
    (hno : isCode b line = false) : line = b.text.lastLine := by
  refine (Nat.eq_or_lt_of_le hle).resolve_right fun hlt => ?_
  rw [(isCode_iff hlt).2 h] at hno
  cases hno

/-! ## 2. Imports -/

theorem not_isWhite_of_isImport (h : isImport o b.text line = true) : ¬ b.text.IsWhite line := by
  have hbyte : b.text.byteAt (b.text.lineStart line) = 'i'.toNat := (isImport_iff.1 h).2 0 _ rfl
  have hsize := b.text.lt_size_of_byteAt (p := b.text.lineStart line) (by rw [hbyte]; decide)
  rw [Text.isWhite_iff]
  intro hall
  have hat := hall _ (Nat.le_refl _) (b.text.lineStart_lt_lineStart_succ hsize)
  rw [Text.IsWhiteAt, hbyte] at hat
  revert hat
  decide

/-- An import is not indented. -/
theorem columns_of_isImport (h : isImport o b.text line = true) : b.text.columns line = 0 := by
  have hbyte : b.text.byteAt (b.text.lineStart line) = 'i'.toNat := (isImport_iff.1 h).2 0 _ rfl
  have hsize : b.text.lineStart line < b.text.size :=
    b.text.lt_size_of_byteAt (by rw [hbyte]; decide)
  obtain ⟨x, hx, hbytes⟩ := b.text.bytesIn_cons (b.text.lineStart_lt_lineStart_succ hsize) hsize
  have hblank : isBlankByte x = false := by
    rw [isBlankByte, hx, hbyte]
    decide
  rw [Text.columns, Text.lineBytes, hbytes, columnsFrom_cons, hblank, if_neg Bool.false_ne_true]

/-- An import line with one before it that counts: the first line of the text, or code. -/
def LaterImport (o : Options) (b : Buffer) (line : Nat) : Prop :=
  isImport o b.text line = true
    ∧ ∃ j < line, isImport o b.text j = true ∧ (j = 0 ∨ HoldsCode b j)

instance (o : Options) (b : Buffer) (line : Nat) : Decidable (LaterImport o b line) :=
  inferInstanceAs (Decidable (_ ∧ ∃ j < _, _))

/-- A run has met an import if one stands on a line that it stood on. -/
theorem isSome_seen_iff :
    (seen o b line).isSome = true ↔ ∃ j < line, isImport o b.text j = true ∧ IsHead b j := by
  induction line with
  | zero => simp [seen]
  | succ line ih =>
    have hlast : (∃ j < line + 1, isImport o b.text j = true ∧ IsHead b j)
        ↔ (∃ j < line, isImport o b.text j = true ∧ IsHead b j)
          ∨ (isImport o b.text line = true ∧ IsHead b line) := by
      constructor
      · rintro ⟨j, hj, h⟩
        rcases Nat.lt_succ_iff_lt_or_eq.1 hj with hlt | rfl
        · exact Or.inl ⟨j, hlt, h⟩
        · exact Or.inr h
      · rintro (⟨j, hj, h⟩ | h)
        · exact ⟨j, by omega, h⟩
        · exact ⟨line, Nat.lt_succ_self _, h⟩
    rw [hlast, ← ih, seen]
    split
    · rename_i hhead
      have hhead : IsHead b line := hhead
      rw [withImport_fst]
      cases isImport o b.text line <;> simp [hhead]
    · rename_i hhead
      have hhead : ¬ IsHead b line := hhead
      simp [hhead]

theorem laterImport_iff (hle : line ≤ b.text.lastLine) :
    LaterImport o b line ↔ isImport o b.text line = true ∧ (seen o b line).isSome = true := by
  rw [LaterImport, isSome_seen_iff]
  refine and_congr_right fun _ => exists_congr fun j => and_congr_right fun hj =>
    and_congr_right fun _ => ?_
  rw [IsHead, isCode_iff (Nat.lt_of_lt_of_le hj hle)]

theorem withImport_snd {first : Option Nat} (h : ∀ f ∈ first, f < line) (t : Text)
    (l : FoldLevel) :
    (withImport o t first line l).2
      = if isImport o t line = true ∧ first.isSome = true then deeper l else l := by
  unfold withImport countImport
  cases hi : isImport o t line with
  | false => simp
  | true =>
    cases first with
    | none => simp
    | some f =>
      have hne : (f != line) = true := bne_iff_ne.2 (Nat.ne_of_lt (h f rfl))
      simp [hne]

theorem level_stateAt :
    (stateAt o b line).level
      = if isImport o b.text line = true ∧ (seen o b line).isSome = true
        then deeper (indent b line) else indent b line :=
  withImport_snd (fun _ hf => seen_lt hf) ..

theorem level_stateAt_of_holdsCode (h : HoldsCode b line) (hle : line ≤ b.text.lastLine) :
    (stateAt o b line).level.level
      = FoldLevel.base + b.text.columns line + if LaterImport o b line then 1 else 0 := by
  have hlevel : (indent b line).level = FoldLevel.base + b.text.columns line := by
    rw [← b.text.columnsTo_lineStop_of_not_isWhite h.1]
    exact b.text.level_eq line
  rw [level_stateAt]
  simp only [← laterImport_iff hle]
  split
  · rw [← hlevel]
    rfl
  · rw [← hlevel]
    exact (Int.add_zero _).symm

/-! ## 3. Where a run stands -/

theorem skipAsides_le {fuel : Nat} {l : FoldLevel} (h : line ≤ b.text.lastLine) :
    (skipAsides b fuel line l).1 ≤ b.text.lastLine := by
  induction fuel generalizing line l with
  | zero => exact h
  | succ fuel ih =>
    rw [skipAsides]
    split
    · rename_i hskip
      simp only [Bool.and_eq_true, decide_eq_true_eq] at hskip
      exact ih hskip.1
    · exact h

theorem line_next_le (h : s.line < b.text.lastLine) : (next o b s).line ≤ b.text.lastLine :=
  skipAsides_le h

theorem le_skipAsides (fuel line : Nat) (l : FoldLevel) : line ≤ (skipAsides b fuel line l).1 := by
  induction fuel generalizing line l with
  | zero => exact Nat.le_refl _
  | succ fuel ih =>
    rw [skipAsides]
    split
    · exact Nat.le_trans (Nat.le_succ _) (ih ..)
    · exact Nat.le_refl _

/-- Skipping that gets nowhere leaves the level alone. -/
theorem skipAsides_eq_of_fst {fuel : Nat} {l : FoldLevel}
    (h : (skipAsides b fuel line l).1 = line) : skipAsides b fuel line l = (line, l) := by
  cases fuel with
  | zero => rfl
  | succ fuel =>
    rw [skipAsides] at h ⊢
    split
    · rename_i hskip
      rw [if_pos hskip] at h
      have := le_skipAsides (b := b) fuel (line + 1) (indent b (line + 1))
      omega
    · rfl

/-- What a run takes the indentation of the line it comes to for: what it is, but of a white
line directly behind its own. -/
theorem landing_snd (h : s.line < b.text.lastLine) :
    (landing b s).2
      = if (landing b s).1 = s.line + 1 ∧ b.text.IsWhite (landing b s).1
        then { FoldLevel.plain s.level.level with white := true }
        else indent b (landing b s).1 := by
  obtain ⟨-, -, -, hlevel⟩ := skipAsides_spec (b := b)
    (l := levelAfter b s.line s.level) (fun h => white_levelAfter h s.level) (Nat.le_refl _)
  by_cases hline : (landing b s).1 = s.line + 1
  · have hl : (landing b s).2 = levelAfter b s.line s.level :=
      congrArg Prod.snd (skipAsides_eq_of_fst hline)
    rw [hl, hline]
    simp [levelAfter, Nat.succ_le_of_lt h, ← white_indent_iff]
  · rw [if_neg fun hboth => hline hboth.1]
    exact hlevel.resolve_left fun hsame => hline (congrArg Prod.fst hsame)

/-- The run over the whole text stands on `s`, on its way to the last line. -/
structure Stop (o : Options) (b : Buffer) (s : State) : Prop where
  le : s.line ≤ b.text.lastLine
  stands : IsHead b s.line ∨ s.line = b.text.lastLine
  firstImport : s.firstImport = (stateAt o b s.line).firstImport
  header : s.level.header = false
  white : s.level.white = (indent b s.line).white
  /-- A line that is not white has the level of its columns. -/
  level : s.level.white = false → s.level = (stateAt o b s.line).level
  low : FoldLevel.base ≤ s.level.level
  high : s.level.level ≤ FoldLevel.base + 3071
  /-- What it says from here on is what it says of the whole text. -/
  rest : ∀ j, s.line ≤ j → j ≤ b.text.lastLine →
    levelOf? (runTo o b b.text.lastLine s).1 j = levelOf? (whole o b) j

namespace Stop

/-- Where a run comes to next it knows what any run knows there, except on a white last line
directly behind. -/
theorem next_cases (h : Stop o b s) (hlt : s.line < b.text.lastLine) :
    (next o b s = stateAt o b (next o b s).line
        ∧ ¬ ((next o b s).line = s.line + 1 ∧ b.text.IsWhite (next o b s).line))
      ∨ ((next o b s).line = b.text.lastLine ∧ (next o b s).line = s.line + 1
        ∧ b.text.IsWhite (next o b s).line
        ∧ (next o b s).firstImport = (stateAt o b (next o b s).line).firstImport
        ∧ (next o b s).level = { FoldLevel.plain s.level.level with white := true }) := by
  obtain ⟨hgt, hno, hstop⟩ := next_spec o b s
  have hhead : IsHead b s.line := h.stands.resolve_right (Nat.ne_of_lt hlt)
  have hseen : s.firstImport = seen o b (landing b s).1 :=
    h.firstImport.trans (seen_eq hhead hgt hno).symm
  have hland := landing_snd hlt
  have hline : (next o b s).line = (landing b s).1 := rfl
  by_cases hwhite : (landing b s).1 = s.line + 1 ∧ b.text.IsWhite (landing b s).1
  · have himport : isImport o b.text (landing b s).1 = false := by
      rw [← Bool.not_eq_true]
      exact fun himport => not_isWhite_of_isImport himport hwhite.2
    rw [if_pos hwhite] at hland
    refine Or.inr ⟨?_, hwhite.1, hwhite.2, ?_, ?_⟩
    · refine Nat.le_antisymm (line_next_le hlt) (hstop.resolve_right fun hcode => ?_)
      exact (holdsCode_of_isCode hcode).1 hwhite.2
    · simp only [next_eq, hseen, stateAt, withImport_fst]
    · simp [next_eq, hland, withImport, himport]
  · rw [if_neg hwhite] at hland
    refine Or.inl ⟨?_, hwhite⟩
    rw [next_eq, hseen, hland]
    rfl

/-- What a run says of a line is said between the lines around it that it stands on. -/
theorem levelOf?_runTo {j : Nat} (hj : s.line ≤ j) (hle : j ≤ b.text.lastLine) :
    levelOf? (runTo o b b.text.lastLine s).1 j
      = if j < (next o b s).line then levelOf? (levelsBetween o b s (next o b s)) j
        else levelOf? (runTo o b b.text.lastLine (next o b s)).1 j := by
  have hrest := isSome_levelOf?_runTo (o := o) (b := b) (s := next o b s) hle
  rw [runTo_of_le (Nat.le_trans hj hle), levelOf?_append]
  split
  · have hnone : levelOf? (runTo o b b.text.lastLine (next o b s)).1 j = none := by
      rw [← Option.not_isSome_iff_eq_none, hrest]
      omega
    rw [hnone, Option.none_or]
  · obtain ⟨level, hlevel⟩ := Option.isSome_iff_exists.1 (hrest.2 (by omega))
    rw [hlevel]
    rfl

theorem levelOf?_whole (h : Stop o b s) {j : Nat} (hj : s.line ≤ j) (hle : j ≤ b.text.lastLine)
    (hlt : j < (next o b s).line) :
    levelOf? (whole o b) j = levelOf? (levelsBetween o b s (next o b s)) j := by
  rw [← h.rest j hj hle, levelOf?_runTo hj hle, if_pos hlt]

/-- The columns of a white line count as far as they are measured. -/
theorem indent_bounds (hcol : b.text.columns line < 3071) :
    FoldLevel.base ≤ (indent b line).level ∧ (indent b line).level ≤ FoldLevel.base + 3070 := by
  have hlevel : (indent b line).level = FoldLevel.base
      + b.text.columnsTo line (Indentation.lineStop b.text line) := b.text.level_eq line
  have hle := b.text.columnsTo_lineStop_le line
  rw [hlevel]
  omega

theorem stateAt_bounds (hcol : b.text.columns line < 3071) :
    FoldLevel.base ≤ (stateAt o b line).level.level
      ∧ (stateAt o b line).level.level ≤ FoldLevel.base + 3071 := by
  obtain ⟨hlow, hhigh⟩ := indent_bounds hcol
  rw [level_stateAt]
  split
  · simp only [deeper]
    omega
  · omega

theorem white_stateAt : (stateAt o b line).level.white = (indent b line).white := by
  rw [level_stateAt]
  split <;> rfl

theorem header_stateAt : (stateAt o b line).level.header = false := by
  rw [level_stateAt]
  split <;> rfl

variable (hcol : ∀ line ≤ b.text.lastLine, b.text.columns line < 3071)
include hcol

theorem first : Stop o b (stateAt o b 0) where
  le := Nat.zero_le _
  stands := Or.inl (Or.inl rfl)
  firstImport := rfl
  header := header_stateAt
  white := white_stateAt
  level := fun _ => rfl
  low := (stateAt_bounds (hcol 0 (Nat.zero_le _))).1
  high := (stateAt_bounds (hcol 0 (Nat.zero_le _))).2
  rest := fun _ _ _ => rfl

theorem step (h : Stop o b s) (hlt : s.line < b.text.lastLine) : Stop o b (next o b s) := by
  obtain ⟨hgt, hno, hstop⟩ := next_spec o b s
  have hle := line_next_le (o := o) hlt
  have hstands : IsHead b (next o b s).line ∨ (next o b s).line = b.text.lastLine :=
    hstop.symm.imp Or.inr fun hge => Nat.le_antisymm hle hge
  have hrest (j : Nat) (hj : (next o b s).line ≤ j) (hjle : j ≤ b.text.lastLine) :
      levelOf? (runTo o b b.text.lastLine (next o b s)).1 j = levelOf? (whole o b) j := by
    rw [← h.rest j (by omega) hjle, levelOf?_runTo (s := s) (by omega) hjle, if_neg (by omega)]
  rcases h.next_cases hlt with ⟨hsame, -⟩ | ⟨-, -, hwhite, hfirst, hlevel⟩
  · obtain ⟨hlow, hhigh⟩ := stateAt_bounds (o := o) (hcol _ hle)
    rw [← hsame] at hlow hhigh
    exact {
      le := hle
      stands := hstands
      firstImport := congrArg State.firstImport hsame
      header := by rw [hsame, header_stateAt]
      white := by rw [hsame, white_stateAt, line_stateAt]
      level := fun _ => congrArg State.level hsame
      low := hlow
      high := hhigh
      rest := hrest }
  · exact {
      le := hle
      stands := hstands
      firstImport := hfirst
      header := by rw [hlevel]; rfl
      white := by rw [hlevel, white_indent_iff.2 hwhite]
      level := fun hno => by rw [hlevel] at hno; cases hno
      low := by rw [hlevel]; exact h.low
      high := by rw [hlevel]; exact h.high
      rest := hrest }

/-- A run stands on every line or passes over it. -/
theorem exists_of_le (hle : line ≤ b.text.lastLine) :
    ∃ s, Stop o b s ∧ s.line ≤ line ∧ line < (next o b s).line := by
  have hfrom {s : State} (h : Stop o b s) (hs : s.line ≤ line) :
      ∃ s, Stop o b s ∧ s.line ≤ line ∧ line < (next o b s).line := by
    induction hn : line - s.line using Nat.strongRecOn generalizing s with
    | _ n ih =>
      by_cases hlt : line < (next o b s).line
      · exact ⟨s, h, hs, hlt⟩
      · have hgt := (next_spec o b s).1
        exact ih (line - (next o b s).line) (by omega) (h.step hcol (by omega)) (by omega)
          rfl
  exact hfrom (first hcol) (Nat.zero_le _)

/-- A run stands on all lines of code. -/
theorem exists_of_holdsCode (h : HoldsCode b line) (hle : line ≤ b.text.lastLine) :
    ∃ s, Stop o b s ∧ s.line = line := by
  obtain ⟨s, hs, hbefore, hafter⟩ := exists_of_le (o := o) hcol hle
  refine ⟨s, hs, Nat.le_antisymm hbefore (Nat.le_of_not_lt fun hlt => ?_)⟩
  have hno := (next_spec o b s).2.1 line hlt hafter
  have hlast := eq_lastLine_of_holdsCode h hle hno
  have := line_next_le (o := o) (show s.line < b.text.lastLine by omega)
  omega

end Stop

/-! ## 4. Between two stops -/

/-- What a run says of a line that it passes over, given its level. -/
def asideLevel (o : Options) (b : Buffer) (line : Nat) (level : Int) : FoldLevel :=
  { FoldLevel.plain level with white := o.foldCompact && (indent b line).white }

/-- The last of some lines has the level that the lines before start from. -/
theorem levelOf?_cons_asideLevels {after before own : Int} {first n j : Nat} (hj : first ≤ j)
    (hlt : j < first + (n + 1)) :
    levelOf? ((first + n, asideLevel o b (first + n) own)
        :: asideLevels o b after before own (List.range' first n).reverse) j
      = if j < first + n
        then levelOf? (asideLevels o b after before own (List.range' first n).reverse) j
        else some (asideLevel o b j own).pack := by
  have hsome : (levelOf? (asideLevels o b after before own (List.range' first n).reverse)
      j).isSome = true ↔ j < first + n := by
    rw [isSome_levelOf?_iff, map_fst_asideLevels, List.mem_reverse, List.mem_range'_1]
    omega
  rw [levelOf?]
  by_cases hbefore : j < first + n
  · obtain ⟨level, hlevel⟩ := Option.isSome_iff_exists.1 (hsome.2 hbefore)
    rw [hlevel, if_pos hbefore]
    rfl
  · rw [Option.not_isSome_iff_eq_none.1 (mt hsome.1 hbefore), Option.none_or, if_neg hbefore,
      show first + n = j by omega, if_pos rfl]

/-- The lines that are passed over have the level `before` up to some line, and `level` from
there on. -/
theorem levelOf?_asideLevels (after before level : Int) (first n : Nat) :
    ∃ cut, ∀ j, first ≤ j → j < first + n →
      levelOf? (asideLevels o b after before level (List.range' first n).reverse) j
        = some (asideLevel o b j (if j < cut then before else level)).pack := by
  induction n generalizing level with
  | zero => exact ⟨0, fun j hj hlt => by omega⟩
  | succ n ih =>
    rw [List.range'_1_concat, List.reverse_append, List.reverse_singleton, List.singleton_append,
      asideLevels]
    -- once a line is deeper, those before it start from its new level
    split
    · obtain ⟨cut, hcut⟩ := ih before
      refine ⟨first + (n + 1), fun j hj hlt => ?_⟩
      refine (levelOf?_cons_asideLevels hj hlt).trans ?_
      rw [if_pos hlt]
      split
      · rw [hcut j hj ‹_›, ite_self]
      · rfl
    · obtain ⟨cut, hcut⟩ := ih level
      refine ⟨min cut (first + n), fun j hj hlt => ?_⟩
      refine (levelOf?_cons_asideLevels hj hlt).trans ?_
      split
      · rename_i hbefore
        rw [hcut j hj hbefore]
        simp only [Nat.lt_min, hbefore, and_true]
      · rename_i hlast
        rw [if_neg fun hlt' => hlast (Nat.lt_min.1 hlt').2]

/-- Between two stops the levels fall from the greater of theirs to that of the second. -/
theorem levelOf?_levelsBetween {after : State} (h : s.line < after.line) :
    levelOf? (levelsBetween o b s after) s.line = some (ownLevel o s after).pack
      ∧ ∃ cut, ∀ j, s.line < j → j < after.line →
        levelOf? (levelsBetween o b s after) j
          = some (asideLevel o b j (if j < cut then max s.level.level after.level.level
            else after.level.level)).pack := by
  have hlook (j : Nat) : levelOf? (levelsBetween o b s after) j
      = if s.line = j then some (ownLevel o s after).pack
        else levelOf? (asideLevels o b after.level.level
          (max s.level.level after.level.level) after.level.level
          (List.range' (s.line + 1) (after.line - (s.line + 1))).reverse) j := by
    rw [levelsBetween, levelOf?_append, levelOf?, levelOf?, Option.none_or]
    split
    · rfl
    · rw [Option.none_or]
  obtain ⟨cut, hcut⟩ := levelOf?_asideLevels (o := o) (b := b) after.level.level
    (max s.level.level after.level.level) after.level.level (s.line + 1)
    (after.line - (s.line + 1))
  refine ⟨by rw [hlook, if_pos rfl], cut, fun j hj hlt => ?_⟩
  rw [hlook, if_neg (Nat.ne_of_lt hj), hcut j hj (by omega)]

/-! ## 5. All lines -/

theorem level_next_of_lastLine (h : s.line = b.text.lastLine) :
    (next o b s).level.level = s.level.level := by
  have hfuel : b.text.lastLine - (s.line + 1) = 0 := by omega
  have hpast : ¬ s.line + 1 ≤ b.text.lastLine := by omega
  have hno : isImport o b.text (s.line + 1) = false := by
    rw [← Bool.not_eq_true]
    refine fun himport => not_isWhite_of_isImport himport ?_
    rw [Text.IsWhite, b.text.lineBytes_eq_nil (b.text.lineStart_of_lastLine_lt (by omega))]
    exact fun x hx => absurd hx List.not_mem_nil
  rw [next_eq, landing, hfuel, skipAsides]
  simp only [withImport, hno, levelAfter, hpast, if_false]
  rw [if_neg Bool.false_ne_true]
  split <;> rfl

namespace Stop

/-- A line that a run stands on has its level, and opens a fold if the next stop is deeper. -/
theorem levelOf?_own (h : Stop o b s) :
    levelOf? (whole o b) s.line = some (ownLevel o s (next o b s)).pack := by
  have hgt := (next_spec o b s).1
  rw [h.levelOf?_whole (Nat.le_refl _) h.le hgt]
  exact (levelOf?_levelsBetween hgt).1

/-- The last line opens no fold. -/
theorem header_ownLevel_of_lastLine (h : s.line = b.text.lastLine) :
    (ownLevel o s (next o b s)).header = false := by
  simp [ownLevel, level_next_of_lastLine h]

section

variable (hcol : ∀ line ≤ b.text.lastLine, b.text.columns line < 3071)
include hcol

/-- From the line behind a stop up to the next stop, levels fall once at most. -/
theorem exists_cut (h : Stop o b s) (hlt : s.line < b.text.lastLine) :
    ∃ cut, ∀ j, s.line < j → j ≤ (next o b s).line →
      ∃ l : FoldLevel, levelOf? (whole o b) j = some l.pack
        ∧ l.level = (if j < cut then max s.level.level (next o b s).level.level
          else (next o b s).level.level)
        ∧ (j < (next o b s).line → l.header = false) := by
  have hgt := (next_spec o b s).1
  have hle := line_next_le (o := o) hlt
  obtain ⟨-, cut, hcut⟩ := levelOf?_levelsBetween (o := o) (b := b) hgt
  refine ⟨min cut (next o b s).line, fun j hj hjle => ?_⟩
  rcases Nat.lt_or_eq_of_le hjle with hjlt | rfl
  · refine ⟨_, (h.levelOf?_whole (Nat.le_of_lt hj) (Nat.le_trans hjle hle) hjlt).trans
      (hcut j hj hjlt), ?_, fun _ => rfl⟩
    simp only [Nat.lt_min, hjlt, and_true]
    rfl
  · refine ⟨_, (h.step hcol hlt).levelOf?_own, ?_, fun hirrefl => absurd hirrefl (Nat.lt_irrefl _)⟩
    rw [if_neg fun hirrefl => Nat.lt_irrefl _ (Nat.lt_min.1 hirrefl).2]
    rfl

end

end Stop

/-- A level that is read back from its packed form. -/
def InRange (l : FoldLevel) : Prop := FoldLevel.base ≤ l.level ∧ l.level ≤ FoldLevel.base + 3071

section

variable (hcol : ∀ line ≤ b.text.lastLine, b.text.columns line < 3071)
include hcol

/-- A line that opens a fold comes before a deeper one, and a line before a deeper one opens
a fold unless it is white. -/
theorem exists_levels (hlt : line < b.text.lastLine) :
    ∃ l l' : FoldLevel, levelOf? (whole o b) line = some l.pack ∧ InRange l
      ∧ levelOf? (whole o b) (line + 1) = some l'.pack ∧ InRange l'
      ∧ (l.header = true → l.level < l'.level)
      ∧ (l.level < l'.level → l.header = true ∨ b.text.IsWhite line) := by
  obtain ⟨s, hs, hbefore, hafter⟩ := Stop.exists_of_le (o := o) hcol (Nat.le_of_lt hlt)
  have hnext := hs.step hcol (Nat.lt_of_le_of_lt hbefore hlt)
  obtain ⟨cut, hcut⟩ := hs.exists_cut hcol (Nat.lt_of_le_of_lt hbefore hlt)
  have hlow := hs.low
  have hhigh := hs.high
  have hlow' := hnext.low
  have hhigh' := hnext.high
  obtain ⟨l', hl', hlevel', -⟩ := hcut (line + 1) (by omega) hafter
  have hin' : InRange l' := by
    unfold InRange
    split at hlevel' <;> omega
  rcases Nat.eq_or_lt_of_le hbefore with rfl | hgt
  · refine ⟨_, l', hs.levelOf?_own, ⟨hlow, hhigh⟩, hl', hin', fun hheader => ?_, fun hdeeper => ?_⟩
    · simp only [ownLevel, Bool.and_eq_true, decide_eq_true_eq] at hheader
      show s.level.level < l'.level
      split at hlevel' <;> omega
    · have hdeeper : s.level.level < l'.level := hdeeper
      have hA : s.level.level < (next o b s).level.level := by
        split at hlevel' <;> omega
      cases hwhite : s.level.white with
      | true =>
        rw [hs.white, white_indent_iff] at hwhite
        exact Or.inr hwhite
      | false => simp [ownLevel, hwhite, hA]
  · obtain ⟨l, hl, hlevel, hheader⟩ := hcut line hgt (Nat.le_of_lt hafter)
    have hin : InRange l := by
      unfold InRange
      split at hlevel <;> omega
    refine ⟨l, l', hl, hin, hl', hin', fun hyes => ?_, fun hdeeper => ?_⟩
    · rw [hheader hafter] at hyes
      cases hyes
    · exfalso
      split at hlevel <;> split at hlevel' <;> omega

/-- The last line has a level and opens no fold. -/
theorem exists_level_lastLine :
    ∃ l : FoldLevel, levelOf? (whole o b) b.text.lastLine = some l.pack ∧ InRange l
      ∧ l.header = false := by
  obtain ⟨s, hs, hbefore, hafter⟩ := Stop.exists_of_le (o := o) hcol (Nat.le_refl b.text.lastLine)
  have hlast : s.line = b.text.lastLine := by
    refine Nat.le_antisymm hbefore (Nat.le_of_not_lt fun hlt => ?_)
    have := line_next_le (o := o) hlt
    omega
  rw [← hlast]
  exact ⟨ownLevel o s (next o b s), hs.levelOf?_own, ⟨hs.low, hs.high⟩,
    Stop.header_ownLevel_of_lastLine hlast⟩

/-- A line of code has the level of its columns, one more on a later import. -/
theorem exists_level_of_holdsCode (h : HoldsCode b line) (hle : line ≤ b.text.lastLine) :
    ∃ l : FoldLevel, levelOf? (whole o b) line = some l.pack ∧ InRange l
      ∧ l.level = FoldLevel.base + b.text.columns line + if LaterImport o b line then 1 else 0 := by
  obtain ⟨s, hs, rfl⟩ := Stop.exists_of_holdsCode (o := o) hcol h hle
  refine ⟨_, hs.levelOf?_own, ⟨hs.low, hs.high⟩, ?_⟩
  rw [← level_stateAt_of_holdsCode h hle,
    ← hs.level (hs.white.trans (white_indent_of_holdsCode h))]
  rfl

end

/-! ## 6. Which lines of code open a fold -/

/-- The next line of code is indented deeper. -/
def DeeperCodeFollows (b : Buffer) (line : Nat) : Prop :=
  ∃ n < b.text.lineCount, line < n ∧ HoldsCode b n
    ∧ (∀ j < n, line < j → ¬ HoldsCode b j) ∧ b.text.columns line < b.text.columns n

/-- No code follows, and the last line of the text starts with more blanks before its last
byte. A white last line is only looked at when another line stands in between. -/
def DeeperLastLineFollows (b : Buffer) (line : Nat) : Prop :=
  (∀ n < b.text.lineCount, line < n → ¬ HoldsCode b n) ∧ line < b.text.lastLine
    ∧ b.text.columns line < b.text.columnsTo b.text.lastLine (b.size - 1)
    ∧ (b.text.IsWhite b.text.lastLine → line + 1 < b.text.lastLine)

theorem lineStop_lastLine (t : Text) : Indentation.lineStop t t.lastLine = t.size - 1 := by
  rw [Indentation.lineStop, t.lineStart_of_lastLine_lt (Nat.lt_succ_self _)]

theorem not_deeperLastLineFollows_of_newline
    (h : b.text.lineStart b.text.lastLine = b.size) : ¬ DeeperLastLineFollows b line := by
  rintro ⟨-, -, hdeeper, -⟩
  have hle := b.text.columnsTo_lineStop_le b.text.lastLine
  rw [lineStop_lastLine, Text.columns, b.text.lineBytes_eq_nil h] at hle
  have hnil : columnsFrom 0 [] = 0 := rfl
  rw [show b.size = b.text.size from rfl] at hdeeper
  omega

theorem level_stateAt_of_foldImports (ho : o.foldImports = false) :
    (stateAt o b line).level.level
      = FoldLevel.base + b.text.columnsTo line (Indentation.lineStop b.text line) := by
  have hno : isImport o b.text line = false := by simp [isImport, ho]
  rw [level_stateAt, hno, if_neg fun himport => Bool.false_ne_true himport.1]
  exact b.text.level_eq line

theorem Stop.level_eq_columns (hs : Stop o b s) (ho : o.foldImports = false)
    (h : HoldsCode b s.line) : s.level.level = FoldLevel.base + b.text.columns s.line := by
  rw [hs.level (hs.white.trans (white_indent_of_holdsCode h)), level_stateAt_of_foldImports ho,
    b.text.columnsTo_lineStop_of_not_isWhite h.1]

/-- There is but one next line of code. -/
theorem deeperCodeFollows_iff {n : Nat} (hn : n < b.text.lineCount) (hlt : line < n)
    (hcode : HoldsCode b n) (hno : ∀ j < n, line < j → ¬ HoldsCode b j) :
    DeeperCodeFollows b line ↔ b.text.columns line < b.text.columns n := by
  refine ⟨?_, fun hdeeper => ⟨n, hn, hlt, hcode, hno, hdeeper⟩⟩
  rintro ⟨m, -, hm, hmcode, hmno, hdeeper⟩
  rcases Nat.lt_trichotomy m n with hmn | rfl | hmn
  · exact absurd hmcode (hno m hmn hm)
  · exact hdeeper
  · exact absurd hcode (hmno n hmn hlt)

/-- A stop on a last line without code is deeper than the one before if more is measured of
it, unless it is white and stands directly behind. -/
theorem Stop.lt_level_next_iff (hs : Stop o b s) (ho : o.foldImports = false)
    (hcode : HoldsCode b s.line) (hlt : s.line < b.text.lastLine)
    (hlast : (next o b s).line = b.text.lastLine) :
    s.level.level < (next o b s).level.level
      ↔ b.text.columns s.line < b.text.columnsTo b.text.lastLine (b.size - 1)
        ∧ (b.text.IsWhite b.text.lastLine → s.line + 1 < b.text.lastLine) := by
  rw [hs.level_eq_columns ho hcode]
  rcases hs.next_cases hlt with ⟨hsame, hapart⟩ | ⟨-, hbehind, hwhite, -, hflat⟩
  · have hlevel : (next o b s).level.level
        = FoldLevel.base + b.text.columnsTo b.text.lastLine (b.size - 1) := by
      rw [hsame, level_stateAt_of_foldImports ho, hlast, lineStop_lastLine]
      rfl
    rw [hlast] at hapart
    rw [hlevel]
    constructor
    · intro hdeeper
      refine ⟨by omega, fun hwhite => ?_⟩
      have : b.text.lastLine ≠ s.line + 1 := fun heq => hapart ⟨heq, hwhite⟩
      omega
    · rintro ⟨hdeeper, -⟩
      omega
  · have hlevel : (next o b s).level.level = s.level.level := by
      rw [hflat]
      rfl
    rw [hlevel, hs.level_eq_columns ho hcode]
    rw [hlast] at hbehind hwhite
    refine iff_of_false (Int.lt_irrefl _) ?_
    rintro ⟨-, hbetween⟩
    have := hbetween hwhite
    omega

section

variable (hcol : ∀ line ≤ b.text.lastLine, b.text.columns line < 3071)
include hcol

/-- Without import folding, a line of code opens a fold exactly if the next line of code is
deeper, or there is none and the last line of the text is. -/
theorem exists_header_iff (ho : o.foldImports = false) (h : HoldsCode b line)
    (hle : line ≤ b.text.lastLine) :
    ∃ l : FoldLevel, levelOf? (whole o b) line = some l.pack ∧ InRange l
      ∧ (l.header = true ↔ DeeperCodeFollows b line ∨ DeeperLastLineFollows b line) := by
  have hcount := b.text.lineCount_eq_lastLine
  obtain ⟨s, hs, rfl⟩ := Stop.exists_of_holdsCode (o := o) hcol h hle
  refine ⟨_, hs.levelOf?_own, ⟨hs.low, hs.high⟩, ?_⟩
  rcases Nat.lt_or_eq_of_le hle with hlt | hlast
  · obtain ⟨hgt, hskip, hstop⟩ := next_spec o b s
    have hnle := line_next_le (o := o) hlt
    have hno (j : Nat) (hjlt : j < (next o b s).line) (hj : s.line < j) : ¬ HoldsCode b j := by
      rw [← isCode_iff (Nat.lt_of_lt_of_le hjlt hnle), hskip j hj hjlt]
      exact Bool.false_ne_true
    have hheader : (ownLevel o s (next o b s)).header = true
        ↔ s.level.level < (next o b s).level.level := by
      simp [ownLevel, hs.white.trans (white_indent_of_holdsCode h)]
    rw [hheader]
    by_cases hcode : HoldsCode b (next o b s).line
    · -- it comes to the next line of code
      have hnot : ¬ DeeperLastLineFollows b s.line :=
        fun hlast => hlast.1 _ (by omega) hgt hcode
      rw [or_iff_left hnot, deeperCodeFollows_iff (by omega) hgt hcode hno,
        hs.level_eq_columns ho h, (hs.step hcol hlt).level_eq_columns ho hcode]
      omega
    · -- it comes to the last line, which holds none
      have hlast : (next o b s).line = b.text.lastLine :=
        Nat.le_antisymm hnle (hstop.resolve_right fun hyes => hcode (holdsCode_of_isCode hyes))
      have hnone (n : Nat) (hn : n < b.text.lineCount) (hgt' : s.line < n) : ¬ HoldsCode b n := by
        rcases Nat.lt_or_eq_of_le (show n ≤ (next o b s).line by omega) with hlt' | rfl
        · exact hno n hlt' hgt'
        · exact hcode
      have hnot : ¬ DeeperCodeFollows b s.line :=
        fun ⟨n, hn, hgt', hncode, _⟩ => hnone n hn hgt' hncode
      rw [or_iff_right hnot, hs.lt_level_next_iff ho h hlt hlast]
      exact ⟨fun hdeeper => ⟨hnone, hlt, hdeeper⟩, fun hdeeper => hdeeper.2.2⟩
  · rw [Stop.header_ownLevel_of_lastLine hlast]
    refine iff_of_false Bool.false_ne_true ?_
    rintro (⟨n, hn, hgt, -⟩ | ⟨-, hlt, -⟩) <;> omega

end

end Restyle.Haskell.Folding
