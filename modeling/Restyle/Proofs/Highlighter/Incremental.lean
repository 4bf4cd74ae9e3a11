/-
Restyle.Proofs.Highlighter.Incremental — restyling after edits is styling
from scratch.

`Kept l h b` is what a highlighter `h` can rely on of its buffer `b`: up
to the line start where styling would restart, tokens, line states and
fold levels are those of the text as it is now, and behind it nothing is
known (`Kept.edit`, `Kept.ensure`). It holds of every buffer that was
edited and styled in any order (`kept_runAll`). Styling to the end leaves
only one way for the tables to be (`Kept.ensure_unique`), and a new
highlighter on a new buffer comes to the same (`ensure_eq_fresh`).
-/
import Restyle.Proofs.Lexer.Folding

namespace Restyle

/-! ## 1. Where styling restarts -/

namespace Highlighter

variable {l : Lexer} {h h' : Highlighter} {b b' : Buffer}

theorem restart_mem_starts (h : Highlighter) (b : Buffer) : h.restart b ∈ b.text.starts :=
  b.text.lineStart_mem_starts (b.text.lineOf_le_lastLine _)

theorem restart_le (h : Highlighter) (b : Buffer) : h.restart b ≤ min h.styledTo b.size :=
  b.text.lineStart_lineOf_le _

theorem restart_of_zero (hzero : h.styledTo = 0) : h.restart b = 0 :=
  Nat.le_zero.1 (Nat.le_trans (h.restart_le b) (by rw [hzero]; exact Nat.min_le_left ..))

theorem goal_le (b : Buffer) (pos : Nat) : goal b pos ≤ b.size := b.text.lineStart_le_size _

theorem lt_goal {p pos : Nat} (hp : p < min pos b.size) : p < goal b pos := by
  have hlast : min pos b.size - 1 < b.text.size := by
    show min pos b.size - 1 < b.size
    omega
  have := b.text.lt_lineStart_lineOf_succ hlast
  unfold goal
  omega

theorem goal_mem_starts (b : Buffer) (pos : Nat) :
    goal b pos ∈ b.text.starts ∨ goal b pos = b.size := by
  unfold goal
  rcases Nat.lt_or_ge (b.text.lineOf (min pos b.size - 1)) b.text.lastLine with hlt | hge
  · exact Or.inl (b.text.lineStart_mem_starts hlt)
  · exact Or.inr (b.text.lineStart_of_lastLine_lt (Nat.lt_succ_of_le hge))

/-! ### What a call does -/

theorem ensure_of_le {pos : Nat} (hpos : 0 < b.size)
    (hle : min pos b.size ≤ min h.styledTo b.size) :
    h.ensure b pos = ({ h with styledTo := min h.styledTo b.size }, b) := by
  rw [ensure, if_neg (Nat.ne_of_gt hpos), if_pos hle]

/-- A call that has something to style lexes and folds whole lines up to its goal. -/
theorem exists_ensure_of_lt {pos : Nat} (hlt : min h.styledTo b.size < min pos b.size) :
    ∃ f levels, h.ensure b pos
      = (⟨h.lexer.remember f, goal b pos⟩,
        (h.lexer.lex b (h.restart b) (goal b pos - h.restart b)
          (tokenBefore b (h.restart b))).setLevels levels) := by
  obtain ⟨f, levels, hfold⟩ := h.lexer.fold_eq
    (h.lexer.lex b (h.restart b) (goal b pos - h.restart b) (tokenBefore b (h.restart b)))
    (h.restart b) (goal b pos - h.restart b)
  refine ⟨f, levels, ?_⟩
  rw [ensure, if_neg (by omega), if_neg (Nat.not_le_of_lt hlt)]
  simp only [hfold]

/-- All that a call can do: reset an empty text, nothing, or lex and fold whole lines. -/
theorem ensure_cases (h : Highlighter) (b : Buffer) (pos : Nat) :
    (b.size = 0 ∧ h.ensure b pos
        = ({ h with styledTo := 0 }, (b.setLineState 0 0).setLevel 0 FoldLevel.base))
      ∨ (0 < b.size ∧ h.ensure b pos = ({ h with styledTo := min h.styledTo b.size }, b))
      ∨ (0 < b.size ∧ ∃ f levels, h.ensure b pos
        = (⟨h.lexer.remember f, goal b pos⟩,
          (h.lexer.lex b (h.restart b) (goal b pos - h.restart b)
            (tokenBefore b (h.restart b))).setLevels levels)) := by
  rcases Nat.eq_zero_or_pos b.size with hzero | hpos
  · refine Or.inl ⟨hzero, ?_⟩
    rw [ensure, if_pos hzero]
  · rcases Nat.lt_or_ge (min h.styledTo b.size) (min pos b.size) with hlt | hge
    · exact Or.inr (Or.inr ⟨hpos, exists_ensure_of_lt hlt⟩)
    · exact Or.inr (Or.inl ⟨hpos, ensure_of_le hpos hge⟩)

theorem text_ensure (h : Highlighter) (b : Buffer) (pos : Nat) :
    (h.ensure b pos).2.text = b.text := by
  obtain ⟨-, he⟩ | ⟨-, he⟩ | ⟨-, f, levels, he⟩ := h.ensure_cases b pos <;> rw [he]
  · rfl
  · rw [Buffer.text_setLevels, Lexer.text_lex]

theorem wellFormed_ensure (h : Highlighter) (hb : b.WellFormed) (pos : Nat) :
    (h.ensure b pos).2.WellFormed := by
  obtain ⟨-, he⟩ | ⟨-, he⟩ | ⟨-, f, levels, he⟩ := h.ensure_cases b pos <;> rw [he]
  · exact (hb.setLineState 0 0).setLevel 0 _
  · exact hb
  · exact (h.lexer.wellFormed_lex hb ..).setLevels levels

/-- A call changes nothing of the lexer but what it remembers. -/
theorem exists_remember_ensure (h : Highlighter) (b : Buffer) (pos : Nat) :
    ∃ f, (h.ensure b pos).1.lexer = h.lexer.remember f := by
  obtain ⟨f₀, hf₀⟩ := h.lexer.exists_remember_eq
  obtain ⟨-, he⟩ | ⟨-, he⟩ | ⟨-, f, levels, he⟩ := h.ensure_cases b pos <;> rw [he]
  · exact ⟨f₀, hf₀.symm⟩
  · exact ⟨f₀, hf₀.symm⟩
  · exact ⟨f, rfl⟩

/-- Afterwards the position remembered is not before the one asked for. -/
theorem le_styledTo_ensure (h : Highlighter) (b : Buffer) (pos : Nat) :
    min pos b.size ≤ (h.ensure b pos).1.styledTo := by
  rcases Nat.eq_zero_or_pos b.size with hzero | hpos
  · omega
  · rcases Nat.lt_or_ge (min h.styledTo b.size) (min pos b.size) with hlt | hge
    · obtain ⟨f, levels, he⟩ := exists_ensure_of_lt hlt
      rw [he]
      have hlast : min pos b.size - 1 < min pos b.size := by omega
      have := lt_goal hlast
      show min pos b.size ≤ goal b pos
      omega
    · rw [ensure_of_le hpos hge]
      exact hge

/-- After styling to the end there is nothing left to style. -/
theorem size_le_styledTo (h : Highlighter) (b : Buffer) :
    b.size ≤ (h.ensure b b.size).1.styledTo := by
  have hle := h.le_styledTo_ensure b b.size
  rw [Nat.min_self] at hle
  exact hle

/-! ## 2. The invariant -/

/-- The buffer holds what the lexer says of its text. -/
structure Done (l : Lexer) (b : Buffer) : Prop where
  styled : l.Styled b (b.size + 1)
  folded : l.folds = true → b.Holds (l.wholeLevels b) b.text.lineCount

/-- Up to where styling would restart the buffer holds what the lexer says of its text, and
if the highlighter has nothing to style, everywhere. -/
structure Kept (l : Lexer) (h : Highlighter) (b : Buffer) : Prop where
  wellFormed : b.WellFormed
  lexer : ∃ f, h.lexer = l.remember f
  styled : l.Styled b (h.restart b)
  folded : l.folds = true → h.lexer.Folded b (h.restart b)
  unfolded : l.folds = false → b.Unfolded
  done : 0 < b.size → b.size ≤ h.styledTo → Done l b

/-- A highlighter that has styled nothing relies on nothing. -/
theorem kept_of_zero (hb : b.WellFormed) (hlexer : ∃ f, h.lexer = l.remember f)
    (hzero : h.styledTo = 0) (hflat : l.folds = false → b.Unfolded) : Kept l h b := by
  have hrestart : h.restart b = 0 := restart_of_zero hzero
  refine ⟨hb, hlexer, ?_, ?_, hflat, ?_⟩
  · rw [hrestart]
    exact l.styled_zero _
  · rw [hrestart]
    exact fun _ => Lexer.folded_zero ..
  · intro hpos hle
    omega

theorem kept_start (l : Lexer) (t : Text) : Kept l (start l) (Buffer.ofText t) := by
  obtain ⟨f, hf⟩ := l.exists_remember_eq
  exact kept_of_zero (Buffer.wellFormed_ofText t) ⟨f, hf.symm⟩ rfl
    fun _ => Buffer.unfolded_ofText t

/-! ### Edits -/

/-- After an edit at `pos` styling restarts at a line start up to which nothing changed, and
no later than before. -/
theorem restart_edit {pos : Nat} (hs : Buffer.BeginsAs pos b b') (h : Highlighter) :
    (h.edit pos).restart b' ≤ h.restart b
      ∧ (0 < (h.edit pos).restart b' → Buffer.SameTo ((h.edit pos).restart b') b b') := by
  have hle : pos ≤ b.size := hs.text.le
  have hle' : pos ≤ b'.size := hs.text.le'
  have hmin : min (h.edit pos).styledTo b'.size = min h.styledTo (pos - 1) := by
    show min (min h.styledTo (pos - 1)) b'.size = _
    omega
  unfold restart
  rw [hmin]
  rcases Nat.eq_zero_or_pos pos with rfl | hpos
  · have hzero : b'.text.lineStart (b'.text.lineOf (min h.styledTo (0 - 1))) = 0 :=
      Nat.le_zero.1 (Nat.le_trans (b'.text.lineStart_lineOf_le _) (Nat.min_le_right ..))
    rw [hzero]
    exact ⟨Nat.zero_le _, fun hlt => absurd hlt (Nat.lt_irrefl 0)⟩
  · have hlt : min h.styledTo (pos - 1) < pos := by omega
    have hstart := b.text.lineStart_lineOf_le (min h.styledTo (pos - 1))
    rw [hs.text.lineStart_lineOf hlt]
    constructor
    · exact Text.lineStart_lineOf_mono _ (by omega)
    · intro hk
      exact hs.sameTo (b.text.lineStart_mem_starts (b.text.lineOf_le_lastLine _)) hk (by omega)

/-- An edit that the highlighter is told of keeps what it relies on. -/
theorem Kept.edit (hk : Kept l h b) {pos : Nat} (hs : Buffer.BeginsAs pos b b')
    (hb : b'.WellFormed) (hflat : b.Unfolded → b'.Unfolded) : Kept l (h.edit pos) b' := by
  obtain ⟨hle, hsame⟩ := restart_edit hs h
  refine ⟨hb, hk.lexer, ?_, ?_, fun hoff => hflat (hk.unfolded hoff), ?_⟩
  · rcases Nat.eq_zero_or_pos ((h.edit pos).restart b') with hzero | hpos
    · rw [hzero]
      exact l.styled_zero _
    · exact (hk.styled.mono hle).sameTo (hsame hpos)
  · intro hon
    rcases Nat.eq_zero_or_pos ((h.edit pos).restart b') with hzero | hpos
    · rw [hzero]
      exact Lexer.folded_zero ..
    · exact ((hk.folded hon).mono hle).sameTo (hsame hpos)
  · intro hpos hdone
    have hle' : pos ≤ b'.size := hs.text.le'
    have hmin : (h.edit pos).styledTo = min h.styledTo (pos - 1) := rfl
    omega

/-! ### Styling -/

theorem styled_setLevels {k : Nat} (hs : l.Styled b k) (levels : List (Nat × FoldLevel)) :
    l.Styled (b.setLevels levels) k := by
  constructor
  · intro p hp hsize
    rw [Buffer.tokenAt_setLevels, Buffer.text_setLevels]
    exact hs.token p hp (by simpa [Buffer.size] using hsize)
  · intro line hline
    rw [Buffer.text_setLevels] at hline ⊢
    rw [Buffer.lineState, Buffer.lineStates_setLevels]
    exact hs.state line hline

/-- What is done to an empty text takes nothing for granted. -/
theorem Kept.reset (hk : Kept l h b) :
    Kept l { h with styledTo := 0 } ((b.setLineState 0 0).setLevel 0 FoldLevel.base) := by
  refine kept_of_zero ((hk.wellFormed.setLineState 0 0).setLevel 0 _) hk.lexer rfl ?_
  intro hoff
  exact Buffer.Unfolded.setLevel (b := b.setLineState 0 0) (hk.unfolded hoff) 0

/-- A highlighter may forget that it had styled a longer text. -/
theorem Kept.ensure_styled (hk : Kept l h b) : Kept l { h with styledTo := min h.styledTo b.size } b := by
  have hsame : Highlighter.restart { h with styledTo := min h.styledTo b.size } b = h.restart b := by
    simp only [restart, Nat.min_assoc, Nat.min_self]
  refine ⟨hk.wellFormed, hk.lexer, ?_, ?_, hk.unfolded, ?_⟩
  · rw [hsame]
    exact hk.styled
  · rw [hsame]
    exact hk.folded
  · intro hpos hle
    exact hk.done hpos (Nat.le_trans hle (Nat.min_le_left ..))

/-- Folding what was styled makes the end of the range the place to go on from. -/
theorem Kept.of_fold (hb : b.WellFormed) {k n : Nat} (hk : k ∈ b.text.starts) (hn : k + n ≤ b.size)
    (hstop : k + n ∈ b.text.starts ∨ k + n = b.size)
    (hstyled : l.Styled b (Cursor.start b.text k n).stop) {f : Option Nat}
    (hfolded : l.folds = true → (l.remember f).Folded b k)
    (hflat : l.folds = false → b.Unfolded) :
    Kept l ⟨((l.remember f).fold b k n).1, k + n⟩ ((l.remember f).fold b k n).2 := by
  obtain ⟨f', levels, hfold⟩ := (l.remember f).fold_eq b k n
  have hrestart : Highlighter.restart ⟨((l.remember f).fold b k n).1, k + n⟩
      ((l.remember f).fold b k n).2 ≤ k + n :=
    Nat.le_trans (restart_le ..) (Nat.min_le_left ..)
  refine ⟨?_, ⟨f', by rw [hfold, Lexer.remember_remember]⟩, ?_, ?_, ?_, ?_⟩
  · rw [hfold]
    exact hb.setLevels levels
  · apply Lexer.Styled.mono _ hrestart
    rw [hfold]
    exact styled_setLevels (hstyled.mono Cursor.le_stop_start) levels
  · intro hon
    exact ((hfolded hon).fold (by rw [Lexer.folds_remember, hon]) hb hk hn hstop).mono hrestart
  · intro hoff
    rw [Lexer.fold_of_not_folds (by rw [Lexer.folds_remember, hoff])]
    exact hflat hoff
  · intro _ hle
    have hsize : ((l.remember f).fold b k n).2.size = b.size := by
      rw [hfold, Buffer.size, Buffer.text_setLevels, Buffer.size]
    have heq : k + n = b.size := by
      rw [hsize] at hle
      exact Nat.le_antisymm hn hle
    refine ⟨?_, fun hon => ?_⟩
    · rw [Cursor.stop_start_of_eq heq] at hstyled
      rw [hsize, hfold]
      exact styled_setLevels hstyled levels
    · have hall := (hfolded hon).fold_to_end (by rw [Lexer.folds_remember, hon]) hb hk heq
      rw [Lexer.wholeLevels_remember] at hall
      rw [hfold] at hall ⊢
      rw [Lexer.wholeLevels_congr (Buffer.text_setLevels ..) (Buffer.tokenAt_setLevels b levels),
        Buffer.text_setLevels]
      exact hall

theorem restart_add_goal {pos : Nat} (hlt : min h.styledTo b.size < min pos b.size) :
    h.restart b + (goal b pos - h.restart b) = goal b pos := by
  have := lt_goal (Nat.lt_of_le_of_lt (h.restart_le b) hlt)
  omega

/-- Styling from the restart to the goal keeps what the highlighter relies on, if the lexer says
there what it says of the whole text. -/
theorem Kept.ensure_rest (hk : Kept l h b) {pos : Nat}
    (hlt : min h.styledTo b.size < min pos b.size)
    (hstyled : l.Styled
      (l.lex b (h.restart b) (goal b pos - h.restart b) (tokenBefore b (h.restart b)))
      (Cursor.start b.text (h.restart b) (goal b pos - h.restart b)).stop) :
    Kept l
      ⟨(h.lexer.fold
        (h.lexer.lex b (h.restart b) (goal b pos - h.restart b) (tokenBefore b (h.restart b)))
        (h.restart b) (goal b pos - h.restart b)).1, goal b pos⟩
      (h.lexer.fold
        (h.lexer.lex b (h.restart b) (goal b pos - h.restart b) (tokenBefore b (h.restart b)))
        (h.restart b) (goal b pos - h.restart b)).2 := by
  obtain ⟨f, hf⟩ := hk.lexer
  have hstart := h.restart_mem_starts b
  have hadd := restart_add_goal hlt
  have hle : h.restart b + (goal b pos - h.restart b) ≤ b.size := by
    rw [hadd]
    exact goal_le b pos
  have htext := l.text_lex b (h.restart b) (goal b pos - h.restart b) (tokenBefore b (h.restart b))
  have hsame := l.sameTo_lex hk.wellFormed (tokenBefore b (h.restart b)) hle hstart
  have hfolded (hon : l.folds = true) : (l.remember f).Folded
      (l.lex b (h.restart b) (goal b pos - h.restart b) (tokenBefore b (h.restart b)))
      (h.restart b) := by
    rw [← hf]
    rcases Nat.eq_zero_or_pos (h.restart b) with hzero | hpos
    · rw [hzero]
      exact Lexer.folded_zero ..
    · exact (hk.folded hon).sameTo (hsame hpos)
  have hkept := Kept.of_fold (l.wellFormed_lex hk.wellFormed ..) (by rw [htext]; exact hstart)
    (by rw [l.size_lex]; exact hle)
    (by rw [htext, l.size_lex, hadd]; exact goal_mem_starts b pos)
    (by rw [htext]; exact hstyled) hfolded (fun hoff => by
      have hlevels := Buffer.levels_restyle b (l.styling b (h.restart b)
        (goal b pos - h.restart b) (tokenBefore b (h.restart b)))
      rw [Buffer.Unfolded, Lexer.lex, hlevels]
      exact hk.unfolded hoff)
  rw [hadd] at hkept
  rw [hf, Lexer.lex_remember]
  exact hkept

/-- Styling keeps what the highlighter relies on. -/
theorem Kept.ensure (hk : Kept l h b) (hsize : b.size < l.limit) (pos : Nat) :
    Kept l (h.ensure b pos).1 (h.ensure b pos).2 := by
  unfold Highlighter.ensure
  split
  · exact hk.reset
  · split
    · exact hk.ensure_styled
    · have hlt : min h.styledTo b.size < min pos b.size := Nat.lt_of_not_le ‹_›
      have hadd := restart_add_goal hlt
      exact hk.ensure_rest hlt (hk.styled.lex hk.wellFormed hsize (h.restart_mem_starts b) _
        (by rw [hadd]; exact goal_le b pos) (by rw [hadd]; exact goal_mem_starts b pos))

/-! ### One way to be styled -/

/-- There is only one way to be styled and folded to the end. -/
theorem Done.unique (hd : Done l b) (hd' : Done l b') (hk : Kept l h b) (hk' : Kept l h' b')
    (ht : b'.text = b.text) :
    b'.styles = b.styles ∧ b'.lineStates = b.lineStates ∧ b'.levels = b.levels := by
  have hsize : b'.size = b.size := congrArg Text.size ht
  obtain ⟨hstyles, hstates⟩ := Lexer.Styled.unique hk.wellFormed hk'.wellFormed ht hd.styled
    (by rw [← hsize]; exact hd'.styled)
  refine ⟨hstyles, hstates, Buffer.levels_ext hk.wellFormed hk'.wellFormed ht ?_⟩
  intro line hline
  cases hon : l.folds with
  | false => rw [(hk.unfolded hon).level, (hk'.unfolded hon).level]
  | true =>
    have hlevel := hd.folded hon line hline
    have hlevel' := hd'.folded hon line (by rw [ht]; exact hline)
    rw [Lexer.wholeLevels_congr ht (fun p => by rw [Buffer.tokenAt, hstyles, Buffer.tokenAt]),
      hlevel] at hlevel'
    exact (Option.some.inj hlevel').symm

/-- An empty text is reset to the only way it can be. -/
theorem ensure_empty_unique (hk : Kept l h b) (hk' : Kept l h' b') (ht : b'.text = b.text)
    (hsize : b.size = 0) (pos pos' : Nat) :
    (h'.ensure b' pos').2.styles = (h.ensure b pos).2.styles
      ∧ (h'.ensure b' pos').2.lineStates = (h.ensure b pos).2.lineStates
      ∧ (h'.ensure b' pos').2.levels = (h.ensure b pos).2.levels := by
  have hsize' : b'.size = 0 := (congrArg Text.size ht).trans hsize
  have hlast : b.text.lastLine = 0 := by
    rw [Text.lastLine, show b.text.size = 0 from hsize, b.text.lineOf_zero]
  have hcount : b.text.lineCount = 1 := by
    rw [b.text.lineCount_eq_lastLine, hlast]
  have hstates := hk.wellFormed.lineStates_size
  have hstates' := hk'.wellFormed.lineStates_size
  have hlevels := hk.wellFormed.levels_size
  have hlevels' := hk'.wellFormed.levels_size
  rw [ht, hcount] at hstates' hlevels'
  rw [hcount] at hstates hlevels
  have hwf := hk.reset.wellFormed
  have hwf' := hk'.reset.wellFormed
  unfold Highlighter.ensure
  rw [if_pos hsize, if_pos hsize']
  refine ⟨Buffer.styles_ext hwf hwf' ht fun p hp => absurd hp (by
      show ¬ p < b.size
      omega), Buffer.lineStates_ext hwf hwf' (congrArg Text.lineCount ht) fun line hline => ?_,
    Buffer.levels_ext hwf hwf' ht fun line hline => ?_⟩
  · obtain rfl : line = 0 := Nat.le_zero.1 (hlast ▸ hline)
    have hset := Buffer.lineState_setLineState b 0 0 0 (by omega)
    have hset' := Buffer.lineState_setLineState b' 0 0 0 (by omega)
    exact hset'.trans hset.symm
  · obtain rfl : line = 0 := Nat.lt_one_iff.1 (hcount ▸ hline)
    have hset := Buffer.level_setLevel (b.setLineState 0 0) 0 0 FoldLevel.base
      (by show 0 < b.levels.size; omega)
    have hset' := Buffer.level_setLevel (b'.setLineState 0 0) 0 0 FoldLevel.base
      (by show 0 < b'.levels.size; omega)
    exact hset'.trans hset.symm

/-- Highlighters that keep buffers of one text, and still do after styling them to the end, have
come to the same. -/
theorem Kept.unique_of_ensure (hk : Kept l h b) (hk' : Kept l h' b') (ht : b'.text = b.text)
    (hnew : Kept l (h.ensure b b.size).1 (h.ensure b b.size).2)
    (hnew' : Kept l (h'.ensure b' b'.size).1 (h'.ensure b' b'.size).2) :
    (h'.ensure b' b'.size).2.styles = (h.ensure b b.size).2.styles
      ∧ (h'.ensure b' b'.size).2.lineStates = (h.ensure b b.size).2.lineStates
      ∧ (h'.ensure b' b'.size).2.levels = (h.ensure b b.size).2.levels := by
  have hsame : b'.size = b.size := congrArg Text.size ht
  rcases Nat.eq_zero_or_pos b.size with hzero | hpos
  · exact ensure_empty_unique hk hk' ht hzero ..
  · have htext := text_ensure h b b.size
    have htext' := text_ensure h' b' b'.size
    have hall : (h.ensure b b.size).2.size = b.size := congrArg Text.size htext
    have hall' : (h'.ensure b' b'.size).2.size = b'.size := congrArg Text.size htext'
    have hdone := hnew.done (by rw [hall]; exact hpos)
      (by rw [hall]; exact size_le_styledTo h b)
    have hdone' := hnew'.done (by rw [hall', hsame]; exact hpos)
      (by rw [hall']; exact size_le_styledTo h' b')
    exact hdone.unique hdone' hnew hnew' (by rw [htext', htext, ht])

/-- Highlighters that keep buffers of one text come to the same by styling to the end. -/
theorem Kept.ensure_unique (hk : Kept l h b) (hk' : Kept l h' b') (ht : b'.text = b.text)
    (hsize : b.size < l.limit) :
    (h'.ensure b' b'.size).2.styles = (h.ensure b b.size).2.styles
      ∧ (h'.ensure b' b'.size).2.lineStates = (h.ensure b b.size).2.lineStates
      ∧ (h'.ensure b' b'.size).2.levels = (h.ensure b b.size).2.levels := by
  have hsame : b'.size = b.size := congrArg Text.size ht
  exact hk.unique_of_ensure hk' ht (hk.ensure hsize _) (hk'.ensure (by rw [hsame]; exact hsize) _)

/-! ## 3. Sessions -/

/-- What a host does: it edits the text and tells the highlighter so, or it asks for styles. -/
inductive Command where
  | insert (pos : Nat) (more : Array UInt8)
  | delete (start stop : Nat)
  | ensure (pos : Nat)
  deriving Repr

/-- What a command does to a highlighter and its buffer. -/
def Command.run (x : Highlighter × Buffer) : Command → Highlighter × Buffer
  | insert pos more => (x.1.edit pos, x.2.insert pos more)
  | delete start stop => (x.1.edit start, x.2.delete start stop)
  | ensure pos => x.1.ensure x.2 pos

/-- Edits are inside the text. -/
def Command.Inside (b : Buffer) : Command → Prop
  | insert pos _ => pos ≤ b.size
  | delete start _ => start ≤ b.size
  | ensure _ => True

instance (b : Buffer) : ∀ c : Command, Decidable (c.Inside b)
  | .insert .. => Nat.decLe ..
  | .delete .. => Nat.decLe ..
  | .ensure _ => isTrue trivial

/-- Runs commands in order. -/
def runAll (x : Highlighter × Buffer) : List Command → Highlighter × Buffer
  | [] => x
  | c :: commands => runAll (c.run x) commands

/-- All edits are inside the text, and it stays shorter than `limit` bytes. -/
def Fits (limit : Nat) (x : Highlighter × Buffer) : List Command → Prop
  | [] => x.2.size < limit
  | c :: commands => x.2.size < limit ∧ c.Inside x.2 ∧ Fits limit (c.run x) commands

instance (limit : Nat) (x : Highlighter × Buffer) : ∀ commands, Decidable (Fits limit x commands)
  | [] => Nat.decLt ..
  | c :: commands =>
    have := instDecidableFits limit (c.run x) commands
    inferInstanceAs (Decidable (_ ∧ _ ∧ _))

/-- Every command keeps what the highlighter relies on. -/
theorem Kept.run {x : Highlighter × Buffer} (hk : Kept l x.1 x.2) (hsize : x.2.size < l.limit)
    {c : Command} (hc : c.Inside x.2) : Kept l (c.run x).1 (c.run x).2 := by
  cases c with
  | insert pos more =>
    exact hk.edit (Buffer.beginsAs_insert hk.wellFormed hc more) (hk.wellFormed.insert pos more)
      fun hflat => hflat.insert pos more
  | delete start stop =>
    exact hk.edit (Buffer.beginsAs_delete hk.wellFormed hc stop) (hk.wellFormed.delete start stop)
      fun hflat => hflat.delete start stop
  | ensure pos => exact hk.ensure hsize pos

/-- So do all commands together. -/
theorem kept_runAll {limit : Nat} (hlimit : limit ≤ l.limit) (commands : List Command)
    {x : Highlighter × Buffer} (hk : Kept l x.1 x.2) (hfits : Fits limit x commands) :
    Kept l (runAll x commands).1 (runAll x commands).2 ∧ (runAll x commands).2.size < limit := by
  induction commands generalizing x with
  | nil => exact ⟨hk, hfits⟩
  | cons c commands ih =>
    obtain ⟨hsize, hinside, hrest⟩ := hfits
    exact ih (hk.run (Nat.lt_of_lt_of_le hsize hlimit) hinside) hrest

/-- However a text was edited and styled, styling it to the end then gives what a new
highlighter gives a new buffer of the same bytes. -/
theorem ensure_eq_fresh (l : Lexer) (t : Text) (commands : List Command)
    (hfits : Fits (2 ^ 23) (start l, .ofText t) commands) :
    let edited := runAll (start l, .ofText t) commands
    let fresh := Buffer.ofText (.ofBytes edited.2.text.bytes edited.2.text.encoding)
    (edited.1.ensure edited.2 edited.2.size).2.styles
        = ((start l).ensure fresh fresh.size).2.styles
      ∧ (edited.1.ensure edited.2 edited.2.size).2.lineStates
        = ((start l).ensure fresh fresh.size).2.lineStates
      ∧ (edited.1.ensure edited.2 edited.2.size).2.levels
        = ((start l).ensure fresh fresh.size).2.levels := by
  intro edited fresh
  obtain ⟨hkept, hsize⟩ := kept_runAll l.le_limit commands (kept_start l t) hfits
  have htext : edited.2.text = fresh.text := edited.2.text.ofBytes_eq.symm
  have hsame : fresh.size = edited.2.size := (congrArg Text.size htext).symm
  exact (kept_start l _).ensure_unique hkept htext (by
    rw [hsame]
    exact Nat.lt_of_lt_of_le hsize l.le_limit)

/-- A line end of two bytes is split, what follows it is taken out, and styles are asked for
in between. -/
theorem ensure_eq_fresh_of_split_line_end :
    let l := Lexer.haskell { options := { fold := true } } none
    let t := Text.ofBytes #[0x66, 0x20, 0x3D, 0x0D, 0x0A, 0x20, 0x78, 0x0A] .utf8
    let commands := [.ensure 8, .insert 4 #[0x7B, 0x2D], .ensure 4, .delete 6 8]
    let edited := runAll (start l, .ofText t) commands
    let fresh := Buffer.ofText (.ofBytes edited.2.text.bytes edited.2.text.encoding)
    Fits (2 ^ 23) (start l, .ofText t) commands
      ∧ (edited.1.ensure edited.2 edited.2.size).2.styles
        = ((start l).ensure fresh fresh.size).2.styles
      ∧ (edited.1.ensure edited.2 edited.2.size).2.lineStates
        = ((start l).ensure fresh fresh.size).2.lineStates
      ∧ (edited.1.ensure edited.2 edited.2.size).2.levels
        = ((start l).ensure fresh fresh.size).2.levels :=
  ⟨by decide +kernel, ensure_eq_fresh _ _ _ (by decide +kernel)⟩

end Highlighter

end Restyle
