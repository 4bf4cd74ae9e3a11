/-
Restyle.Proofs.Lexer.Folding — folding in pieces is folding at once, for
every lexer.

`Folded l b k` says that up to the line start `k` a buffer has its levels,
and that the lexer remembers what it has to. A call that starts there
moves that on to the end of its range (`Folded.fold`); at the end of the
text all lines have their levels (`Folded.fold_to_end`). A lexer that does
not fold leaves levels alone (`fold_of_not_folds`).

So two calls that meet at a line start leave the levels of one call, also
if the tokens behind it were stale when the first was made (`fold_resume`).
-/
import Restyle.Proofs.Haskell.Folding
import Restyle.Proofs.Lexer.Resume
import Restyle.Proofs.R.Folding

namespace Restyle

namespace Lexer

/-- The lexer with another first import line to remember, if it remembers one. -/
def remember (l : Lexer) (firstImport : Option Nat) : Lexer :=
  match l with
  | haskell g _ => haskell g firstImport
  | r g => r g

/-- Whether the lexer says fold levels. -/
def folds : Lexer → Bool
  | haskell g _ => g.options.fold
  | r _ => true

/-- The fold levels of the whole text of a buffer, by its styles. -/
def wholeLevels (l : Lexer) (b : Buffer) : List (Nat × FoldLevel) :=
  match l with
  | haskell g _ => Haskell.Folding.whole g.options b
  | r g => R.Folding.whole g.options b

/-- Up to the line start `k` the buffer has its levels, as far as that can be known there. -/
def Folded (l : Lexer) (b : Buffer) (k : Nat) : Prop :=
  match l with
  | haskell g firstImport => Haskell.Folding.Folded g.options b firstImport k
  | r g => R.Folding.Folded g.options b k

variable {l : Lexer} {b b' : Buffer} {k n : Nat}

/-! ## 1. What is remembered does not matter elsewhere -/

section

variable (l : Lexer) (f : Option Nat)

@[simp] theorem remember_remember (f' : Option Nat) :
    (l.remember f).remember f' = l.remember f' := by
  cases l <;> rfl

@[simp] theorem folds_remember : (l.remember f).folds = l.folds := by
  cases l <;> rfl

@[simp] theorem wholeLevels_remember : (l.remember f).wholeLevels b = l.wholeLevels b := by
  cases l <;> rfl

@[simp] theorem lex_remember (start length : Nat) (token : Token) :
    (l.remember f).lex b start length token = l.lex b start length token := by
  cases l <;> rfl

theorem exists_remember_eq : ∃ f, l.remember f = l := by
  cases l with
  | haskell g f => exact ⟨f, rfl⟩
  | r g => exact ⟨none, rfl⟩

end

/-- A call stores levels, and changes nothing of the lexer but what it remembers. -/
theorem fold_eq (l : Lexer) (b : Buffer) (start length : Nat) :
    ∃ f levels, l.fold b start length = (l.remember f, b.setLevels levels) := by
  cases l with
  | haskell g f => exact ⟨_, _, rfl⟩
  | r g => exact ⟨none, _, rfl⟩

theorem fold_of_not_folds (h : l.folds = false) (start length : Nat) :
    l.fold b start length = (l, b) := by
  cases l with
  | haskell g f =>
    have hoff : g.options.fold = false := h
    have hnone : Haskell.Folding.levels g.options b f start length = ([], f) := by
      simp [Haskell.Folding.levels, hoff]
    simp [fold, hnone, Buffer.setLevels]
  | r g => cases h

/-! ## 2. Levels of one text -/

theorem wholeLevels_congr (ht : b'.text = b.text) (h : ∀ p, b'.tokenAt p = b.tokenAt p) :
    l.wholeLevels b' = l.wholeLevels b := by
  cases l with
  | haskell g _ => exact Haskell.Folding.whole_congr ht h
  | r g => exact R.Folding.whole_congr ht h

theorem folded_zero (l : Lexer) (b : Buffer) : l.Folded b 0 := by
  cases l with
  | haskell g f => exact Haskell.Folding.folded_zero g.options b f
  | r g => exact R.Folding.folded_zero g.options b

theorem Folded.mono (h : l.Folded b k) {k' : Nat} (hk : k' ≤ k) : l.Folded b k' := by
  cases l with
  | haskell g f => exact Haskell.Folding.Folded.mono h hk
  | r g => exact Buffer.Holds.mono h (b.text.lineOf_mono hk)

theorem Folded.sameTo (h : l.Folded b k) (hs : Buffer.SameTo k b b') : l.Folded b' k := by
  cases l with
  | haskell g f => exact Haskell.Folding.Folded.sameTo h hs
  | r g => exact R.Folding.Folded.sameTo h hs

/-! ## 3. Calls -/

/-- A call that starts where the buffer is folded to moves that on to the end of its range. -/
theorem Folded.fold (hon : l.folds = true) (hb : b.WellFormed) (h : l.Folded b k)
    (hk : k ∈ b.text.starts) (hn : k + n ≤ b.size)
    (hstop : k + n ∈ b.text.starts ∨ k + n = b.size) :
    (l.fold b k n).1.Folded (l.fold b k n).2 (k + n) := by
  cases l with
  | haskell g f =>
    obtain ⟨hlevels, hfirst⟩ := Haskell.Folding.Folded.fold hon hb h hstop
    have hA (m : Nat) : Haskell.Folding.Agrees g.options b
        (b.setLevels (Haskell.Folding.levels g.options b f k n).1) m :=
      Haskell.Folding.agrees_of_eq (Buffer.text_setLevels ..) (Buffer.tokenAt_setLevels b _) m
    have hwhole : Haskell.Folding.whole g.options
        (b.setLevels (Haskell.Folding.levels g.options b f k n).1)
        = Haskell.Folding.whole g.options b :=
      Haskell.Folding.whole_congr (Buffer.text_setLevels ..) (Buffer.tokenAt_setLevels b _)
    constructor
    · simp only [fold, Buffer.text_setLevels, (hA _).codeBefore (Nat.le_refl _), hwhole]
      exact hlevels
    · simp only [fold, Buffer.text_setLevels, (hA _).codeBefore (Nat.le_refl _),
        (hA _).seen (Nat.le_refl _)]
      exact hfirst
  | r g =>
    have hlevels := R.Folding.Folded.fold (o := g.options) hb h hk hn
    have hwhole : R.Folding.whole g.options (b.setLevels (R.Folding.levels g.options b k n))
        = R.Folding.whole g.options b :=
      R.Folding.whole_congr (Buffer.text_setLevels ..) (Buffer.tokenAt_setLevels b _)
    simp only [Folded, Lexer.fold, R.Folding.Folded, Buffer.text_setLevels, hwhole]
    exact hlevels

/-- If it goes to the end of the text, all lines have their levels then. -/
theorem Folded.fold_to_end (hon : l.folds = true) (hb : b.WellFormed) (h : l.Folded b k)
    (hk : k ∈ b.text.starts) (hn : k + n = b.size) :
    (l.fold b k n).2.Holds (l.wholeLevels b) b.text.lineCount := by
  cases l with
  | haskell g f => exact Haskell.Folding.Folded.fold_to_end hon hb h hn
  | r g => exact R.Folding.Folded.fold_to_end hb h hk hn

/-! ## 4. A text in two calls -/

theorem zero_mem_starts (t : Text) : 0 ∈ t.starts := t.mem_starts_iff.2 (Or.inl rfl)

/-- One call on a whole text gives all lines their levels. -/
theorem holds_fold (hon : l.folds = true) (hb : b.WellFormed) :
    (l.fold b 0 b.size).2.Holds (l.wholeLevels b) b.text.lineCount :=
  (l.folded_zero b).fold_to_end hon hb (zero_mem_starts b.text) (Nat.zero_add _)

/-- What was folded by tokens that are right before the line start `k` can be folded on from
there when all of them are. -/
theorem folded_of_stale (hon : l.folds = true) (hb : b.WellFormed) (hk : k ∈ b.text.starts)
    {stale : Array Token} (hsize : stale.size = b.size)
    (hsame : ∀ p < k, stale.getD p .plain = b.tokenAt p) :
    (l.fold { b with styles := stale } 0 k).1.Folded
      { (l.fold { b with styles := stale } 0 k).2 with styles := b.styles } k := by
  have hstale : Buffer.WellFormed { b with styles := stale } := { hb with styles_size := hsize }
  have hle := b.text.le_size_of_mem_starts hk
  have hfirst := (l.folded_zero { b with styles := stale }).fold hon hstale
    (zero_mem_starts b.text) (n := k) (by rw [Nat.zero_add]; exact hle)
    (Or.inl (by rw [Nat.zero_add]; exact hk))
  rw [Nat.zero_add] at hfirst
  obtain ⟨f, levels, hfold⟩ := l.fold_eq { b with styles := stale } 0 k
  rw [hfold] at hfirst ⊢
  rcases Nat.eq_zero_or_pos k with rfl | hpos
  · exact folded_zero ..
  · -- the two buffers differ in the tokens from `k` on
    refine hfirst.sameTo ⟨?_, ?_, ?_, fun _ _ => rfl, fun _ _ => rfl⟩
    · exact .refl (by simpa using b.text.isStop_of_mem_starts hk hpos)
    · simpa using hk
    · intro p hp
      rw [Buffer.tokenAt_setLevels]
      exact (hsame p hp).symm

/-- There is only one way for all lines to have the levels of one list. -/
theorem levels_eq_of_holds (hb : b.WellFormed) (hb' : b'.WellFormed) (ht : b'.text = b.text)
    {levels : List (Nat × FoldLevel)} (h : b.Holds levels b.text.lineCount)
    (h' : b'.Holds levels b'.text.lineCount) : b'.levels = b.levels := by
  apply Buffer.levels_ext hb hb' ht
  intro line hline
  exact Option.some.inj ((h' line (by rw [ht]; exact hline)).symm.trans (h line hline))

/-- A call keeps the tables in their places. -/
theorem wellFormed_fold (l : Lexer) (hb : b.WellFormed) (start length : Nat) :
    (l.fold b start length).2.WellFormed := by
  obtain ⟨f, levels, hfold⟩ := l.fold_eq b start length
  rw [hfold]
  exact hb.setLevels levels

theorem text_fold (l : Lexer) (b : Buffer) (start length : Nat) :
    (l.fold b start length).2.text = b.text := by
  obtain ⟨f, levels, hfold⟩ := l.fold_eq b start length
  rw [hfold, Buffer.text_setLevels]

/-- A call up to a line start and one from there on leave the levels that one call leaves. The
tokens behind the line start need not be right in the first of them. -/
theorem fold_resume (l : Lexer) (hb : b.WellFormed) (hk : k ∈ b.text.starts)
    {stale : Array Token} (hsize : stale.size = b.size)
    (hsame : ∀ p < k, stale.getD p .plain = b.tokenAt p) :
    let first := l.fold { b with styles := stale } 0 k
    (first.1.fold { first.2 with styles := b.styles } k (b.size - k)).2.levels
      = (l.fold b 0 b.size).2.levels := by
  intro first
  cases hon : l.folds with
  | false => simp only [first, fold_of_not_folds hon]
  | true =>
    have hfolded := folded_of_stale hon hb hk hsize hsame
    have hstale : Buffer.WellFormed { b with styles := stale } := { hb with styles_size := hsize }
    obtain ⟨f, levels, hfirst⟩ := l.fold_eq { b with styles := stale } 0 k
    have htext : first.2.text = b.text := l.text_fold ..
    have hmid : Buffer.WellFormed { first.2 with styles := b.styles } :=
      { l.wellFormed_fold hstale 0 k with styles_size := by rw [htext]; exact hb.styles_size }
    have hle := b.text.le_size_of_mem_starts hk
    have hsecond := hfolded.fold_to_end (n := b.size - k) (by rw [hfirst, folds_remember, hon]) hmid
      (by rw [htext]; exact hk) (by
        show k + (b.size - k) = first.2.text.size
        rw [htext]
        exact Nat.add_sub_cancel' hle)
    have hwhole : first.1.wholeLevels { first.2 with styles := b.styles } = l.wholeLevels b := by
      simp only [first, hfirst, wholeLevels_remember]
      exact wholeLevels_congr (Buffer.text_setLevels ..) fun _ => rfl
    rw [hwhole] at hsecond
    apply levels_eq_of_holds (l.wellFormed_fold hb 0 b.size) (first.1.wellFormed_fold hmid ..)
    · exact (first.1.text_fold ..).trans (htext.trans (l.text_fold ..).symm)
    · rw [text_fold]
      exact holds_fold hon hb
    · rw [text_fold]
      exact hsecond

/-- The Haskell folder picks up at a line start what it left there, though it may have looked
ahead over lines that were not lexed yet. -/
theorem haskell_fold_resume (g : Haskell.Settings) (firstImport : Option Nat) (hb : b.WellFormed)
    (hk : k ∈ b.text.starts) {stale : Array Token} (hsize : stale.size = b.size)
    (hsame : ∀ p < k, stale.getD p .plain = b.tokenAt p) :
    let l := haskell g firstImport
    let first := l.fold { b with styles := stale } 0 k
    (first.1.fold { first.2 with styles := b.styles } k (b.size - k)).2.levels
      = (l.fold b 0 b.size).2.levels :=
  fold_resume (haskell g firstImport) hb hk hsize hsame

/-- Between two imports stands a comment that the first call takes for code, as it is not lexed
yet. -/
theorem haskell_fold_resume_of_stale_comment :
    let b := (Buffer.ofText (.ofBytes #[0x69, 0x6D, 0x70, 0x6F, 0x72, 0x74, 0x0A, 0x20, 0x2D,
      0x2D, 0x0A, 0x69, 0x6D, 0x70, 0x6F, 0x72, 0x74, 0x0A] .utf8)).paint ⟨8, 10, .lineComment⟩
    let stale := Array.replicate 18 Token.plain
    let l := haskell { options := { fold := true, foldImports := true } } none
    let first := l.fold { b with styles := stale } 0 7
    b.WellFormed ∧ 7 ∈ b.text.starts ∧ stale.size = b.size
      ∧ (∀ p < 7, stale.getD p .plain = b.tokenAt p)
      ∧ (first.1.fold { first.2 with styles := b.styles } 7 (b.size - 7)).2.levels
        = (l.fold b 0 b.size).2.levels :=
  ⟨(Buffer.wellFormed_ofText _).paint _, by decide +kernel, by decide +kernel, by decide +kernel,
    haskell_fold_resume _ none ((Buffer.wellFormed_ofText _).paint _) (by decide +kernel)
      (by decide +kernel) (by decide +kernel)⟩

/-- The R folder picks up at a line start what it left there, although what the line before
tells it is cut to sixteen bits. -/
theorem r_fold_resume (g : R.Settings) (hb : b.WellFormed) (hk : k ∈ b.text.starts) :
    let first := (r g).fold b 0 k
    (first.1.fold first.2 k (b.size - k)).2.levels = ((r g).fold b 0 b.size).2.levels := by
  intro first
  have hstyles : first.2.styles = b.styles := Buffer.styles_setLevels ..
  have hself : { first.2 with styles := b.styles } = first.2 := by rw [← hstyles]
  have hresume := fold_resume (r g) hb hk hb.styles_size fun _ _ => rfl
  exact hself ▸ hresume

/-- More braces are closed than were opened, and the table held other levels. -/
theorem r_fold_resume_of_negative_level :
    let b := ((Buffer.ofText (.ofBytes #[0x7D, 0x7B, 0x0D, 0x0A, 0x7D, 0x7D, 0x0A, 0x7B]
      .eightBit)).paint ⟨0, 8, .operator⟩).setLevel 0 (-70000)
    let l := r { options := { foldAtElse := true } }
    let first := l.fold b 0 4
    b.WellFormed ∧ 4 ∈ b.text.starts
      ∧ (first.1.fold first.2 4 (b.size - 4)).2.levels = (l.fold b 0 b.size).2.levels :=
  ⟨((Buffer.wellFormed_ofText _).paint _).setLevel .., by decide +kernel,
    r_fold_resume _ (((Buffer.wellFormed_ofText _).paint _).setLevel ..) (by decide +kernel)⟩

end Lexer

end Restyle
