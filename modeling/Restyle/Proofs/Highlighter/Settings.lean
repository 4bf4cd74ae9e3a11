/-
Restyle.Proofs.Highlighter.Settings — restyling after a change of
settings.

A change of settings that takes effect makes a highlighter start anew, on
a buffer that is full of what other settings said (`Request.run_cases`).
All of that is written over again but one thing: a lexer that does not
fold leaves the levels of one that did. So it is shown not of the buffer
but of what the lexer can tell of it (`Lexer.view`) that it is kept as it
should be (`Current`). A highlighter cannot tell the two apart
(`ensure_view`).

Styling to the end then gives tokens and line states of the last settings,
and levels if these fold; if they do not, the levels stay
(`ensure_eq_last_settings`, §5). A text that is too long for its line
states has to be asked for whole: §4 has one of 2^23 bytes and a few that
comes out differently if its first line is asked for before the rest.
-/
import Restyle.Proofs.Highlighter.UpToDate
import Restyle.Proofs.Lexer.Settings
import Restyle.Proofs.R.LongDelimiter

namespace Restyle

/-! ## 1. Levels that a lexer knows nothing of -/

namespace Buffer

/-- The buffer with the base level on all lines. -/
def flat (b : Buffer) : Buffer :=
  { b with levels := Array.replicate b.levels.size FoldLevel.base }

variable {b : Buffer}

theorem unfolded_flat (b : Buffer) : b.flat.Unfolded :=
  fun _ h => Array.eq_of_mem_replicate h

theorem Unfolded.levels_eq {b b' : Buffer} (hb : b.WellFormed) (hb' : b'.WellFormed)
    (ht : b'.text = b.text) (h : b.Unfolded) (h' : b'.Unfolded) : b'.levels = b.levels :=
  levels_ext hb hb' ht fun line _ => (h'.level line).trans (h.level line).symm

theorem Unfolded.flat_eq (h : b.Unfolded) : b.flat = b := by
  have hlevels : b.levels = Array.replicate b.levels.size FoldLevel.base :=
    Array.eq_replicate_iff.2 ⟨rfl, h⟩
  rw [flat, ← hlevels]

theorem WellFormed.flat (hb : b.WellFormed) : b.flat.WellFormed :=
  { hb with levels_size := Array.size_replicate.trans hb.levels_size }

theorem foldl_paint_flat (spans : List Span) (b : Buffer) :
    spans.foldl paint b.flat = (spans.foldl paint b).flat := by
  induction spans generalizing b with
  | nil => rfl
  | cons s spans ih =>
    have hpaint : b.flat.paint s = (b.paint s).flat := by
      unfold paint flat
      dsimp only
      split <;> rfl
    rw [List.foldl_cons, List.foldl_cons, hpaint, ih]

theorem foldl_setLineState_flat (states : List (Nat × Int)) (b : Buffer) :
    states.foldl (fun b p => b.setLineState p.1 p.2) b.flat
      = (states.foldl (fun b p => b.setLineState p.1 p.2) b).flat := by
  induction states generalizing b with
  | nil => rfl
  | cons p states ih =>
    rw [List.foldl_cons, List.foldl_cons, ← ih]
    rfl

/-- Styling has nothing to do with levels. -/
theorem restyle_flat (b : Buffer) (r : Styling) : b.flat.restyle r = (b.restyle r).flat := by
  rw [restyle_eq, restyle_eq, foldl_paint_flat, foldl_setLineState_flat]

theorem setLevel_flat (b : Buffer) (line : Nat) :
    b.flat.setLevel line FoldLevel.base = (b.setLevel line FoldLevel.base).flat := by
  simp [flat, setLevel]

end Buffer

namespace Lexer

/-- What the lexer can tell of a buffer: nothing of its levels if it does not fold. -/
def view (l : Lexer) (b : Buffer) : Buffer := if l.folds then b else b.flat

variable {l : Lexer} {b : Buffer}

theorem view_of_folds (h : l.folds = true) : l.view b = b := if_pos h

theorem view_of_not_folds (h : l.folds = false) : l.view b = b.flat := by
  rw [view, h]
  rfl

theorem view_eq (h : l.folds = true ∨ b.Unfolded) : l.view b = b := by
  unfold view
  split
  · rfl
  · exact (h.resolve_left ‹_›).flat_eq

@[simp] theorem limit_remember (l : Lexer) (f : Option Nat) : (l.remember f).limit = l.limit := by
  cases l <;> rfl

@[simp] theorem text_view : (l.view b).text = b.text := by
  unfold view
  split <;> rfl

@[simp] theorem styles_view : (l.view b).styles = b.styles := by
  unfold view
  split <;> rfl

@[simp] theorem lineStates_view : (l.view b).lineStates = b.lineStates := by
  unfold view
  split <;> rfl

@[simp] theorem size_view : (l.view b).size = b.size := congrArg Text.size text_view

theorem wellFormed_view (l : Lexer) (hb : b.WellFormed) : (l.view b).WellFormed := by
  unfold view
  split
  · exact hb
  · exact hb.flat

end Lexer

namespace Highlighter

variable {l : Lexer} {h : Highlighter} {b : Buffer}

theorem ensure_flat (hoff : h.lexer.folds = false) (pos : Nat) :
    h.ensure b.flat pos = ((h.ensure b pos).1, (h.ensure b pos).2.flat) := by
  have hlex (start length : Nat) (token : Token) :
      h.lexer.lex b.flat start length token = (h.lexer.lex b start length token).flat := by
    have hsame : h.lexer.styling b.flat start length token
        = h.lexer.styling b start length token := by
      cases h.lexer <;> rfl
    rw [Lexer.lex, hsame, Buffer.restyle_flat]
    rfl
  unfold ensure
  rw [show b.flat.size = b.size from rfl]
  split
  · have hstate : b.flat.setLineState 0 0 = (b.setLineState 0 0).flat := rfl
    rw [hstate, Buffer.setLevel_flat]
  · split
    · rfl
    · simp only [Lexer.fold_of_not_folds hoff, hlex]
      rfl

/-- A highlighter does with a buffer what it does with its view of it. -/
theorem ensure_view (hf : l.folds = h.lexer.folds) (pos : Nat) :
    h.ensure (l.view b) pos = ((h.ensure b pos).1, l.view (h.ensure b pos).2) := by
  cases hon : l.folds with
  | true => rw [Lexer.view_of_folds hon, Lexer.view_of_folds hon]
  | false =>
    rw [Lexer.view_of_not_folds hon, Lexer.view_of_not_folds hon,
      ensure_flat (hf.symm.trans hon)]

/-- A lexer that does not fold leaves the levels of a text as they are. -/
theorem levels_ensure (hoff : h.lexer.folds = false) (hpos : 0 < b.size) (pos : Nat) :
    (h.ensure b pos).2.levels = b.levels := by
  unfold ensure
  rw [if_neg (Nat.ne_of_gt hpos)]
  split
  · rfl
  · simp only [Lexer.fold_of_not_folds hoff]
    exact Buffer.levels_restyle ..

/-- Levels come from a lexer that folds, and from a text that is not empty. -/
theorem unfolded_ensure (hb : b.Unfolded) (hoff : b.size = 0 ∨ h.lexer.folds = false) (pos : Nat) :
    (h.ensure b pos).2.Unfolded := by
  rcases Nat.eq_zero_or_pos b.size with hzero | hpos
  · rw [ensure, if_pos hzero]
    exact Buffer.Unfolded.setLevel (b := b.setLineState 0 0) hb 0
  · rw [Buffer.Unfolded, levels_ensure (hoff.resolve_left (Nat.ne_of_gt hpos)) hpos]
    exact hb

/-- From the start to the end a text is styled whole, however long it is. -/
theorem Kept.ensure_all (hk : Kept l h b) (hall : h.styledTo = 0 ∨ b.size ≤ h.styledTo) {pos : Nat}
    (hpos : b.size ≤ pos) : Kept l (h.ensure b pos).1 (h.ensure b pos).2 := by
  rcases Nat.eq_zero_or_pos b.size with hzero | hsize
  · rw [Highlighter.ensure, if_pos hzero]
    exact hk.reset
  · by_cases hle : b.size ≤ h.styledTo
    · rw [ensure_of_le hsize (by omega)]
      exact hk.ensure_styled
    · have hstart : h.restart b = 0 := by
        have := h.restart_le b
        omega
      have hgoal : goal b pos = b.size := by
        have hlast : b.size - 1 < min pos b.size := by omega
        have := lt_goal hlast
        have := goal_le b pos
        omega
      have hstop : (Cursor.start b.text 0 b.size).stop = b.size + 1 :=
        Cursor.stop_start_of_eq (Nat.zero_add _)
      rw [Highlighter.ensure, if_neg (Nat.ne_of_gt hsize), if_neg (by omega)]
      apply hk.ensure_rest (by omega)
      rw [hstart, hgoal, Nat.sub_zero, hstop]
      exact l.styled_lex_whole hk.wellFormed

/-! ## 2. What is kept of the view -/

/-- The highlighter keeps its view of the buffer as it should be for its settings, and the text
is short enough to be styled in parts, or it was styled at once or not at all. -/
structure Current (x : Highlighter × Buffer) : Prop where
  kept : Kept (x.1.lexer.remember none) x.1 (x.1.lexer.view x.2)
  short : x.2.size < x.1.lexer.limit ∨ x.1.styledTo = 0 ∨ x.2.size ≤ x.1.styledTo

theorem current_of_zero {x : Highlighter × Buffer} (hb : x.2.WellFormed)
    (hzero : x.1.styledTo = 0) : Current x := by
  obtain ⟨f, hf⟩ := x.1.lexer.exists_remember_eq
  refine ⟨kept_of_zero (x.1.lexer.wellFormed_view hb) ?_ hzero ?_, Or.inr (Or.inl hzero)⟩
  · exact ⟨f, by rw [Lexer.remember_remember, hf]⟩
  · intro hoff
    rw [Lexer.folds_remember] at hoff
    rw [Lexer.view_of_not_folds hoff]
    exact x.2.unfolded_flat

/-- The view is kept by a call on a short text, and by a call for all of any text. -/
theorem Current.kept_ensure {x : Highlighter × Buffer} (hx : Current x) {pos : Nat}
    (hpos : x.2.size < x.1.lexer.limit ∨ x.2.size ≤ pos) :
    Kept (x.1.lexer.remember none) (x.1.ensure (x.1.lexer.view x.2) pos).1
      (x.1.ensure (x.1.lexer.view x.2) pos).2 := by
  have hsame : (x.1.lexer.view x.2).size = x.2.size := Lexer.size_view
  by_cases hlimit : x.2.size < x.1.lexer.limit
  · apply hx.kept.ensure
    rw [hsame, Lexer.limit_remember]
    exact hlimit
  · apply hx.kept.ensure_all
    · rw [hsame]
      exact hx.short.resolve_left hlimit
    · rw [hsame]
      exact hpos.resolve_left hlimit

theorem Current.ensure {x : Highlighter × Buffer} (hx : Current x) {pos : Nat}
    (hpos : x.2.size < x.1.lexer.limit ∨ x.2.size ≤ pos) : Current (x.1.ensure x.2 pos) := by
  obtain ⟨f, hf⟩ := x.1.exists_remember_ensure x.2 pos
  have hsame : (x.1.ensure x.2 pos).2.size = x.2.size :=
    congrArg Text.size (text_ensure x.1 x.2 pos)
  constructor
  · have hkept := hx.kept_ensure hpos
    have hview : (x.1.lexer.remember f).view (x.1.ensure x.2 pos).2
        = x.1.lexer.view (x.1.ensure x.2 pos).2 := by
      rw [Lexer.view, Lexer.view, Lexer.folds_remember]
    rw [ensure_view rfl] at hkept
    rw [hf, Lexer.remember_remember, hview]
    exact hkept
  · rw [hf, Lexer.limit_remember, hsame]
    have hle := x.1.le_styledTo_ensure x.2 pos
    omega

/-- Styled to the end, the buffer is what a new highlighter makes of the text, but perhaps for
levels that the lexer knows nothing of. -/
theorem Current.ensure_eq_fromScratch {x : Highlighter × Buffer} {t : Text} (hx : Current x)
    (ht : x.2.text = t) :
    let last := (x.1.ensure x.2 t.size).2
    let fresh := fromScratch (x.1.lexer.remember none) t
    last.styles = fresh.styles ∧ last.lineStates = fresh.lineStates
      ∧ (x.1.lexer.folds = true ∨ last.Unfolded → last.levels = fresh.levels) := by
  obtain rfl := ht
  intro last fresh
  have hnew := kept_start (x.1.lexer.remember none) x.2.text
  obtain ⟨hstyles, hstates, hlevels⟩ := hnew.unique_of_ensure hx.kept Lexer.text_view
    (hnew.ensure_all (Or.inl rfl) (Nat.le_refl _))
    (hx.kept_ensure (Or.inr (Nat.le_of_eq Lexer.size_view.symm)))
  rw [Lexer.size_view, ensure_view rfl] at hstyles hstates hlevels
  rw [Lexer.styles_view] at hstyles
  rw [Lexer.lineStates_view] at hstates
  refine ⟨hstyles, hstates, fun hon => ?_⟩
  have hview : x.1.lexer.view last = last := Lexer.view_eq hon
  rw [← hview]
  exact hlevels

/-! ## 3. Sessions -/

/-- What a host asks for: other settings, or styles. -/
inductive Request where
  | property (name value : String)
  | words (slot : Nat) (words : String)
  | ensure (pos : Nat)
  deriving Repr

/-- The highlighter after a change of settings: as it was if that failed. -/
def orSame (h : Highlighter) : Except Error Highlighter → Highlighter
  | .ok h' => h'
  | .error _ => h

namespace Request

/-- What a request does to a highlighter and its buffer. -/
def run (x : Highlighter × Buffer) : Request → Highlighter × Buffer
  | property name value => (x.1.orSame (x.1.setProperty name value), x.2)
  | words slot text => (x.1.orSame (x.1.setWords slot text), x.2)
  | ensure pos => x.1.ensure x.2 pos

/-- Runs requests in order. -/
def runAll (x : Highlighter × Buffer) : List Request → Highlighter × Buffer
  | [] => x
  | r :: requests => runAll (r.run x) requests

theorem runAll_append (x : Highlighter × Buffer) (before after : List Request) :
    runAll x (before ++ after) = runAll (runAll x before) after := by
  induction before generalizing x with
  | nil => rfl
  | cons r before ih => exact ih _

/-! ### What a request does -/

theorem limit_of_grammar {l l' : Lexer} (h : l'.grammar = l.grammar) : l'.limit = l.limit := by
  cases l <;> cases l' <;> cases h <;> rfl

theorem limit_setProperty {l l' : Lexer} {name value : String}
    (h : l.setProperty name value = .ok l') : l'.limit = l.limit :=
  limit_of_grammar (Lexer.words_setProperty h).1

theorem limit_setWords {l l' : Lexer} {slot : Nat} {words : String}
    (h : l.setWords slot words = .ok l') : l'.limit = l.limit :=
  limit_of_grammar (Lexer.words_setWords h).1

/-- A change of settings fails or changes nothing, or the highlighter starts anew. -/
theorem orSame_map_withLexer (h : Highlighter) {result : Except Error Lexer}
    (hlimit : ∀ l, result = .ok l → l.limit = h.lexer.limit) :
    h.orSame (result.map h.withLexer) = h
      ∨ ∃ l, l.limit = h.lexer.limit ∧ h.orSame (result.map h.withLexer) = start l := by
  cases result with
  | error e => exact Or.inl rfl
  | ok l =>
    show h.withLexer l = h ∨ ∃ l', l'.limit = h.lexer.limit ∧ h.withLexer l = start l'
    unfold withLexer
    split
    · exact Or.inl rfl
    · exact Or.inr ⟨l, hlimit l rfl, rfl⟩

/-- A request asks for styles, or it changes nothing, or the highlighter starts anew. -/
theorem run_cases (r : Request) (x : Highlighter × Buffer) :
    (∃ pos, r = .ensure pos) ∨ r.run x = x
      ∨ ∃ l, l.limit = x.1.lexer.limit ∧ r.run x = (start l, x.2) := by
  have hsettings {result : Except Error Lexer}
      (hlimit : ∀ l, result = .ok l → l.limit = x.1.lexer.limit) :
      (x.1.orSame (result.map x.1.withLexer), x.2) = x
        ∨ ∃ l, l.limit = x.1.lexer.limit
          ∧ (x.1.orSame (result.map x.1.withLexer), x.2) = (start l, x.2) := by
    obtain hsame | ⟨l, hl, hnew⟩ := orSame_map_withLexer x.1 hlimit
    · exact Or.inl (by rw [hsame])
    · exact Or.inr ⟨l, hl, by rw [hnew]⟩
  cases r with
  | ensure pos => exact Or.inl ⟨pos, rfl⟩
  | property name value => exact Or.inr (hsettings fun _ => limit_setProperty)
  | words slot text => exact Or.inr (hsettings fun _ => limit_setWords)

/-- A request that does not ask for styles leaves the buffer alone. -/
theorem run_snd (r : Request) (x : Highlighter × Buffer) :
    (∃ pos, r = .ensure pos) ∨ (r.run x).2 = x.2 := by
  cases r with
  | ensure pos => exact Or.inl ⟨pos, rfl⟩
  | property name value => exact Or.inr rfl
  | words slot text => exact Or.inr rfl

theorem wellFormed_run (r : Request) {x : Highlighter × Buffer} (hb : x.2.WellFormed) :
    (r.run x).2.WellFormed := by
  obtain ⟨pos, rfl⟩ | hsame := r.run_snd x
  · exact x.1.wellFormed_ensure hb pos
  · rw [hsame]
    exact hb

theorem text_run (r : Request) (x : Highlighter × Buffer) : (r.run x).2.text = x.2.text := by
  obtain ⟨pos, rfl⟩ | hsame := r.run_snd x
  · exact text_ensure x.1 x.2 pos
  · rw [hsame]

/-- A request leaves the levels of a text if the lexer does not fold. -/
theorem levels_run (r : Request) {x : Highlighter × Buffer} (hoff : x.1.lexer.folds = false)
    (hpos : 0 < x.2.size) : (r.run x).2.levels = x.2.levels := by
  obtain ⟨pos, rfl⟩ | hsame := r.run_snd x
  · exact levels_ensure hoff hpos pos
  · rw [hsame]

theorem unfolded_run (r : Request) {x : Highlighter × Buffer} (hb : x.2.Unfolded)
    (hoff : x.2.size = 0 ∨ x.1.lexer.folds = false) : (r.run x).2.Unfolded := by
  obtain ⟨pos, rfl⟩ | hsame := r.run_snd x
  · exact unfolded_ensure hb hoff pos
  · rw [hsame]
    exact hb

theorem limit_run (r : Request) (x : Highlighter × Buffer) :
    (r.run x).1.lexer.limit = x.1.lexer.limit := by
  obtain ⟨pos, rfl⟩ | hsame | ⟨l, hl, hnew⟩ := r.run_cases x
  · obtain ⟨f, hf⟩ := x.1.exists_remember_ensure x.2 pos
    show (x.1.ensure x.2 pos).1.lexer.limit = x.1.lexer.limit
    rw [hf, Lexer.limit_remember]
  · rw [hsame]
  · rw [hnew]
    exact hl

/-- A highlighter that starts anew has nothing to keep, whatever the buffer holds. -/
theorem current_run {r : Request} {x : Highlighter × Buffer} (hb : x.2.WellFormed)
    (hx : Current x)
    (hr : x.2.size < x.1.lexer.limit ∨ ∀ pos, r = .ensure pos → x.2.size ≤ pos) :
    Current (r.run x) := by
  obtain ⟨pos, rfl⟩ | hsame | ⟨l, -, hnew⟩ := r.run_cases x
  · exact hx.ensure (hr.imp_right fun h => h pos rfl)
  · rw [hsame]
    exact hx
  · rw [hnew]
    exact current_of_zero hb rfl

/-! ### What all requests do -/

/-- What every request keeps a session keeps. -/
theorem runAll_keeps {P : Highlighter × Buffer → Prop} (hrun : ∀ r x, P x → P (run x r))
    (requests : List Request) {x : Highlighter × Buffer} (hx : P x) : P (runAll x requests) := by
  induction requests generalizing x with
  | nil => exact hx
  | cons r requests ih => exact ih (hrun r x hx)

theorem wellFormed_runAll (requests : List Request) {x : Highlighter × Buffer}
    (hb : x.2.WellFormed) : (runAll x requests).2.WellFormed :=
  runAll_keeps (P := fun y => y.2.WellFormed) (fun r _ h => r.wellFormed_run h) requests hb

theorem text_runAll (requests : List Request) (x : Highlighter × Buffer) :
    (runAll x requests).2.text = x.2.text :=
  runAll_keeps (P := fun y => y.2.text = x.2.text) (fun r y h => (r.text_run y).trans h) requests
    rfl

/-- Of a short text the view is kept in all sessions, and of a long one if it is only asked for
whole. -/
theorem current_runAll (requests : List Request) {x : Highlighter × Buffer} (hb : x.2.WellFormed)
    (hx : Current x)
    (hrequests : x.2.size < x.1.lexer.limit ∨ ∀ pos, .ensure pos ∈ requests → x.2.size ≤ pos) :
    Current (runAll x requests) := by
  induction requests generalizing x with
  | nil => exact hx
  | cons r requests ih =>
    have hsame : (r.run x).2.size = x.2.size := congrArg Text.size (r.text_run x)
    apply ih (r.wellFormed_run hb)
    · apply current_run hb hx
      exact hrequests.imp_right fun h pos hr => h pos (hr ▸ List.mem_cons_self)
    · rw [hsame, r.limit_run]
      exact hrequests.imp_right fun h pos hr => h pos (List.mem_cons_of_mem _ hr)

/-- As long as the lexer does not fold, the levels of a text stay. -/
theorem levels_runAll (requests : List Request) {x : Highlighter × Buffer} (hpos : 0 < x.2.size)
    (hoff : ∀ done, done <+: requests → (runAll x done).1.lexer.folds = false) :
    (runAll x requests).2.levels = x.2.levels := by
  induction requests generalizing x with
  | nil => rfl
  | cons r requests ih =>
    have hsame : (r.run x).2.size = x.2.size := congrArg Text.size (r.text_run x)
    have hrest := ih (x := r.run x) (by rw [hsame]; exact hpos) fun done hdone =>
      hoff (r :: done) ((List.prefix_cons_inj r).2 hdone)
    exact hrest.trans (r.levels_run (hoff [] List.nil_prefix) hpos)

theorem unfolded_runAll (requests : List Request) {x : Highlighter × Buffer} (hb : x.2.Unfolded)
    (hoff : x.2.size = 0 ∨ ∀ done, done <+: requests → (runAll x done).1.lexer.folds = false) :
    (runAll x requests).2.Unfolded := by
  induction requests generalizing x with
  | nil => exact hb
  | cons r requests ih =>
    have hsame : (r.run x).2.size = x.2.size := congrArg Text.size (r.text_run x)
    apply ih (r.unfolded_run hb (hoff.imp_right fun h => h [] List.nil_prefix))
    rw [hsame]
    exact hoff.imp_right fun h done hdone => h (r :: done) ((List.prefix_cons_inj r).2 hdone)

/-- They stay through a last call for styles as well, also those of an empty text. -/
theorem levels_ensure_runAll (requests : List Request) {x : Highlighter × Buffer}
    (hb : x.2.WellFormed) (hempty : x.2.size = 0 → x.2.Unfolded)
    (hoff : ∀ done, done <+: requests → (runAll x done).1.lexer.folds = false) (pos : Nat) :
    ((runAll x requests).1.ensure (runAll x requests).2 pos).2.levels = x.2.levels := by
  have htext := text_runAll requests x
  have hlast := hoff requests (List.prefix_refl _)
  rcases Nat.eq_zero_or_pos x.2.size with hzero | hpos
  · have hunfolded := unfolded_runAll requests (hempty hzero) (Or.inl hzero)
    exact Buffer.Unfolded.levels_eq hb (wellFormed_ensure _ (wellFormed_runAll requests hb) pos)
      ((text_ensure ..).trans htext) (hempty hzero) (unfolded_ensure hunfolded (Or.inr hlast) pos)
  · have hsame : (runAll x requests).2.size = x.2.size := congrArg Text.size htext
    exact (levels_ensure hlast (by rw [hsame]; exact hpos) pos).trans
      (levels_runAll requests hpos hoff)

/-- A session keeps its view from the start on if the text is short, or from where the highlighter
last started anew if since then it was only asked for whole. -/
theorem current_runAll_start (l : Lexer) (t : Text) (requests : List Request)
    (hsize : t.size < l.limit ∨ ∃ before after, requests = before ++ after
      ∧ (runAll (start l, .ofText t) before).1.styledTo = 0
      ∧ ∀ pos, .ensure pos ∈ after → t.size ≤ pos) :
    Current (runAll (start l, .ofText t) requests) := by
  have hb := Buffer.wellFormed_ofText t
  rcases hsize with hshort | ⟨before, after, rfl, hzero, hwhole⟩
  · exact current_runAll requests hb (current_of_zero hb rfl) (Or.inl hshort)
  · have hsame : (runAll (start l, .ofText t) before).2.size = t.size :=
      congrArg Text.size (text_runAll before _)
    have hb' := wellFormed_runAll before (x := (start l, .ofText t)) hb
    rw [runAll_append]
    apply current_runAll after hb' (current_of_zero hb' hzero)
    rw [hsame]
    exact Or.inr hwhole

end Request

/-! ## 4. A text that is too long -/

/-- The first call of a highlighter. -/
theorem exists_ensure_start (l : Lexer) (t : Text) {pos : Nat} (hpos : 0 < min pos t.size) :
    ∃ f levels, (start l).ensure (.ofText t) pos
      = (⟨l.remember f, goal (.ofText t) pos⟩,
        (l.lex (.ofText t) 0 (goal (.ofText t) pos) .plain).setLevels levels) := by
  have hlt : min (start l).styledTo (Buffer.ofText t).size < min pos (Buffer.ofText t).size :=
    Nat.lt_of_le_of_lt (Nat.min_le_left ..) hpos
  obtain ⟨f, levels, he⟩ := exists_ensure_of_lt hlt
  rw [restart_of_zero rfl] at he
  exact ⟨f, levels, he⟩

section

variable {n : Nat}

/-- Styled at once, the last byte of the text is in its raw string. -/
theorem tokenAt_fromScratch_longRaw (g : R.Settings) (hn : 0 < n) :
    (fromScratch (.r g) (R.longRaw n)).tokenAt (n + 6) = .rawString := by
  have hsize := R.size_longRaw n
  have hgoal : goal (.ofText (R.longRaw n)) (n + 7) = n + 7 := by
    show (R.longRaw n).lineStart ((R.longRaw n).lineOf (min _ (R.longRaw n).size - 1) + 1) = n + 7
    rw [R.lineOf_longRaw, if_neg (by omega), R.lineStart_longRaw_two]
  obtain ⟨f, levels, he⟩ := exists_ensure_start (.r g) (R.longRaw n)
    (show 0 < min (n + 7) (R.longRaw n).size by omega)
  have hstyles := (Buffer.wellFormed_ofText (R.longRaw n)).styles_size
  rw [fromScratch, hsize, he, hgoal, Buffer.tokenAt_setLevels, Lexer.lex,
    Buffer.tokenAt_restyle _ _ (by rw [hstyles]; show n + 6 < (R.longRaw n).size; omega)]
  show ((R.style g (R.longRaw n) 0 (n + 7) .plain
    (Lexer.savedBefore (.ofText (R.longRaw n)) 0)).tokenAt? (n + 6)).getD _ = .rawString
  rw [Lexer.savedBefore_zero, R.style_longRaw_whole g hn]
  rfl

/-- A call for its first line leaves the raw string open, but with more dashes than a line state
holds. -/
theorem ensure_longRaw_firstLine (g : R.Settings) (n : Nat) : ∃ b : Buffer,
    (start (.r g)).ensure (.ofText (R.longRaw n)) 1 = (⟨.r g, n + 4⟩, b)
      ∧ b.WellFormed ∧ b.text = R.longRaw n ∧ b.tokenAt (n + 3) = .rawString
      ∧ b.lineState 0 = R.LineState.pack (some ⟨')'.toNat, n⟩) := by
  have hsize := R.size_longRaw n
  have hgoal : goal (.ofText (R.longRaw n)) 1 = n + 4 := by
    show (R.longRaw n).lineStart ((R.longRaw n).lineOf (min 1 (R.longRaw n).size - 1) + 1) = n + 4
    rw [R.lineOf_longRaw, if_pos (by omega), R.lineStart_longRaw_one]
  obtain ⟨f, levels, he⟩ := exists_ensure_start (.r g) (R.longRaw n)
    (show 0 < min 1 (R.longRaw n).size by omega)
  rw [hgoal] at he
  have hb := Buffer.wellFormed_ofText (R.longRaw n)
  have hstyling : (Lexer.r g).styling (.ofText (R.longRaw n)) 0 (n + 4) .plain
      = R.style g (R.longRaw n) 0 (n + 4) .plain 0 :=
    congrArg (R.style g (R.longRaw n) 0 (n + 4) .plain) (Lexer.savedBefore_zero _)
  obtain ⟨htoken, hstate⟩ := R.style_longRaw_firstLine g n
  refine ⟨_, he, ((Lexer.r g).wellFormed_lex hb ..).setLevels levels, ?_, ?_, ?_⟩
  · rw [Buffer.text_setLevels, Lexer.text_lex]
    rfl
  · rw [Buffer.tokenAt_setLevels, Lexer.lex, hstyling,
      Buffer.tokenAt_restyle _ _ (by rw [hb.styles_size]; show n + 3 < (R.longRaw n).size; omega),
      htoken]
    rfl
  · rw [Buffer.lineState, Buffer.lineStates_setLevels, ← Buffer.lineState, Lexer.lex, hstyling,
      Buffer.lineState_restyle _ _ (by
        rw [hb.lineStates_size, Text.lineCount_eq_lastLine]
        exact Nat.succ_pos _), hstate]
    rfl

/-- Styled line by line, the last byte is behind the raw string. -/
theorem tokenAt_ensure_longRaw (g : R.Settings) (hn : 2 ^ 23 ≤ n) (hlt : n < 2 ^ 24) :
    ∃ b : Buffer, (start (.r g)).ensure (.ofText (R.longRaw n)) 1 = (⟨.r g, n + 4⟩, b)
      ∧ (ensure ⟨.r g, n + 4⟩ b (n + 7)).2.tokenAt (n + 6) = .plain := by
  obtain ⟨b, he, hb, htext, htoken, hstate⟩ := ensure_longRaw_firstLine g n
  have hsize : b.size = n + 7 := (congrArg Text.size htext).trans (R.size_longRaw n)
  have hrestart : restart ⟨.r g, n + 4⟩ b = n + 4 := by
    rw [restart, htext, R.lineOf_longRaw, if_neg (by show ¬ min (n + 4) b.size < n + 4; omega),
      R.lineStart_longRaw_one]
  have hgoal : goal b (n + 7) = n + 7 := by
    rw [goal, htext, R.lineOf_longRaw, if_neg (by omega), R.lineStart_longRaw_two]
  have hstart : tokenBefore b (n + 4) = .rawString := by
    rw [tokenBefore, if_neg (by omega)]
    exact htoken
  have hsaved : Lexer.savedBefore b (n + 4) = R.LineState.pack (some ⟨')'.toNat, n⟩) := by
    rw [Lexer.savedBefore, htext, R.lineOf_longRaw, if_neg (Nat.lt_irrefl _)]
    exact hstate
  have hread := R.LineState.unpack_pack_of_le (d := ⟨')'.toNat, n⟩)
    (show 0 < ')'.toNat by decide) (show ')'.toNat < 256 by decide) hn hlt
  have hstyling : (Lexer.r g).styling b (n + 4) 3 .rawString
      = R.style g (R.longRaw n) (n + 4) 3 .rawString
        (R.LineState.pack (some ⟨')'.toNat, n⟩)) := by
    rw [Lexer.styling, htext, hsaved]
  obtain ⟨f, levels, he'⟩ := exists_ensure_of_lt (h := ⟨.r g, n + 4⟩) (b := b)
    (show min (n + 4) b.size < min (n + 7) b.size by omega)
  rw [hrestart, hgoal, hstart, show n + 7 - (n + 4) = 3 by omega] at he'
  refine ⟨b, he, ?_⟩
  rw [he', Buffer.tokenAt_setLevels, Lexer.lex, hstyling,
    Buffer.tokenAt_restyle _ _ (by rw [hb.styles_size, htext, R.size_longRaw]; omega),
    R.style_longRaw_secondLine g n hread]
  rfl

/-- So asking for its first line before the rest makes a difference. -/
theorem styles_ensure_longRaw (g : R.Settings) (hn : 2 ^ 23 ≤ n) (hlt : n < 2 ^ 24) :
    let x := Request.runAll (start (.r g), .ofText (R.longRaw n)) [.ensure 1]
    (x.1.ensure x.2 (R.longRaw n).size).2.styles
      ≠ (fromScratch (x.1.lexer.remember none) (R.longRaw n)).styles := by
  obtain ⟨b, he, htoken⟩ := tokenAt_ensure_longRaw g hn hlt
  have htoken' := tokenAt_fromScratch_longRaw g (n := n) (by omega)
  have hrun : Request.runAll (start (.r g), .ofText (R.longRaw n)) [.ensure 1]
      = (⟨.r g, n + 4⟩, b) := he
  rw [hrun, R.size_longRaw]
  intro x hstyles
  have hsame : (ensure ⟨.r g, n + 4⟩ b (n + 7)).2.styles
      = (fromScratch (.r g) (R.longRaw n)).styles := hstyles
  rw [Buffer.tokenAt, hsame, ← Buffer.tokenAt, htoken'] at htoken
  exact Token.noConfusion htoken

end

/-! ## 5. The last settings -/

/-- However the settings were changed and styles were asked for, styling to the end gives what the
last settings say of the text. Levels are left out if folding was on and is off at last: they stay
as they were. A text too long for packed line states is only asked for whole since the settings
last changed. -/
theorem ensure_eq_last_settings (l : Lexer) (t : Text) (requests : List Request)
    (hsize : t.size < l.limit ∨ ∃ before after, requests = before ++ after
      ∧ (Request.runAll (start l, .ofText t) before).1.styledTo = 0
      ∧ ∀ pos, .ensure pos ∈ after → t.size ≤ pos) :
    let x := Request.runAll (start l, .ofText t) requests
    let last := (x.1.ensure x.2 t.size).2
    let fresh := fromScratch (x.1.lexer.remember none) t
    last.styles = fresh.styles ∧ last.lineStates = fresh.lineStates
      ∧ (x.1.lexer.folds = true ∨ (∀ done, done <+: requests →
          (Request.runAll (start l, .ofText t) done).1.lexer.folds = false) →
        last.levels = fresh.levels)
      ∧ ∀ before after, requests = before ++ after →
        (∀ done, done <+: after →
          (Request.runAll (start l, .ofText t) (before ++ done)).1.lexer.folds = false) →
        last.levels = (Request.runAll (start l, .ofText t) before).2.levels := by
  intro x last fresh
  have hflat := Buffer.unfolded_ofText t
  obtain ⟨hstyles, hstates, hlevels⟩ := (Request.current_runAll_start l t requests
    hsize).ensure_eq_fromScratch (Request.text_runAll requests _)
  refine ⟨hstyles, hstates, fun hon => hlevels (hon.imp_right fun hoff => ?_), ?_⟩
  · exact unfolded_ensure (Request.unfolded_runAll requests hflat (Or.inr hoff))
      (Or.inr (hoff requests (List.prefix_refl _))) _
  · rintro before after rfl hoff
    simp only [Request.runAll_append] at hoff
    have hsame : (Request.runAll (start l, .ofText t) before).2.size = t.size :=
      congrArg Text.size (Request.text_runAll before _)
    have hstay := Request.levels_ensure_runAll after
      (Request.wellFormed_runAll before (Buffer.wellFormed_ofText t))
      (fun hzero => Request.unfolded_runAll before hflat (Or.inl (hsame.symm.trans hzero))) hoff
    rw [← Request.runAll_append] at hstay
    exact hstay t.size

/-- Folding is switched on between two calls for styles, and a setting that does not exist is
refused. -/
theorem ensure_eq_last_settings_of_fold :
    let l := Lexer.haskell {} none
    let t := Text.ofBytes #[0x66, 0x20, 0x3D, 0x0A, 0x20, 0x20, 0x78, 0x0A] .utf8
    let requests := [.ensure 8, .property "fold" "1", .ensure 3, .property "folds" "0"]
    (t.size < l.limit ∨ ∃ before after, requests = before ++ after
      ∧ (Request.runAll (start l, .ofText t) before).1.styledTo = 0
      ∧ ∀ pos, .ensure pos ∈ after → t.size ≤ pos)
    ∧ let x := Request.runAll (start l, .ofText t) requests
      let last := (x.1.ensure x.2 t.size).2
      let fresh := fromScratch (x.1.lexer.remember none) t
      last.styles = fresh.styles ∧ last.lineStates = fresh.lineStates
        ∧ (x.1.lexer.folds = true ∨ (∀ done, done <+: requests →
            (Request.runAll (start l, .ofText t) done).1.lexer.folds = false) →
          last.levels = fresh.levels)
        ∧ ∀ before after, requests = before ++ after →
          (∀ done, done <+: after →
            (Request.runAll (start l, .ofText t) (before ++ done)).1.lexer.folds = false) →
          last.levels = (Request.runAll (start l, .ofText t) before).2.levels :=
  ⟨Or.inl (by decide +kernel), ensure_eq_last_settings _ _ _ (Or.inl (by decide +kernel))⟩

/-- Levels do stay when folding is switched off, and a text can be too long to be asked for in
parts. -/
theorem ensure_ne_last_settings :
    (let l := Lexer.haskell {} none
      let t := Text.ofBytes #[0x66, 0x20, 0x3D, 0x0A, 0x20, 0x20, 0x78, 0x0A] .utf8
      let x := Request.runAll (start l, .ofText t)
        [.property "fold" "1", .ensure 8, .property "fold" "0"]
      (x.1.ensure x.2 t.size).2.levels ≠ (fromScratch (x.1.lexer.remember none) t).levels)
    ∧ let l := Lexer.r {}
      let t := R.longRaw (2 ^ 23)
      let x := Request.runAll (start l, .ofText t) [.ensure 1]
      (x.1.ensure x.2 t.size).2.styles ≠ (fromScratch (x.1.lexer.remember none) t).styles :=
  ⟨by decide +kernel, styles_ensure_longRaw {} (Nat.le_refl _) (by omega)⟩

end Highlighter

end Restyle
