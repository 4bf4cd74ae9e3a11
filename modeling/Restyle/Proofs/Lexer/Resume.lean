/-
Restyle.Proofs.Lexer.Resume — lexing in pieces is lexing at once.

`Styled l b k` says that up to `k` the tables of `b` hold what the lexer
says of the whole text. A call on a range that starts where that ends
moves its end to the end of the range (`Styled.lex`), whatever the tables
held behind. So it does not matter in how many pieces a text is lexed, if
they are cut at line starts (`lexPieces_eq`).
-/
import Restyle.Highlighter
import Restyle.Proofs.Buffer.Editing
import Restyle.Proofs.Haskell.Resume
import Restyle.Proofs.Lexer.Spans
import Restyle.Proofs.R.Resume

namespace Restyle

namespace Buffer

/-- Well-formed buffers of one text with the same tokens have the same styles. -/
theorem styles_ext {b b' : Buffer} (hb : b.WellFormed) (hb' : b'.WellFormed)
    (ht : b'.text = b.text) (h : ∀ p < b.size, b'.tokenAt p = b.tokenAt p) :
    b'.styles = b.styles := by
  have hs := hb.styles_size
  have hs' := hb'.styles_size
  rw [ht] at hs'
  apply Array.ext (by rw [hs, hs'])
  intro p hp' hp
  have hlook := h p (by rw [Buffer.size, ← hs]; exact hp)
  simpa [tokenAt, Array.getD_eq_getD_getElem?, hp, hp'] using hlook

/-- Well-formed buffers with as many lines and the same states have the same table of them. -/
theorem lineStates_ext {b b' : Buffer} (hb : b.WellFormed) (hb' : b'.WellFormed)
    (ht : b'.text.lineCount = b.text.lineCount)
    (h : ∀ line ≤ b.text.lastLine, b'.lineState line = b.lineState line) :
    b'.lineStates = b.lineStates := by
  have hs := hb.lineStates_size
  have hs' := hb'.lineStates_size
  rw [ht] at hs'
  apply Array.ext (by rw [hs, hs'])
  intro line hline' hline
  rw [hs, b.text.lineCount_eq_lastLine] at hline
  have hlook := h line (by omega)
  rw [← b.text.lineCount_eq_lastLine, ← hs] at hline
  simpa [lineState, Array.getD_eq_getD_getElem?, hline, hline'] using hlook

end Buffer

namespace Lexer

/-- Texts have to be shorter than this for what lines save to fit its place. -/
def limit : Lexer → Nat
  | haskell .. => 2 ^ 28
  | r .. => 2 ^ 23

theorem le_limit (l : Lexer) : 2 ^ 23 ≤ l.limit := by
  cases l <;> simp [limit]

def resumable : ∀ l : Lexer, l.engine.Resumable l.limit
  | haskell g _ => Haskell.resumable g
  | r g => R.resumable g

/-- What the lexer says of a whole text. -/
def whole (l : Lexer) (t : Text) : Styling := l.engine.whole t

variable {l : Lexer} {t : Text} {b b' : Buffer} {k : Nat}

theorem tile_whole (l : Lexer) (t : Text) : Span.Tile 0 (l.whole t).spans.toList t.size := by
  obtain ⟨stop, hwalk, htile⟩ := l.sound.exists_tile t .plain 0 (Nat.le_of_eq (Nat.zero_add t.size))
  have hstop := hwalk.eq_goal (Nat.le_add_right ..) (Or.inr (Nat.zero_add _))
  rw [hstop, Nat.zero_add] at htile
  exact htile

theorem isSome_tokenAt?_whole (l : Lexer) {p : Nat} (hp : p < t.size) :
    ((l.whole t).tokenAt? p).isSome = true :=
  (Styling.isSome_tokenAt?_iff (l.tile_whole t)).2 ⟨Nat.zero_le p, hp⟩

/-! ## What a call leaves alone -/

theorem tokenAt?_styling_eq_none (l : Lexer) (token : Token) {start length p : Nat}
    (h : start + length ≤ b.size) (hp : p < start) :
    (l.styling b start length token).tokenAt? p = none := by
  obtain ⟨stop, -, htile⟩ := l.sound.exists_tile b.text token (savedBefore b start) h
  rw [← Option.not_isSome_iff_eq_none, l.styling_eq, Styling.isSome_tokenAt?_iff htile]
  omega

theorem stateOf?_styling_eq_none (l : Lexer) (length : Nat) (token : Token) {start line : Nat}
    (h : line < b.text.lineOf start) : (l.styling b start length token).stateOf? line = none := by
  rw [l.styling_eq]
  exact l.sound.stateOf?_eq_none h

theorem text_lex (l : Lexer) (b : Buffer) (start length : Nat) (token : Token) :
    (l.lex b start length token).text = b.text := Buffer.text_restyle ..

theorem wellFormed_lex (l : Lexer) (hb : b.WellFormed) (start length : Nat) (token : Token) :
    (l.lex b start length token).WellFormed := hb.restyle _

theorem size_lex (l : Lexer) (b : Buffer) (start length : Nat) (token : Token) :
    (l.lex b start length token).size = b.size := congrArg Text.size (l.text_lex ..)

/-- A call keeps what stands before the line start where its range starts. -/
theorem sameTo_lex (l : Lexer) (hb : b.WellFormed) (token : Token) {start length : Nat}
    (h : start + length ≤ b.size) (hs : start ∈ b.text.starts) (hpos : 0 < start) :
    Buffer.SameTo start b (l.lex b start length token) where
  text := by
    rw [text_lex]
    exact .refl (b.text.isStop_of_mem_starts hs hpos)
  start := hs
  token p hp := Buffer.tokenAt_restyle_of_none (l.tokenAt?_styling_eq_none token h hp)
  state line hline :=
    Buffer.lineState_restyle_of_none hb (l.stateOf?_styling_eq_none length token hline)
  level line _ := by rw [lex, Buffer.level, Buffer.levels_restyle, Buffer.level]

/-! ## Styled buffers -/

/-- Up to `k` the buffer holds what the lexer says of its whole text. -/
structure Styled (l : Lexer) (b : Buffer) (k : Nat) : Prop where
  token : ∀ p < k, p < b.size → (l.whole b.text).tokenAt? p = some (b.tokenAt p)
  state : ∀ line < b.text.lineAt k, (l.whole b.text).stateOf? line = some (b.lineState line)

theorem Styled.mono (h : Styled l b k) {k' : Nat} (hk : k' ≤ k) : Styled l b k' where
  token p hp := h.token p (Nat.lt_of_lt_of_le hp hk)
  state line hline := h.state line (Nat.lt_of_lt_of_le hline (b.text.lineAt_mono hk))

theorem styled_zero (l : Lexer) (b : Buffer) : Styled l b 0 where
  token := by intro p hp; omega
  state := by
    intro line hline
    rw [b.text.lineAt_of_le (Nat.zero_le _), b.text.lineOf_zero] at hline
    omega

/-- There is only one way to be styled to the end. -/
theorem Styled.unique (hb : b.WellFormed) (hb' : b'.WellFormed) (ht : b'.text = b.text)
    (h : Styled l b (b.size + 1)) (h' : Styled l b' (b.size + 1)) :
    b'.styles = b.styles ∧ b'.lineStates = b.lineStates := by
  constructor
  · apply Buffer.styles_ext hb hb' ht
    intro p hp
    have hs := h.token p (by omega) hp
    have hs' := h'.token p (by omega) (by rw [Buffer.size, ht]; exact hp)
    rw [ht, hs] at hs'
    exact (Option.some.inj hs').symm
  · apply Buffer.lineStates_ext hb hb' (congrArg Text.lineCount ht)
    intro line hline
    have hlast : line < b.text.lineAt (b.size + 1) := by
      rw [show b.text.lineAt (b.size + 1) = b.text.lastLine + 1 from b.text.lineAt_size_succ]
      omega
    have hs := h.state line hlast
    have hs' := h'.state line (by rw [ht]; exact hlast)
    rw [ht, hs] at hs'
    exact (Option.some.inj hs').symm

/-- What is styled up to a line start stays so in every buffer that is the same up to there. -/
theorem Styled.sameTo (h : Styled l b k) (hs : Buffer.SameTo k b b') : Styled l b' k := by
  obtain ⟨htoken, hstate⟩ := l.resumable.whole_local l.sound hs.text
  have hle := b.text.le_size_of_mem_starts hs.start
  constructor
  · intro p hp _
    have hsize : p < b.text.size := Nat.lt_of_lt_of_le hp hle
    rw [hs.token p hp, ← h.token p hp hsize]
    exact htoken p hp hsize
  · intro line hline
    rw [hs.text.lineAt (Nat.le_refl k)] at hline
    obtain ⟨state, hsome, hsome'⟩ := hstate line hline
    rw [b.text.lineAt_of_le hle] at hline
    rw [hs.state line hline, whole, hsome', ← hsome]
    exact h.state line (by rw [b.text.lineAt_of_le hle]; exact hline)

/-- Where a range is styled up to, it can be styled on. -/
theorem Styled.resumes (h : Styled l b k) (hk : k ∈ b.text.starts) :
    Engine.Resumes l.engine b.text k (Highlighter.tokenBefore b k) (savedBefore b k) where
  first := by
    rintro rfl
    refine ⟨rfl, ?_⟩
    rw [savedBefore, b.text.lineOf_zero]
    rfl
  token := by
    intro hpos
    have hle := b.text.le_size_of_mem_starts hk
    rw [Highlighter.tokenBefore, if_neg (by omega)]
    exact h.token (k - 1) (by omega) (by rw [Buffer.size]; omega)
  raw := by
    intro hpos
    have hle := b.text.le_size_of_mem_starts hk
    have hline := b.text.lineOf_lt_of_mem_starts hk hpos
    rw [savedBefore]
    rw [if_neg (by omega)]
    exact h.state _ (by rw [b.text.lineAt_of_le hle]; omega)

/-- A call that starts where the buffer is styled to moves that on to where the call ends. -/
theorem Styled.lex (h : Styled l b k) (hb : b.WellFormed) (hsize : b.size < l.limit)
    (hk : k ∈ b.text.starts) (length : Nat) (hlen : k + length ≤ b.size)
    (hstop : k + length ∈ b.text.starts ∨ k + length = b.size) :
    Styled l (l.lex b k length (Highlighter.tokenBefore b k))
      (Cursor.start b.text k length).stop := by
  obtain ⟨htoken, hstate⟩ := l.resumable.piece l.sound hsize hk (h.resumes hk) hlen hstop
  rw [← l.styling_eq] at htoken hstate
  have hkle := b.text.le_size_of_mem_starts hk
  rw [Lexer.lex]
  constructor
  · intro p hp hs
    simp only [Buffer.size, Buffer.text_restyle] at hs ⊢
    by_cases hlt : p < k
    · rw [Buffer.tokenAt_restyle_of_none (l.tokenAt?_styling_eq_none _ hlen hlt)]
      exact h.token p hlt hs
    · have hsame := htoken p (by omega) (Cursor.lt_of_lt_stop_start hp hs)
      rw [Buffer.tokenAt_restyle _ _ (by rw [hb.styles_size]; exact hs), hsame]
      obtain ⟨token, htok⟩ := Option.isSome_iff_exists.1 (l.isSome_tokenAt?_whole hs)
      rw [whole] at htok
      rw [whole, htok]
      rfl
  · intro line hline
    rw [Buffer.text_restyle] at hline ⊢
    have hlt : line < b.lineStates.size := by
      have hmono := b.text.lineAt_mono (Cursor.stop_start_le hlen)
      rw [b.text.lineAt_size_succ] at hmono
      rw [hb.lineStates_size, b.text.lineCount_eq_lastLine]
      omega
    rw [Buffer.lineState_restyle _ _ hlt]
    by_cases hold : line < b.text.lineOf k
    · rw [l.stateOf?_styling_eq_none length _ hold]
      exact h.state line (by rw [b.text.lineAt_of_le hkle]; exact hold)
    · obtain ⟨state, hs, hs'⟩ := hstate line (by omega) hline
      rw [whole, hs, hs']
      rfl

theorem savedBefore_zero (b : Buffer) : savedBefore b 0 = 0 := by
  rw [savedBefore, b.text.lineOf_zero]
  rfl

theorem styling_whole (l : Lexer) (b : Buffer) :
    l.styling b 0 b.size .plain = l.whole b.text := by
  rw [l.styling_eq, savedBefore_zero]
  rfl

/-- A call on a whole text styles it to the end, however long it is. -/
theorem styled_lex_whole (l : Lexer) (hb : b.WellFormed) :
    Styled l (l.lex b 0 b.size .plain) (b.size + 1) := by
  obtain ⟨-, hstate⟩ := l.resumable.whole_local l.sound (Text.SameTo.refl b.text.isStop_size_succ)
  rw [Lexer.lex, l.styling_whole]
  constructor
  · intro p _ hs
    simp only [Buffer.size, Buffer.text_restyle] at hs ⊢
    obtain ⟨token, htoken⟩ := Option.isSome_iff_exists.1 (l.isSome_tokenAt?_whole hs)
    rw [Buffer.tokenAt_restyle _ _ (by rw [hb.styles_size]; exact hs), htoken]
    rfl
  · intro line hline
    rw [Buffer.text_restyle] at hline ⊢
    obtain ⟨state, hsome, -⟩ := hstate line hline
    have hlt : line < b.lineStates.size := by
      have hlast : b.text.lineAt (b.size + 1) = b.text.lastLine + 1 := b.text.lineAt_size_succ
      rw [hb.lineStates_size, b.text.lineCount_eq_lastLine]
      omega
    rw [Buffer.lineState_restyle _ _ hlt, whole, hsome]
    rfl

section

variable (l : Lexer) (hb : b.WellFormed)
include hb

/-- What a buffer lexed as a whole holds at a byte. -/
theorem tokenAt?_whole {p : Nat} (hp : p < b.size) :
    (l.whole b.text).tokenAt? p = some ((l.lex b 0 b.size .plain).tokenAt p) := by
  have htoken := (l.styled_lex_whole hb).token p (by omega) (by rw [l.size_lex]; exact hp)
  rwa [l.text_lex] at htoken

/-- What it holds for a line. -/
theorem stateOf?_whole {line : Nat} (hline : line ≤ b.text.lastLine) :
    (l.whole b.text).stateOf? line = some ((l.lex b 0 b.size .plain).lineState line) := by
  have hlast : b.text.lineAt (b.size + 1) = b.text.lastLine + 1 := b.text.lineAt_size_succ
  have hstate := (l.styled_lex_whole hb).state line (by rw [l.text_lex, hlast]; omega)
  rwa [l.text_lex] at hstate

/-- The spans that a call on a whole text paints are those that it logs. -/
theorem log_lex_whole : (l.lex b.clearLog 0 b.size .plain).log = (l.whole b.text).spans := by
  have hlog := l.log_lex (b := b.clearLog) hb.clearLog (Nat.le_of_eq (Nat.zero_add b.size)) .plain
  have hwhole : l.styling b.clearLog 0 b.size .plain = l.whole b.text := l.styling_whole b.clearLog
  rw [hwhole] at hlog
  exact Array.toList_inj.1 hlog

/-- A span that the whole run paints is logged, and its bytes have its token. -/
theorem mem_log_lex_whole {s : Span} (hs : s ∈ (l.whole b.text).spans) :
    s ∈ (l.lex b.clearLog 0 b.size .plain).log
      ∧ ∀ x, s.start ≤ x → x < s.stop → (l.lex b.clearLog 0 b.size .plain).tokenAt x = s.token := by
  refine ⟨by rw [l.log_lex_whole hb]; exact hs, ?_⟩
  intro x hle hlt
  have hsize := ((l.tile_whole b.text).bounds (Array.mem_toList_iff.2 hs)).2.2
  have hin : s.contains x = true := by simp [Span.contains, hle, hlt]
  have htoken := l.tokenAt?_whole (b := b.clearLog) hb.clearLog (Nat.lt_of_lt_of_le hlt hsize)
  rw [show b.clearLog.text = b.text from rfl,
    Styling.tokenAt?_of_mem (l.tile_whole b.text) hs hin] at htoken
  exact (Option.some.inj htoken).symm

end

/-! ## Pieces -/

/-- Lexes the text from `start` on in pieces that end at `cuts` and at its end, each in the
token of the byte before it. -/
def lexPieces (l : Lexer) (b : Buffer) (start : Nat) : List Nat → Buffer
  | [] => l.lex b start (b.size - start) (Highlighter.tokenBefore b start)
  | cut :: cuts =>
    l.lexPieces (l.lex b start (cut - start) (Highlighter.tokenBefore b start)) cut cuts

/-- Lexing the rest in pieces styles a buffer to the end. -/
theorem Styled.lexPieces (cuts : List Nat) : ∀ {b : Buffer} {start : Nat}, Styled l b start →
    b.WellFormed → b.size < l.limit → (start :: cuts).Pairwise (· ≤ ·) →
    (∀ k ∈ start :: cuts, k ∈ b.text.starts) →
    (l.lexPieces b start cuts).WellFormed ∧ (l.lexPieces b start cuts).text = b.text
      ∧ Styled l (l.lexPieces b start cuts) (b.size + 1) := by
  induction cuts with
  | nil =>
    intro b start h hb hsize _ hstarts
    have hstart := hstarts start List.mem_cons_self
    have hle := b.text.le_size_of_mem_starts hstart
    have heq : start + (b.size - start) = b.size := by simp only [Buffer.size]; omega
    have hstop : (Cursor.start b.text start (b.size - start)).stop = b.size + 1 :=
      Cursor.stop_start_of_eq heq
    refine ⟨l.wellFormed_lex hb .., l.text_lex .., ?_⟩
    rw [← hstop]
    exact h.lex hb hsize hstart _ (Nat.le_of_eq heq) (Or.inr heq)
  | cons cut cuts ih =>
    intro b start h hb hsize hcuts hstarts
    have hle : start ≤ cut := (List.pairwise_cons.1 hcuts).1 cut List.mem_cons_self
    have hcut := hstarts cut (List.mem_cons_of_mem _ List.mem_cons_self)
    have heq : start + (cut - start) = cut := by omega
    have hstyled := h.lex hb hsize (hstarts start List.mem_cons_self) (cut - start)
      (by rw [heq]; exact b.text.le_size_of_mem_starts hcut) (Or.inl (by rw [heq]; exact hcut))
    have hstop : cut ≤ (Cursor.start b.text start (cut - start)).stop :=
      Nat.le_trans (Nat.le_of_eq heq.symm) Cursor.le_stop_start
    have htext := l.text_lex b start (cut - start) (Highlighter.tokenBefore b start)
    have hnext := ih (hstyled.mono hstop) (l.wellFormed_lex hb ..)
      (by rw [l.size_lex]; exact hsize) hcuts.of_cons (by
        intro k hk
        rw [htext]
        exact hstarts k (List.mem_cons_of_mem _ hk))
    rw [htext, l.size_lex] at hnext
    exact hnext

/-- Lexing a text in pieces that are cut at line starts is lexing it at once. -/
theorem lexPieces_eq (l : Lexer) (hb : b.WellFormed) (hsize : b.size < l.limit) {cuts : List Nat}
    (hcuts : cuts.Pairwise (· < ·)) (hstarts : ∀ k ∈ cuts, k ∈ b.text.starts) :
    (l.lexPieces b 0 cuts).styles = (l.lex b 0 b.size .plain).styles
      ∧ (l.lexPieces b 0 cuts).lineStates = (l.lex b 0 b.size .plain).lineStates := by
  have hpieces (cuts : List Nat) (hcuts : cuts.Pairwise (· < ·))
      (hstarts : ∀ k ∈ cuts, k ∈ b.text.starts) :=
    (styled_zero l b).lexPieces cuts hb hsize
      (List.pairwise_cons.2 ⟨fun k _ => Nat.zero_le k, hcuts.imp Nat.le_of_lt⟩)
      (List.forall_mem_cons.2 ⟨b.text.mem_starts_iff.2 (Or.inl rfl), hstarts⟩)
  obtain ⟨hb₁, htext, hstyled⟩ := hpieces cuts hcuts hstarts
  obtain ⟨hb₂, htext', hstyled'⟩ := hpieces [] List.Pairwise.nil (by simp)
  have hsame := Styled.unique (l := l) hb₂ hb₁ (htext.trans htext'.symm)
  rw [show (l.lexPieces b 0 []).size = b.size from congrArg Text.size htext'] at hsame
  exact hsame hstyled' hstyled

/-- The Haskell lexer styles a text of less than 2^28 bytes in pieces as it does at once. -/
theorem haskell_lexPieces (g : Haskell.Settings) (firstImport : Option Nat) (hb : b.WellFormed)
    (hsize : b.size < 2 ^ 28) {cuts : List Nat} (hcuts : cuts.Pairwise (· < ·))
    (hstarts : ∀ k ∈ cuts, k ∈ b.text.starts) :
    ((haskell g firstImport).lexPieces b 0 cuts).styles
        = ((haskell g firstImport).lex b 0 b.size .plain).styles
      ∧ ((haskell g firstImport).lexPieces b 0 cuts).lineStates
        = ((haskell g firstImport).lex b 0 b.size .plain).lineStates :=
  lexPieces_eq (haskell g firstImport) hb hsize hcuts hstarts

/-- A nested comment in three pieces, the second of which starts inside it. -/
theorem haskell_lexPieces_of_comment :
    let b := Buffer.ofText (.ofBytes #[0x7B, 0x2D, 0x0A, 0x2D, 0x7D, 0x0D, 0x0A, 0x78] .utf8)
    let l := haskell {} none
    b.size < 2 ^ 28 ∧ [3, 7].Pairwise (· < ·) ∧ (∀ k ∈ [3, 7], k ∈ b.text.starts)
      ∧ (l.lexPieces b 0 [3, 7]).styles = (l.lex b 0 b.size .plain).styles
      ∧ (l.lexPieces b 0 [3, 7]).lineStates = (l.lex b 0 b.size .plain).lineStates :=
  ⟨by decide, by decide, by decide +kernel, haskell_lexPieces {} none (Buffer.wellFormed_ofText _)
    (by decide) (by decide) (by decide +kernel)⟩

/-- The R lexer styles a text of less than 2^23 bytes in pieces as it does at once. -/
theorem r_lexPieces (g : R.Settings) (hb : b.WellFormed) (hsize : b.size < 2 ^ 23)
    {cuts : List Nat} (hcuts : cuts.Pairwise (· < ·)) (hstarts : ∀ k ∈ cuts, k ∈ b.text.starts) :
    ((r g).lexPieces b 0 cuts).styles = ((r g).lex b 0 b.size .plain).styles
      ∧ ((r g).lexPieces b 0 cuts).lineStates = ((r g).lex b 0 b.size .plain).lineStates :=
  lexPieces_eq (r g) hb hsize hcuts hstarts

/-- A percent operator that its line leaves open, before a line that starts another. -/
theorem r_lexPieces_of_open_operator :
    let b := Buffer.ofText (.ofBytes #[0x25, 0x61, 0x0A, 0x25, 0x62, 0x0A] .eightBit)
    let l := r {}
    b.size < 2 ^ 23 ∧ [3, 6].Pairwise (· < ·) ∧ (∀ k ∈ [3, 6], k ∈ b.text.starts)
      ∧ (l.lexPieces b 0 [3, 6]).styles = (l.lex b 0 b.size .plain).styles
      ∧ (l.lexPieces b 0 [3, 6]).lineStates = (l.lex b 0 b.size .plain).lineStates :=
  ⟨by decide, by decide, by decide +kernel, r_lexPieces {} (Buffer.wellFormed_ofText _)
    (by decide) (by decide) (by decide +kernel)⟩

end Lexer

end Restyle
