/-
Restyle.Proofs.Cli.Coloured — coloured output is the text of the file.

A text in a style is written line by line; its pieces put together are the
text, and the line ends among them have no style (`flatMap_ofText`,
`isPlain_of_mem_ofText`). The runs of a buffer show as the whole text does
if its styles change at seams only (`flatMap_slice_runs`), and that is what
lexers see to. So the pieces of any file, styled with any settings, put
together are the text that the file shows as (`pieces_styled_lossless`).
-/
import Restyle.Cli.Run
import Restyle.Proofs.Highlighter.Incremental
import Restyle.Proofs.Lexer.Seams

namespace Restyle

/-! ## 1. A text in a style -/

theorem not_mem_of_mem_splitOn {α : Type} [DecidableEq α] {a : α} {xs : List α} :
    ∀ part ∈ xs.splitOn a, a ∉ part := by
  induction xs with
  | nil => simp
  | cons x xs ih =>
    rw [List.splitOn_cons_eq_if_modifyHead]
    split
    · simpa using ih
    · rename_i hne
      have hne : x ≠ a := by simpa using hne
      cases hparts : xs.splitOn a with
      | nil => exact absurd hparts (List.splitOn_ne_nil a xs)
      | cons first rest =>
        rw [hparts] at ih
        intro part hpart
        rcases List.mem_cons.1 hpart with rfl | hpart
        · rw [List.mem_cons, not_or]
          exact ⟨hne.symm, ih first List.mem_cons_self⟩
        · exact ih part (List.mem_cons_of_mem first hpart)

namespace Style

theorem eq_of_isPlain {s : Style} (h : s.isPlain = true) : s = {} := beq_iff_eq.1 h

/-- A plain style is written without escape sequences. -/
theorem opening_and_closing_of_isPlain {s : Style} (h : s.isPlain = true) (colours : Bool) :
    s.opening colours = "" ∧ s.closing colours = "" := by
  rw [eq_of_isPlain h]
  constructor <;> rfl

end Style

namespace Cli

namespace Piece

/-- Pieces with line ends between them say what their lines do. -/
theorem flatMap_intercalate_lineEnd (style : Style) (lines : List (List Char)) :
    ([lineEnd].intercalate (lines.map (ofLine style))).flatMap (·.text.toList)
      = ['\n'].intercalate lines := by
  have hline (line : List Char) : (ofLine style line).flatMap (·.text.toList) = line := by
    rw [ofLine]
    split
    · rename_i hnil
      exact hnil.symm
    · simp
  induction lines with
  | nil => rfl
  | cons line lines ih =>
    cases lines with
    | nil => simpa using hline line
    | cons line' lines =>
      rw [List.map_cons, List.map_cons, List.intercalate_cons_cons, List.intercalate_cons_cons,
        List.flatMap_append, List.flatMap_append, hline, ← List.map_cons, ih]
      rfl

/-- The pieces of a text say the text. -/
theorem flatMap_ofText (style : Style) (text : String) :
    (ofText style text).flatMap (·.text.toList) = text.toList := by
  rw [ofText]
  split
  · simp
  · rw [flatMap_intercalate_lineEnd, List.intercalate_splitOn]

theorem mem_intercalate_lineEnd {style : Style} {p : Piece} {lines : List (List Char)}
    (h : p ∈ [lineEnd].intercalate (lines.map (ofLine style))) :
    p = lineEnd ∨ ∃ line ∈ lines, p ∈ ofLine style line := by
  induction lines with
  | nil => cases h
  | cons line lines ih =>
    cases lines with
    | nil =>
      rw [List.map_singleton, List.intercalate_singleton] at h
      exact Or.inr ⟨line, List.mem_cons_self, h⟩
    | cons line' lines =>
      rw [List.map_cons, List.map_cons, List.intercalate_cons_cons, List.mem_append,
        List.mem_append, List.mem_singleton, ← List.map_cons] at h
      rcases h with (h | h) | h
      · exact Or.inr ⟨line, List.mem_cons_self, h⟩
      · exact Or.inl h
      · exact (ih h).imp_right fun ⟨part, hpart, hp⟩ => ⟨part, List.mem_cons_of_mem line hpart, hp⟩

theorem toList_of_mem_ofLine {style : Style} {p : Piece} {line : List Char}
    (h : p ∈ ofLine style line) : p.text.toList = line := by
  rw [ofLine] at h
  split at h
  · cases h
  · rw [List.mem_singleton.1 h, String.toList_ofList]

/-- A piece with a line end in it has no style. -/
theorem isPlain_of_mem_ofText {style : Style} {text : String} {p : Piece}
    (h : p ∈ ofText style text) (hend : '\n' ∈ p.text.toList) : p.style.isPlain = true := by
  rw [ofText] at h
  split at h
  · rename_i hplain
    rw [List.mem_singleton.1 h]
    exact hplain
  · rcases mem_intercalate_lineEnd h with rfl | ⟨line, hline, hp⟩
    · rfl
    · rw [toList_of_mem_ofLine hp] at hend
      exact absurd hend (not_mem_of_mem_splitOn line hline)

end Piece

end Cli

/-! ## 2. Runs -/

/-- Runs of tokens that change at seams only show as the bytes from the first on do. -/
theorem flatMap_slice_runsFrom {t : Text} {tok : Nat → Token}
    (h : ∀ p, p + 1 < t.size → tok (p + 1) ≠ tok p → t.Seam (p + 1)) :
    ∀ (count start pos : Nat), start ≤ pos → pos + 1 + count = t.size →
      (Span.runsFrom start (tok pos) (pos + 1) ((List.range' (pos + 1) count).map tok)).flatMap
        (fun s => (t.slice s.start s.stop).toList) = (t.slice start t.size).toList
  | 0, start, pos, _, hsize => by
    rw [Nat.add_zero] at hsize
    simp [Span.runsFrom, hsize]
  | count + 1, start, pos, hle, hsize => by
    rw [List.range'_succ, List.map_cons, Span.runsFrom]
    have ih := fun start hstart =>
      flatMap_slice_runsFrom h count start (pos + 1) hstart (by omega)
    by_cases hsame : tok (pos + 1) = tok pos
    · rw [if_pos hsame, ← hsame]
      exact ih start (by omega)
    · rw [if_neg hsame, List.flatMap_cons, ih (pos + 1) (Nat.le_refl _)]
      exact Text.slice_append (h pos (by omega) hsame) (Nat.le_succ_of_le hle) (by
        rw [← hsize]
        exact Nat.le_add_right (pos + 1) (count + 1))

namespace Buffer

variable {b : Buffer}

/-- The runs of a buffer whose styles change at seams only show as its text does. -/
theorem flatMap_slice_runs (hb : b.WellFormed)
    (h : ∀ p, p + 1 < b.size → b.tokenAt (p + 1) ≠ b.tokenAt p → b.text.Seam (p + 1)) :
    b.runs.flatMap (fun s => (b.text.slice s.start s.stop).toList)
      = Utf8.lossy b.text.bytes.toList := by
  have hstyles : b.styles.toList = (List.range' 0 b.size).map b.tokenAt := by
    have hsize : b.styles.size = b.size := hb.styles_size
    apply List.ext_getElem
    · simp [hsize]
    · intro p hp _
      simp at hp
      simp [tokenAt, hp]
  have hall : (b.text.slice 0 b.text.size).toList = Utf8.lossy b.text.bytes.toList := by
    simp [Text.slice, Text.bytesIn, Text.size, Utf8.toDisplay]
  rw [runs, hstyles]
  rcases Nat.eq_zero_or_pos b.size with hzero | hpos
  · have hbytes : b.text.bytes = #[] := Array.size_eq_zero_iff.1 hzero
    rw [hzero, hbytes]
    rfl
  · obtain ⟨count, hcount⟩ := Nat.exists_eq_succ_of_ne_zero (Nat.ne_of_gt hpos)
    rw [hcount, List.range'_succ, List.map_cons, Span.runs, ← hall]
    exact flatMap_slice_runsFrom h count 0 0 (Nat.le_refl 0) (by
      rw [Nat.add_comm 0 1, Nat.add_comm]; exact hcount.symm)

end Buffer

/-! ## 3. The whole output -/

namespace Cli

/-- A new highlighter's styles change at seams only. -/
theorem seam_of_tokenAt_ne (l : Lexer) (bytes : Array UInt8) {p : Nat}
    (hp : p + 1 < (styled (.start l) bytes).size)
    (hne : (styled (.start l) bytes).tokenAt (p + 1) ≠ (styled (.start l) bytes).tokenAt p) :
    (styled (.start l) bytes).text.Seam (p + 1) := by
  rw [styled] at hp hne ⊢
  generalize hb : Buffer.ofText (.ofBytes bytes .utf8) = b at hp hne ⊢
  have htext := Highlighter.text_ensure (.start l) b b.size
  have hsize : ((Highlighter.start l).ensure b b.size).2.size = b.size := congrArg Text.size htext
  rw [hsize] at hp
  have hstart : min (Highlighter.start l).styledTo b.size < min b.size b.size := by
    show min 0 b.size < _
    omega
  obtain ⟨f, levels, he⟩ := Highlighter.exists_ensure_of_lt hstart
  have hgoal : Highlighter.goal b b.size = b.size := by
    have hlast : b.size - 1 < min b.size b.size := by omega
    have hlt := Highlighter.lt_goal hlast
    have hle := Highlighter.goal_le b b.size
    omega
  rw [Highlighter.restart_of_zero rfl, hgoal] at he
  rw [htext]
  rw [he] at hne
  simp only [Buffer.tokenAt_setLevels] at hne
  refine Classical.byContradiction fun hseam => hne ?_
  exact l.tokenAt_succ_of_not_seam (hb ▸ Buffer.wellFormed_ofText _) hp hseam

/-- Whatever bytes a file has, and however it is styled, what is written in colour is pieces, each
between its own escape sequences. Their texts put together are the text that the bytes show as, no
more and no less, and around a piece with a line end in it stand no escape sequences. -/
theorem pieces_styled_lossless (l : Lexer) (bytes : Array UInt8) :
    let b := styled (.start l) bytes
    (∀ colours, coloured colours b = String.join ((pieces b).map fun p =>
        p.style.opening colours ++ p.text ++ p.style.closing colours))
      ∧ String.join ((pieces b).map (·.text)) = Utf8.toDisplay bytes.toList
      ∧ ∀ p ∈ pieces b, '\n' ∈ p.text.toList →
          ∀ colours, p.style.opening colours = "" ∧ p.style.closing colours = "" := by
  intro b
  have htext : b.text = .ofBytes bytes .utf8 := Highlighter.text_ensure ..
  have hruns := Buffer.flatMap_slice_runs
    (Highlighter.wellFormed_ensure (.start l) (Buffer.wellFormed_ofText _) _)
    fun p hp hne => seam_of_tokenAt_ne l bytes hp hne
  change b.runs.flatMap (fun s => (b.text.slice s.start s.stop).toList)
    = Utf8.lossy b.text.bytes.toList at hruns
  refine ⟨fun _ => rfl, ?_, fun p hp hend => ?_⟩
  · apply String.toList_injective
    simp only [pieces, String.toList_join, List.flatMap_map, List.flatMap_assoc,
      Piece.flatMap_ofText, spanText, hruns]
    rw [htext, Utf8.toDisplay, String.toList_ofList]
    rfl
  · obtain ⟨s, -, hp⟩ := List.mem_flatMap.1 hp
    exact Style.opening_and_closing_of_isPlain (Piece.isPlain_of_mem_ofText hp hend)

/-- A percent operator cut off by the line end, with a character cut off in it, is a piece of its
own; the line end after it is not styled, and the output shows what the file does. -/
theorem pieces_styled_lossless_of_cut_character :
    let b := styled (.start (.r {})) #[0x25, 0xE4, 0xBD, 0x0A, 0xF0]
    pieces b = [⟨Token.openPercentOperator.style, "%\uFFFD"⟩, Piece.lineEnd, ⟨{}, "\uFFFD"⟩]
      ∧ String.join ((pieces b).map (·.text)) = Utf8.toDisplay [0x25, 0xE4, 0xBD, 0x0A, 0xF0]
      ∧ ∀ colours, Piece.lineEnd.style.opening colours = ""
          ∧ Piece.lineEnd.style.closing colours = "" := by
  intro b
  have hpieces : pieces b
      = [⟨Token.openPercentOperator.style, "%\uFFFD"⟩, Piece.lineEnd, ⟨{}, "\uFFFD"⟩] := by
    decide +kernel
  obtain ⟨-, htexts, hends⟩ :=
    pieces_styled_lossless (.r {}) #[0x25, 0xE4, 0xBD, 0x0A, 0xF0]
  refine ⟨hpieces, htexts, hends Piece.lineEnd ?_ (by decide)⟩
  change Piece.lineEnd ∈ pieces b
  rw [hpieces]
  exact List.mem_cons_of_mem _ List.mem_cons_self

end Cli

end Restyle
