/-
Restyle.Proofs.Lexer.StoredLevels — how much of a fold level is left when
it is stored.

Of all that a call says of a line the buffer keeps the last (`saidOf?`),
packed. So the level that is read back is the one said, modulo 4096
(`comesBack_fold_of_said`). Levels start at 1024. So lines of code in
Haskell keep their order up to 3071 columns, and lines of R between 1024
closed and 3071 open braces (`stored_levels`), and from there on they do
not (`deep_lines_read_back_shallow`).
-/
import Restyle.Proofs.Lexer.Levels
import Restyle.Proofs.Text.Decoding

namespace Restyle

/-! ## 1. What is said of a line -/

/-- What a list of levels says last of a line. -/
def saidOf? (levels : List (Nat × FoldLevel)) (line : Nat) : Option FoldLevel :=
  levels.reverse.lookup line

theorem levelOf?_eq (levels : List (Nat × FoldLevel)) (line : Nat) :
    levelOf? levels line = (saidOf? levels line).map FoldLevel.pack := by
  induction levels with
  | nil => rfl
  | cons e levels ih =>
    obtain ⟨line', said⟩ := e
    rw [levelOf?, ih, saidOf?, saidOf?, List.reverse_cons, List.lookup_append]
    cases levels.reverse.lookup line with
    | some later => rfl
    | none =>
      by_cases heq : line' = line
      · simp [heq]
      · have hne : (line == line') = false := beq_false_of_ne (Ne.symm heq)
        simp [heq, List.lookup_cons, hne]

namespace Lexer

open Haskell.Folding (HoldsCode LaterImport)

variable {l : Lexer} {b : Buffer} {line : Nat}

/-- What a call says of lines, in its order. -/
def said (l : Lexer) (b : Buffer) (start length : Nat) : List (Nat × FoldLevel) :=
  match l with
  | haskell g firstImport => (Haskell.Folding.levels g.options b firstImport start length).1
  | r g => R.Folding.levels g.options b start length

theorem fold_snd (l : Lexer) (b : Buffer) (start length : Nat) :
    (l.fold b start length).2 = b.setLevels (l.said b start length) := by
  cases l <;> rfl

/-- What a call says last of a line comes back from the buffer. -/
theorem comesBack_fold_of_said (hb : b.WellFormed) (hline : line < b.text.lineCount)
    {start length : Nat} {computed : FoldLevel}
    (hsaid : saidOf? (l.said b start length) line = some computed) :
    ComesBack computed ((l.fold b start length).2.level line) := by
  have hlevel : levelOf? (l.said b start length) line = some computed.pack := by
    rw [levelOf?_eq, hsaid, Option.map_some]
  rw [fold_snd, Buffer.level_setLevels_of_some b (by rw [hb.levels_size]; exact hline) hlevel]
  exact comesBack_pack computed

/-- A call on the whole text says what its levels are. -/
theorem said_whole (hon : l.folds = true) : l.said b 0 b.size = l.wholeLevels b := by
  cases l with
  | haskell g f =>
    show (Haskell.Folding.levels g.options b f 0 b.size).1 = _
    rw [(Haskell.Folding.folded_zero g.options b f).levels_eq hon, b.text.lineOf_zero, Buffer.size,
      Haskell.Folding.lastOf_size]
    rfl
  | r g => rfl

/-- It says something of every line. -/
theorem exists_saidOf? (hon : l.folds = true) (hb : b.WellFormed)
    (hline : line < b.text.lineCount) :
    ∃ computed, saidOf? (l.said b 0 b.size) line = some computed := by
  have hholds := holds_fold hon hb line hline
  rw [← said_whole hon, levelOf?_eq, Option.map_eq_some_iff] at hholds
  obtain ⟨computed, hsaid, -⟩ := hholds
  exact ⟨computed, hsaid⟩

/-- The level that is read back of a line once the whole text is folded. -/
def readLevel (l : Lexer) (b : Buffer) (line : Nat) : Int :=
  (FoldLevel.unpack ((l.fold b 0 b.size).2.level line)).level

/-- A line of R has the level of the braces it is nested in, up to what a packed level holds. -/
theorem readLevel_of_nestedIn (g : R.Settings) (hb : b.WellFormed)
    (hline : line < b.text.lineCount) {n : Int}
    (hn : R.Folding.NestedIn g.options b (b.text.lineStart line) (b.text.lineStart (line + 1)) n) :
    readLevel (r g) b line = (FoldLevel.base + n) % 4096 := by
  have hcount := b.text.lineCount_eq_lastLine
  obtain ⟨computed, hlevel, hbalances⟩ :=
    R.Folding.exists_level g.options b (show line ≤ b.text.lastLine by omega)
  rw [← (hbalances.nestedIn_iff n).1 hn]
  exact (comesBack_fold_whole (l := r g) rfl hb hline hlevel).level

/-! ## 2. Deep lines -/

/-- A line of `n` bytes, styled as operators, and one that is indented by tabs. -/
def twoLines (x : UInt8) (n tabs : Nat) : Buffer :=
  (Buffer.ofText (.ofBytes (List.replicate n x ++ lf :: (List.replicate tabs 9 ++ [0x78])).toArray
    .utf8)).paint ⟨0, n, .operator⟩

section

variable {x : UInt8} (hlf : x ≠ lf) (hcr : x ≠ cr) (n tabs : Nat)

theorem bytes_twoLines (x : UInt8) :
    (twoLines x n tabs).text.bytes.toList
      = List.replicate n x ++ lf :: (List.replicate tabs 9 ++ [0x78]) := by
  rw [twoLines, Buffer.text_paint]
  rfl

theorem byteAt_twoLines (x : UInt8) {p : Nat} (hp : p < n) :
    (twoLines x n tabs).text.byteAt p = x.toNat := by
  rw [Text.byteAt, Array.getD_eq_getD_getElem?, ← Array.getElem?_toList, bytes_twoLines,
    List.getElem?_append_left (by simpa using hp), List.getElem?_replicate_of_lt hp,
    Option.getD_some]

theorem tokenAt_twoLines (x : UInt8) (p : Nat) :
    (twoLines x n tabs).tokenAt p = if p < n then .operator else .plain := by
  rcases Nat.lt_or_ge p (twoLines x n tabs).styles.size with hlt | hge
  · rw [twoLines, Buffer.styles_size_paint] at hlt
    rw [twoLines, Buffer.tokenAt_paint _ _ hlt, Buffer.tokenAt_ofText]
    simp [Span.contains]
  · have hsize : (twoLines x n tabs).styles.size = n + 1 + (tabs + 1) := by
      rw [twoLines, Buffer.styles_size_paint]
      simp [Buffer.ofText, Text.size, Text.ofBytes, Nat.add_assoc, Nat.add_comm 1]
    rw [Buffer.tokenAt_of_size_le hge, if_neg (by omega)]

include hlf hcr

theorem starts_twoLines : (twoLines x n tabs).text.starts = #[0, n + 1] := by
  have hfirst : Text.Unbroken (List.replicate n x) :=
    ⟨fun h => hlf (List.eq_of_mem_replicate h).symm, fun h => hcr (List.eq_of_mem_replicate h).symm⟩
  have hsecond : Text.Unbroken (List.replicate tabs 9 ++ [0x78]) := by
    constructor <;> simp [lf, cr, List.mem_replicate]
  have hlast := Text.lineBreaks_append hsecond [] (n + 1)
  rw [List.append_nil] at hlast
  rw [Text.starts_eq, bytes_twoLines, lineStarts, Text.lineBreaks_append hfirst, lineBreaks,
    if_pos (by rfl), List.length_replicate, Nat.zero_add, hlast]
  rfl

theorem lineCount_twoLines : (twoLines x n tabs).text.lineCount = 2 := by
  rw [Text.lineCount, starts_twoLines hlf hcr]
  rfl

theorem lineStart_twoLines : (twoLines x n tabs).text.lineStart 0 = 0
    ∧ (twoLines x n tabs).text.lineStart 1 = n + 1
    ∧ (twoLines x n tabs).text.lineStart 2 = n + 1 + (tabs + 1) := by
  have hsize : (twoLines x n tabs).text.size = n + 1 + (tabs + 1) := by
    rw [Text.size, ← Array.length_toList, bytes_twoLines]
    simp [Nat.add_assoc, Nat.add_comm 1]
  simp only [Text.lineStart, starts_twoLines hlf hcr, hsize]
  exact ⟨rfl, rfl, rfl⟩

theorem lineBytes_twoLines :
    (twoLines x n tabs).text.lineBytes 0 = List.replicate n x ++ [lf]
      ∧ (twoLines x n tabs).text.lineBytes 1 = List.replicate tabs 9 ++ [0x78] := by
  obtain ⟨hzero, hone, htwo⟩ := lineStart_twoLines hlf hcr n tabs
  have hbytes : (twoLines x n tabs).text.bytes.toList
      = (List.replicate n x ++ [lf]) ++ (List.replicate tabs 9 ++ [0x78]) := by
    rw [bytes_twoLines, List.append_cons]
  have hfirst : (twoLines x n tabs).text.lineBytes 0 = List.replicate n x ++ [lf] := by
    have hin := (twoLines x n tabs).text.bytesIn_add 0 (n + 1)
    rw [hbytes, List.drop_zero, List.take_left' (by simp), Nat.zero_add] at hin
    rw [Text.lineBytes, hzero, hone, hin]
  have hsecond : (twoLines x n tabs).text.lineBytes 1 = List.replicate tabs 9 ++ [0x78] := by
    have hin := (twoLines x n tabs).text.bytesIn_add (n + 1) (tabs + 1)
    rw [hbytes, List.drop_left' (by simp), List.take_of_length_le (by simp)] at hin
    rw [Text.lineBytes, hone, htwo, hin]
  exact ⟨hfirst, hsecond⟩

theorem holdsCode_twoLines (hblank : isBlankByte x = false) (hn : 0 < n) {line : Nat}
    (hline : line < 2) : HoldsCode (twoLines x n tabs) line := by
  obtain ⟨hfirst, hsecond⟩ := lineBytes_twoLines hlf hcr n tabs
  constructor
  · intro hwhite
    obtain rfl | rfl : line = 0 ∨ line = 1 := by omega
    · have hx := hwhite x (by simp [hfirst, hn.ne'])
      simp [hblank, hlf, hcr] at hx
    · have hx := hwhite 0x78 (by simp [hsecond])
      revert hx
      decide
  · rintro ⟨p, -, -, -, htoken⟩
    rw [tokenAt_twoLines] at htoken
    split at htoken <;> cases htoken

theorem columns_twoLines (hblank : isBlankByte x = false) (hn : 0 < n) :
    (twoLines x n tabs).text.columns 0 = 0 ∧ (twoLines x n tabs).text.columns 1 = 8 * tabs := by
  obtain ⟨hfirst, hsecond⟩ := lineBytes_twoLines hlf hcr n tabs
  constructor
  · obtain ⟨m, rfl⟩ := Nat.exists_eq_succ_of_ne_zero hn.ne'
    rw [Text.columns, hfirst, List.replicate_succ, List.cons_append, columnsFrom_cons, hblank,
      if_neg Bool.false_ne_true]
  · rw [Text.columns, hsecond]
    simpa using columnsFrom_tabs tabs 0 (show isBlankByte 0x78 = false by decide) []

end

/-- Behind an opening brace for each byte of the first line, or a closing one, the second line
starts with that balance. -/
theorem balance_twoLines (n tabs : Nat) :
    R.Folding.balance (twoLines 0x7B n tabs) (n + 1) = n
      ∧ R.Folding.balance (twoLines 0x7D n tabs) (n + 1) = -n := by
  have hend (x : UInt8) : R.Folding.opens (twoLines x n tabs) n = false
      ∧ R.Folding.closes (twoLines x n tabs) n = false := by
    simp [R.Folding.opens, R.Folding.closes, tokenAt_twoLines]
  constructor
  · have hopens : ∀ p < n, R.Folding.opens (twoLines 0x7B n tabs) p = true := fun p hp => by
      simp [R.Folding.opens, tokenAt_twoLines, byteAt_twoLines, hp]
    simp [R.Folding.balance_succ, R.Folding.balance_of_opens hopens, hend]
  · have hcloses : ∀ p < n, R.Folding.closes (twoLines 0x7D n tabs) p = true := fun p hp => by
      simp [R.Folding.closes, tokenAt_twoLines, byteAt_twoLines, hp]
    simp [R.Folding.balance_succ, R.Folding.balance_of_closes hcloses, hend]

theorem wellFormed_twoLines (x : UInt8) (n tabs : Nat) : (twoLines x n tabs).WellFormed :=
  (Buffer.wellFormed_ofText _).paint _

/-- The R folder has for the two lines what the braces give. -/
theorem readLevel_r_twoLines {x : UInt8} (hlf : x ≠ lf) (hcr : x ≠ cr) (n tabs : Nat) :
    readLevel (r {}) (twoLines x n tabs) 0 = 1024
      ∧ readLevel (r {}) (twoLines x n tabs) 1
        = (1024 + R.Folding.balance (twoLines x n tabs) (n + 1)) % 4096 := by
  have hcount := lineCount_twoLines hlf hcr n tabs
  obtain ⟨hzero, hone, -⟩ := lineStart_twoLines hlf hcr n tabs
  have hread {line : Nat} (hline : line < 2) :
      readLevel (r {}) (twoLines x n tabs) line = (FoldLevel.base + R.Folding.balance
        (twoLines x n tabs) ((twoLines x n tabs).text.lineStart line)) % 4096 := by
    apply readLevel_of_nestedIn {} (wellFormed_twoLines x n tabs) (by omega)
    rw [R.Folding.NestedIn, if_neg (by decide)]
  constructor
  · rw [hread (by decide), hzero, R.Folding.balance_zero]
    rfl
  · rw [hread (by decide), hone]
    rfl

/-! ## 3. Order -/

/-- The level that was computed comes back as it was exactly if it is a number from 0 to 4095. -/
structure ReadsBack (computed : FoldLevel) (packed : Int) : Prop extends
    ComesBack computed packed where
  level_eq_iff : (FoldLevel.unpack packed).level = computed.level
    ↔ 0 ≤ computed.level ∧ computed.level < 4096

/-- What a call says last of a line is read back from the buffer, as far as twelve bits hold it.
After the whole text is folded, of two lines of code in Haskell the one with more columns reads
back no smaller level, up to 3071 columns; of two lines in R the one that is nested in more braces
reads back a greater one, from 1024 closed to 3071 open braces. -/
theorem stored_levels (hb : b.WellFormed) :
    (∀ (l : Lexer) (start length : Nat), ∀ line < b.text.lineCount, ∀ computed,
        saidOf? (l.said b start length) line = some computed →
        ReadsBack computed ((l.fold b start length).2.level line))
      ∧ (∀ l : Lexer, l.folds = true → ∀ line < b.text.lineCount,
        ∃ computed, saidOf? (l.said b 0 b.size) line = some computed)
      ∧ (∀ (g : Haskell.Settings) (f : Option Nat), g.options.fold = true →
        ∀ i < b.text.lineCount, ∀ j < b.text.lineCount, HoldsCode b i → HoldsCode b j →
          b.text.columns i < b.text.columns j → b.text.columns j ≤ 3071 →
          readLevel (haskell g f) b i ≤ readLevel (haskell g f) b j)
      ∧ ∀ g : R.Settings,
        let Nested line := R.Folding.NestedIn g.options b (b.text.lineStart line)
          (b.text.lineStart (line + 1))
        (∀ line < b.text.lineCount, ∃ n, Nested line n)
          ∧ ∀ i < b.text.lineCount, ∀ j < b.text.lineCount, ∀ m n, Nested i m → Nested j n →
            m < n → -1024 ≤ m → n ≤ 3071 → readLevel (r g) b i < readLevel (r g) b j := by
  have hbase : FoldLevel.base = 1024 := rfl
  have hcount := b.text.lineCount_eq_lastLine
  refine ⟨fun l start length line hline computed hsaid => ?_,
    fun l hon line hline => exists_saidOf? hon hb hline,
    fun g f ho i hi j hj hcode hcode' hdeeper hfits => ?_,
    fun g => ⟨fun line hline => R.Folding.exists_nestedIn g.options b (by omega),
      fun i hi j hj m n hm hn hdeeper hlow hhigh => ?_⟩⟩
  · have hback := comesBack_fold_of_said hb hline hsaid
    have hlevel := hback.level
    exact ⟨hback, by omega⟩
  · -- an import that counts as a later one is not indented, so the deeper line is none
    have hnone : ¬ LaterImport g.options b j := fun himport => by
      have hcolumns := Haskell.Folding.columns_of_isImport himport.1
      omega
    rw [readLevel, readLevel, level_fold_of_holdsCode hb ho hi hcode,
      level_fold_of_holdsCode hb ho hj hcode', if_neg hnone]
    split <;> omega
  · rw [readLevel_of_nestedIn g hb hi hm, readLevel_of_nestedIn g hb hj hn]
    omega

/-- Two lines of R, the second indented and in a brace, that both folders fold. -/
theorem stored_levels_of_brace :
    let b := (r {}).lex (.ofText (.ofBytes #[0x7B, 0x0A, 0x20, 0x78, 0x0A, 0x7D] .utf8)) 0 6 .plain
    let g : Haskell.Settings := { options := { fold := true } }
    (1 < b.text.lineCount ∧ saidOf? ((haskell g none).said b 2 3) 1 = some (.plain 1025)
        ∧ ReadsBack (.plain 1025) (((haskell g none).fold b 2 3).2.level 1))
      ∧ (g.options.fold = true ∧ ∃ computed, saidOf? ((haskell g none).said b 0 b.size) 1
        = some computed)
      ∧ (HoldsCode b 0 ∧ HoldsCode b 1 ∧ b.text.columns 0 < b.text.columns 1
        ∧ b.text.columns 1 ≤ 3071 ∧ readLevel (haskell g none) b 0 ≤ readLevel (haskell g none) b 1)
      ∧ R.Folding.NestedIn {} b (b.text.lineStart 0) (b.text.lineStart 1) 0
        ∧ R.Folding.NestedIn {} b (b.text.lineStart 1) (b.text.lineStart 2) 1
        ∧ readLevel (r {}) b 0 < readLevel (r {}) b 1 := by
  intro b g
  have hb : b.WellFormed := (r {}).wellFormed_lex (Buffer.wellFormed_ofText _) 0 6 .plain
  have hall : (0 < b.text.lineCount ∧ 1 < b.text.lineCount)
      ∧ saidOf? ((haskell g none).said b 2 3) 1 = some (.plain 1025)
      ∧ (HoldsCode b 0 ∧ HoldsCode b 1) ∧ (b.text.columns 0 < b.text.columns 1
        ∧ b.text.columns 1 ≤ 3071)
      ∧ 0 = R.Folding.balance b (b.text.lineStart 0)
      ∧ 1 = R.Folding.balance b (b.text.lineStart 1) := by
    decide +kernel
  obtain ⟨hline, hsaid, hcode, hcolumns, hzero, hone⟩ := hall
  have hnested : R.Folding.NestedIn {} b (b.text.lineStart 0) (b.text.lineStart 1) 0
      ∧ R.Folding.NestedIn {} b (b.text.lineStart 1) (b.text.lineStart 2) 1 := by
    rw [R.Folding.NestedIn, R.Folding.NestedIn, if_neg (by decide), if_neg (by decide)]
    exact ⟨hzero, hone⟩
  obtain ⟨hcalls, hwhole, hhaskell, hr⟩ := stored_levels hb
  exact ⟨⟨hline.2, hsaid, hcalls (haskell g none) 2 3 1 hline.2 _ hsaid⟩,
    ⟨rfl, hwhole (haskell g none) rfl 1 hline.2⟩,
    ⟨hcode.1, hcode.2, hcolumns.1, hcolumns.2,
      hhaskell g none rfl 0 hline.1 1 hline.2 hcode.1 hcode.2 hcolumns.1 hcolumns.2⟩,
    hnested.1, hnested.2,
    (hr {}).2 0 hline.1 1 hline.2 0 1 hnested.1 hnested.2 (by decide) (by decide) (by decide)⟩

/-- A line indented by 384 tabs in 3072 braces reads back a smaller level than the one before, in
both languages, and in R so does a line in no braces than one behind 1025 closing ones. With
folding at `else` so does a line that starts in two braces and closes them than one that starts
in one. Behind a line that ends on level 4096 that level is said of the next, and 0 is read back. -/
theorem deep_lines_read_back_shallow :
    let g : Haskell.Settings := { options := { fold := true } }
    let o : R.Settings := { options := { foldAtElse := true } }
    let b := twoLines 0x7B 3072 384
    let b' := twoLines 0x7D 1025 0
    let lexed := (r o).lex (.ofText (.ofBytes #[0x7B, 0x0A, 0x7B, 0x0A, 0x7D, 0x7D, 0x20, 0x7B]
      .utf8)) 0 8 .plain
    let ended := { Buffer.ofText (.ofBytes #[0x78, 0x0A, 0x78] .utf8) with
      levels := #[4096 * 65536, 0] }
    (HoldsCode b 0 ∧ HoldsCode b 1 ∧ b.text.columns 0 < b.text.columns 1
        ∧ readLevel (haskell g none) b 1 < readLevel (haskell g none) b 0)
      ∧ (R.Folding.balance b (b.text.lineStart 0) < R.Folding.balance b (b.text.lineStart 1)
        ∧ readLevel (r {}) b 1 < readLevel (r {}) b 0)
      ∧ (R.Folding.balance b' (b'.text.lineStart 1) < R.Folding.balance b' (b'.text.lineStart 0)
        ∧ readLevel (r {}) b' 0 < readLevel (r {}) b' 1)
      ∧ (R.Folding.balance lexed (lexed.text.lineStart 1)
          < R.Folding.balance lexed (lexed.text.lineStart 2)
        ∧ readLevel (r o) lexed 2 < readLevel (r o) lexed 1)
      ∧ saidOf? ((r {}).said ended 2 1) 1 = some ⟨4096, 4096, false, false⟩
        ∧ (FoldLevel.unpack (((r {}).fold ended 2 1).2.level 1)).level = 0 := by
  intro g o b b' lexed ended
  have hb : b.WellFormed := wellFormed_twoLines 0x7B 3072 384
  have hcount : b.text.lineCount = 2 := lineCount_twoLines (by decide) (by decide) 3072 384
  have hcode {line : Nat} (hline : line < 2) : HoldsCode b line :=
    holdsCode_twoLines (by decide) (by decide) 3072 384 (by decide) (by decide) hline
  obtain ⟨hcolumns, hcolumns'⟩ : b.text.columns 0 = 0 ∧ b.text.columns 1 = 8 * 384 :=
    columns_twoLines (by decide) (by decide) 3072 384 (by decide) (by decide)
  refine ⟨⟨hcode (by decide), hcode (by decide), by omega, ?_⟩, ?_, ?_, by decide +kernel,
    by decide +kernel⟩
  · rw [readLevel, readLevel, level_fold_of_holdsCode hb rfl (by omega) (hcode (by decide)),
      level_fold_of_holdsCode hb rfl (by omega) (hcode (by decide)), hcolumns, hcolumns']
    have hbase : FoldLevel.base = 1024 := rfl
    split <;> split <;> omega
  · obtain ⟨hstart, hstart', -⟩ :=
      lineStart_twoLines (x := 0x7B) (by decide) (by decide) 3072 384
    obtain ⟨hread, hread'⟩ := readLevel_r_twoLines (x := 0x7B) (by decide) (by decide) 3072 384
    rw [hread, hread', hstart, hstart', (balance_twoLines 3072 384).1, R.Folding.balance_zero]
    decide
  · obtain ⟨hstart, hstart', -⟩ := lineStart_twoLines (x := 0x7D) (by decide) (by decide) 1025 0
    obtain ⟨hread, hread'⟩ := readLevel_r_twoLines (x := 0x7D) (by decide) (by decide) 1025 0
    rw [hread, hread', hstart, hstart', (balance_twoLines 1025 0).2, R.Folding.balance_zero]
    decide

end Lexer

end Restyle
