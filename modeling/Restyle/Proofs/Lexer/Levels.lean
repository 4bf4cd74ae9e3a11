/-
Restyle.Proofs.Lexer.Levels — the fold levels that a buffer has after its
whole text is folded.

They are read back from their packed form. In Haskell that keeps levels of
up to 3071 columns. Then the levels of neighbouring lines fit: a line that
opens a fold comes before a deeper one, and a line before a deeper one
opens a fold or is white (`haskell_levels`). Without import folding a line
of code opens a fold if the next one is deeper, and so it does if none
follows but the last line of the text is indented deeper, a comment too
(`haskell_headers`). With import folding a run of imports is one fold,
headed by its first line, unless an import stands somewhere before it
(`haskell_import_levels`, `imports_behind_code`).

In R it keeps up to 3071 open braces, and 1024 closed ones. Then the level
of a line is the balance of its braces (`r_levels`).
-/
import Restyle.Proofs.Haskell.Imports
import Restyle.Proofs.Lexer.Folding
import Restyle.Proofs.R.Braces

namespace Restyle

open Haskell.Folding (HoldsCode LaterImport DeeperCodeFollows DeeperLastLineFollows InRange
  StartsWithImport FollowsImport Astray ImportRun)

namespace Lexer

variable {b : Buffer} {line : Nat}

/-- A level comes back from a packed form, but for the high bits of its number. -/
structure ComesBack (said : FoldLevel) (packed : Int) : Prop where
  level : (FoldLevel.unpack packed).level = said.level % 4096
  header : (FoldLevel.unpack packed).header = said.header

theorem comesBack_pack (said : FoldLevel) : ComesBack said said.pack := by
  obtain ⟨hlevel, -, hheader⟩ := said.unpack_pack_mod
  exact ⟨hlevel, hheader⟩

/-- What the folder says of a line comes back from the buffer. -/
theorem comesBack_fold_whole {l : Lexer} (hon : l.folds = true) (hb : b.WellFormed)
    (hline : line < b.text.lineCount) {said : FoldLevel}
    (hsaid : levelOf? (l.wholeLevels b) line = some said.pack) :
    ComesBack said ((l.fold b 0 b.size).2.level line) := by
  have hpack : (l.fold b 0 b.size).2.level line = said.pack :=
    Option.some.inj ((holds_fold hon hb line hline).symm.trans hsaid)
  rw [hpack]
  exact comesBack_pack said

section

variable {g : Haskell.Settings} {f : Option Nat}

theorem unpack_level_fold_mod (hb : b.WellFormed) (ho : g.options.fold = true)
    (hline : line < b.text.lineCount) {l : FoldLevel}
    (hl : levelOf? (Haskell.Folding.whole g.options b) line = some l.pack) :
    (FoldLevel.unpack (((haskell g f).fold b 0 b.size).2.level line)).level = l.level % 4096
      ∧ (FoldLevel.unpack (((haskell g f).fold b 0 b.size).2.level line)).header = l.header :=
  have hback := comesBack_fold_whole (l := haskell g f) ho hb hline hl
  ⟨hback.level, hback.header⟩

/-- What the folder says of a line is read back from the buffer. -/
theorem unpack_level_fold (hb : b.WellFormed) (ho : g.options.fold = true)
    (hline : line < b.text.lineCount) {l : FoldLevel}
    (hl : levelOf? (Haskell.Folding.whole g.options b) line = some l.pack) (hin : InRange l) :
    (FoldLevel.unpack (((haskell g f).fold b 0 b.size).2.level line)).level = l.level
      ∧ (FoldLevel.unpack (((haskell g f).fold b 0 b.size).2.level line)).header = l.header := by
  obtain ⟨hlevel, hheader⟩ := unpack_level_fold_mod (f := f) hb ho hline hl
  obtain ⟨hlow, hhigh⟩ := hin
  have hbase : FoldLevel.base = 1024 := rfl
  refine ⟨?_, hheader⟩
  rw [hlevel, Int.emod_eq_of_lt (by omega) (by omega)]

/-- A line of code has the level of its columns, one more on a later import, up to what a packed
level holds. -/
theorem level_fold_of_holdsCode (hb : b.WellFormed) (ho : g.options.fold = true)
    (hline : line < b.text.lineCount) (hcode : HoldsCode b line) :
    (FoldLevel.unpack (((haskell g f).fold b 0 b.size).2.level line)).level
      = (FoldLevel.base + b.text.columns line
        + if LaterImport g.options b line then 1 else 0) % 4096 := by
  have hcount := b.text.lineCount_eq_lastLine
  have hle : line ≤ b.text.lastLine := by omega
  have hown := Haskell.Folding.levelOf?_own_of_holdsCode (o := g.options) hcode hle
  rw [(unpack_level_fold_mod hb ho hline hown).1,
    ← Haskell.Folding.level_stateAt_of_holdsCode hcode hle]
  rfl

/-- The levels that a text is given do not depend on those it had. -/
theorem levels_fold_congr {l : Lexer} (hon : l.folds = true) (hb : b.WellFormed)
    {table : Array Int} (ht : table.size = b.text.lineCount) :
    (l.fold { b with levels := table } 0 b.size).2.levels = (l.fold b 0 b.size).2.levels := by
  have hb' : Buffer.WellFormed { b with levels := table } := { hb with levels_size := ht }
  have hwhole : l.wholeLevels { b with levels := table } = l.wholeLevels b :=
    wholeLevels_congr rfl fun _ => rfl
  have hholds' := holds_fold (l := l) hon hb'
  rw [hwhole] at hholds'
  apply levels_eq_of_holds (l.wellFormed_fold hb 0 b.size) (l.wellFormed_fold hb' 0 b.size)
  · exact (l.text_fold ..).trans (l.text_fold b 0 b.size).symm
  · rw [text_fold]
    exact holds_fold hon hb
  · rw [text_fold]
    exact hholds'

end

/-- The levels do not depend on those before. A line of code has the level of its columns, one
more on a later import. A line that opens a fold comes before a deeper one, and a line before
a deeper one opens a fold or is white. -/
theorem haskell_levels (g : Haskell.Settings) (f : Option Nat) (hb : b.WellFormed)
    (ho : g.options.fold = true) (hcol : ∀ line < b.text.lineCount, b.text.columns line < 3071)
    {table : Array Int} (ht : table.size = b.text.lineCount) :
    let folded := ((haskell g f).fold b 0 b.size).2
    let level line := FoldLevel.unpack (folded.level line)
    ((haskell g f).fold { b with levels := table } 0 b.size).2.levels = folded.levels
      ∧ (∀ line < b.text.lineCount, HoldsCode b line →
        (level line).level = FoldLevel.base + b.text.columns line
          + if LaterImport g.options b line then 1 else 0)
      ∧ (∀ line < b.text.lineCount, (level line).header = true →
        line + 1 < b.text.lineCount ∧ (level line).level < (level (line + 1)).level)
      ∧ (∀ line, line + 1 < b.text.lineCount → (level line).level < (level (line + 1)).level →
        (level line).header = true ∨ b.text.IsWhite line) := by
  have hcount := b.text.lineCount_eq_lastLine
  have hcol' : ∀ line ≤ b.text.lastLine, b.text.columns line < 3071 :=
    fun line hle => hcol line (by omega)
  intro folded level
  have hread {line : Nat} (hline : line < b.text.lineCount) {l : FoldLevel}
      (hl : levelOf? (Haskell.Folding.whole g.options b) line = some l.pack) (hin : InRange l) :
      (level line).level = l.level ∧ (level line).header = l.header :=
    unpack_level_fold hb ho hline hl hin
  refine ⟨levels_fold_congr (l := haskell g f) ho hb ht, fun line hline hcode => ?_,
    fun line hline hheader => ?_, fun line hline hdeeper => ?_⟩
  · obtain ⟨l, hl, hin, hlevel⟩ :=
      Haskell.Folding.exists_level_of_holdsCode (o := g.options) hcol' hcode (by omega)
    rw [(hread hline hl hin).1, hlevel]
  · rcases Nat.lt_or_eq_of_le (show line ≤ b.text.lastLine by omega) with hlt | rfl
    · obtain ⟨l, l', hl, hin, hl', hin', hopens, -⟩ :=
        Haskell.Folding.exists_levels (o := g.options) hcol' hlt
      obtain ⟨hlevel, hmark⟩ := hread hline hl hin
      rw [hmark] at hheader
      rw [hlevel, (hread (by omega) hl' hin').1]
      exact ⟨by omega, hopens hheader⟩
    · obtain ⟨l, hl, hin, hno⟩ := Haskell.Folding.exists_level_lastLine (o := g.options) hcol'
      rw [(hread hline hl hin).2, hno] at hheader
      cases hheader
  · obtain ⟨l, l', hl, hin, hl', hin', -, hopens⟩ :=
      Haskell.Folding.exists_levels (o := g.options) hcol' (show line < b.text.lastLine by omega)
    obtain ⟨hlevel, hmark⟩ := hread (by omega) hl hin
    rw [hlevel, (hread hline hl' hin').1] at hdeeper
    rw [hmark]
    exact hopens hdeeper

/-- Two imports, a comment in between that is indented, and old levels. -/
theorem haskell_levels_of_imports :
    let b := (Buffer.ofText (.ofBytes #[0x69, 0x6D, 0x70, 0x6F, 0x72, 0x74, 0x0A, 0x20, 0x2D,
      0x2D, 0x0A, 0x69, 0x6D, 0x70, 0x6F, 0x72, 0x74, 0x0A] .utf8)).paint ⟨8, 10, .lineComment⟩
    let g : Haskell.Settings := { options := { fold := true, foldImports := true } }
    let table := #[5, 6, 7, 8]
    let folded := ((haskell g none).fold b 0 b.size).2
    let level line := FoldLevel.unpack (folded.level line)
    g.options.fold = true ∧ (∀ line < b.text.lineCount, b.text.columns line < 3071)
      ∧ table.size = b.text.lineCount
      ∧ ((haskell g none).fold { b with levels := table } 0 b.size).2.levels = folded.levels
      ∧ (∀ line < b.text.lineCount, HoldsCode b line →
        (level line).level = FoldLevel.base + b.text.columns line
          + if LaterImport g.options b line then 1 else 0)
      ∧ (∀ line < b.text.lineCount, (level line).header = true →
        line + 1 < b.text.lineCount ∧ (level line).level < (level (line + 1)).level)
      ∧ (∀ line, line + 1 < b.text.lineCount → (level line).level < (level (line + 1)).level →
        (level line).header = true ∨ b.text.IsWhite line) :=
  ⟨by decide, by decide +kernel, by decide +kernel,
    haskell_levels _ none ((Buffer.wellFormed_ofText _).paint _) (by decide) (by decide +kernel)
      (by decide +kernel)⟩

/-- A line of code opens a fold if the next line of code is deeper, or if none follows and the
last line of the text is deeper. A text that ends with a line end has an empty last line, so
only code counts there. -/
theorem haskell_headers (g : Haskell.Settings) (f : Option Nat) (hb : b.WellFormed)
    (ho : g.options.fold = true) (hoff : g.options.foldImports = false)
    (hcol : ∀ line < b.text.lineCount, b.text.columns line < 3071)
    (hline : line < b.text.lineCount) (hcode : HoldsCode b line) :
    let folded := ((haskell g f).fold b 0 b.size).2
    let level := FoldLevel.unpack (folded.level line)
    (level.header = true ↔ DeeperCodeFollows b line ∨ DeeperLastLineFollows b line)
      ∧ (b.text.lineStart b.text.lastLine = b.size →
        (level.header = true ↔ DeeperCodeFollows b line)) := by
  have hcount := b.text.lineCount_eq_lastLine
  have hcol' : ∀ line ≤ b.text.lastLine, b.text.columns line < 3071 :=
    fun line hle => hcol line (by omega)
  intro folded level
  obtain ⟨l, hl, hin, hheader⟩ :=
    Haskell.Folding.exists_header_iff (o := g.options) hcol' hoff hcode (by omega)
  have hmark : level.header = l.header := (unpack_level_fold hb ho hline hl hin).2
  rw [hmark, hheader]
  refine ⟨Iff.rfl, fun hnewline => ?_⟩
  rw [or_iff_left (Haskell.Folding.not_deeperLastLineFollows_of_newline hnewline)]

/-- The text `f`, a comment and deeper code. -/
theorem haskell_headers_of_comment_between :
    let b := (haskell {} none).lex (.ofText (.ofBytes #[0x66, 0x0A, 0x2D, 0x2D, 0x0A, 0x20, 0x78,
      0x0A] .utf8)) 0 8 .plain
    let g : Haskell.Settings := { options := { fold := true } }
    let folded := ((haskell g none).fold b 0 b.size).2
    let level := FoldLevel.unpack (folded.level 0)
    g.options.fold = true ∧ g.options.foldImports = false
      ∧ (∀ line < b.text.lineCount, b.text.columns line < 3071)
      ∧ 0 < b.text.lineCount ∧ HoldsCode b 0
      ∧ (level.header = true ↔ DeeperCodeFollows b 0 ∨ DeeperLastLineFollows b 0)
      ∧ (b.text.lineStart b.text.lastLine = b.size →
        (level.header = true ↔ DeeperCodeFollows b 0)) :=
  ⟨by decide, by decide, by decide +kernel, by decide +kernel, by decide +kernel,
    haskell_headers _ none ((Buffer.wellFormed_ofText _).restyle _) (by decide) (by decide)
      (by decide +kernel) (by decide +kernel) (by decide +kernel)⟩

/-- Behind `f` stands nothing but a comment, on a last line without terminator; still `f` opens
a fold. -/
theorem header_before_last_comment :
    let g : Haskell.Settings := { options := { fold := true } }
    let b := (haskell g none).lex (.ofText (.ofBytes #[0x66, 0x0A, 0x20, 0x20, 0x2D, 0x2D, 0x20,
      0x63] .utf8)) 0 8 .plain
    let folded := ((haskell g none).fold b 0 b.size).2
    (∀ line < b.text.lineCount, b.text.columns line < 3071) ∧ HoldsCode b 0
      ∧ (FoldLevel.unpack (folded.level 0)).header = true ∧ ¬ DeeperCodeFollows b 0
      ∧ ∀ n < b.text.lineCount, 0 < n → ¬ HoldsCode b n := by
  have hnone : ∀ n < 2, 0 < n → ¬ HoldsCode ((haskell { options := { fold := true } } none).lex
      (.ofText (.ofBytes #[0x66, 0x0A, 0x20, 0x20, 0x2D, 0x2D, 0x20, 0x63] .utf8)) 0 8
        .plain) n := by
    decide +kernel
  exact ⟨by decide +kernel, by decide +kernel, by decide +kernel,
    fun ⟨n, hn, hpos, hcode, _⟩ => hnone n hn hpos hcode, hnone⟩

/-- A line of code has the level of its columns, one more if it follows an import or goes
astray. In a run of imports all lines but the first are one level down, and only the first
opens a fold before the last, unless it goes astray. -/
theorem haskell_import_levels (g : Haskell.Settings) (f : Option Nat) (hb : b.WellFormed)
    (ho : g.options.fold = true) (hon : g.options.foldImports = true) :
    let lexed := (haskell g f).lex b.clearLog 0 b.size .plain
    let folded := ((haskell g f).fold lexed 0 b.size).2
    let level line := FoldLevel.unpack (folded.level line)
    (∀ line < b.text.lineCount, HoldsCode lexed line →
        (¬ Astray g.options lexed line →
          (level line).level = (FoldLevel.base + b.text.columns line
            + if FollowsImport lexed line then 1 else 0) % 4096)
        ∧ (Astray g.options lexed line →
          (level line).level = (FoldLevel.base + b.text.columns line + 1) % 4096))
      ∧ ∀ first last, ImportRun lexed first last → last < b.text.lineCount →
        ((level first).header = true ↔ ¬ Astray g.options lexed first)
          ∧ ∀ line, first < line → line ≤ last → (level line).level = FoldLevel.base + 1
            ∧ (line < last → (level line).header = false) := by
  intro lexed folded level
  have hlexed : lexed.WellFormed := (haskell g f).wellFormed_lex hb.clearLog 0 b.size .plain
  have htext : lexed.text = b.text := (haskell g f).text_lex b.clearLog 0 b.size .plain
  have hsize : lexed.size = b.size := congrArg Text.size htext
  constructor
  · intro line hline hcode
    have hlevel := level_fold_of_holdsCode (f := f) hlexed ho (by rwa [htext]) hcode
    rw [hsize, htext] at hlevel
    simp only [Haskell.Folding.laterImport_iff_of_foldImports hon] at hlevel
    refine ⟨fun hno => ?_, fun hastray => ?_⟩
    · simpa only [hno, or_false] using hlevel
    · simpa only [hastray, or_true, if_true] using hlevel
  · intro first last hrun hlast
    have hlt := hrun.lt
    have hcount := lexed.text.lineCount_eq_lastLine
    rw [← htext] at hlast
    have hle : last ≤ lexed.text.lastLine := by omega
    have hread {line : Nat} (hline : line ≤ last) {l : FoldLevel}
        (hl : levelOf? (Haskell.Folding.whole g.options lexed) line = some l.pack) :
        (level line).level = l.level % 4096 ∧ (level line).header = l.header := by
      have h := unpack_level_fold_mod (f := f) hlexed ho (Nat.lt_of_le_of_lt hline hlast) hl
      rwa [hsize] at h
    constructor
    · obtain ⟨l, hl, hheader⟩ := hrun.exists_level_first hon hle
      rw [(hread (Nat.le_of_lt hlt) hl).2, hheader]
    · intro line hgt hline
      obtain ⟨l, hl, hlevel, hno⟩ := hrun.exists_level hon hle hgt hline
      obtain ⟨hpacked, hmark⟩ := hread hline hl
      rw [hpacked, hmark, hlevel]
      exact ⟨by decide, hno⟩

/-- A module, two imports with a comment between them, and code. -/
theorem haskell_import_levels_of_module :
    let b := Buffer.ofText (.ofBytes #[0x6D, 0x0A, 0x69, 0x6D, 0x70, 0x6F, 0x72, 0x74, 0x20, 0x41,
      0x0A, 0x2D, 0x2D, 0x0A, 0x69, 0x6D, 0x70, 0x6F, 0x72, 0x74, 0x20, 0x42, 0x0A, 0x66] .utf8)
    let g : Haskell.Settings := { options := { fold := true, foldImports := true } }
    let lexed := (haskell g none).lex b.clearLog 0 b.size .plain
    let folded := ((haskell g none).fold lexed 0 b.size).2
    let level line := FoldLevel.unpack (folded.level line)
    g.options.fold = true ∧ g.options.foldImports = true ∧ ImportRun lexed 1 3
      ∧ ¬ Astray g.options lexed 1
      ∧ (∀ line < b.text.lineCount, HoldsCode lexed line →
        (¬ Astray g.options lexed line →
          (level line).level = (FoldLevel.base + b.text.columns line
            + if FollowsImport lexed line then 1 else 0) % 4096)
        ∧ (Astray g.options lexed line →
          (level line).level = (FoldLevel.base + b.text.columns line + 1) % 4096))
      ∧ ((level 1).header = true ↔ ¬ Astray g.options lexed 1)
      ∧ ∀ line, 1 < line → line ≤ 3 → (level line).level = FoldLevel.base + 1
        ∧ (line < 3 → (level line).header = false) := by
  intro b g lexed folded level
  have hall : HoldsCode lexed 1 ∧ HoldsCode lexed 3
      ∧ (∀ j ≤ 3, 1 ≤ j → HoldsCode lexed j → StartsWithImport lexed j)
      ∧ ¬ FollowsImport lexed 1 ∧ ¬ Astray g.options lexed 1 ∧ 3 < b.text.lineCount := by
    decide +kernel
  obtain ⟨hcode, hcode', himports, hfollows, hastray, hlast⟩ := hall
  have hrun : ImportRun lexed 1 3 := ⟨by decide, hcode, hcode', himports, hfollows⟩
  obtain ⟨hlevels, hruns⟩ :=
    haskell_import_levels g none (Buffer.wellFormed_ofText _) (by decide) (by decide)
  exact ⟨by decide, by decide, hrun, hastray, hlevels, hruns 1 3 hrun hlast⟩

/-- Behind `import A` and `x` the run of `import B` and `import C` has no header of its own:
it stands one level down as a whole, and `x` opens the fold. -/
theorem imports_behind_code :
    let b := Buffer.ofText (.ofBytes #[0x69, 0x6D, 0x70, 0x6F, 0x72, 0x74, 0x20, 0x41, 0x0A, 0x78,
      0x0A, 0x69, 0x6D, 0x70, 0x6F, 0x72, 0x74, 0x20, 0x42, 0x0A, 0x69, 0x6D, 0x70, 0x6F, 0x72,
      0x74, 0x20, 0x43, 0x0A] .utf8)
    let g : Haskell.Settings := { options := { fold := true, foldImports := true } }
    let lexed := (haskell g none).lex b.clearLog 0 b.size .plain
    let folded := ((haskell g none).fold lexed 0 b.size).2
    let level line := FoldLevel.unpack (folded.level line)
    HoldsCode lexed 2 ∧ b.text.columns 2 = 0 ∧ ¬ FollowsImport lexed 2
      ∧ (level 2).level = FoldLevel.base + 1
      ∧ ImportRun lexed 2 3 ∧ (level 2).header = false
      ∧ ¬ StartsWithImport lexed 1 ∧ (level 1).header = true := by
  intro b g lexed folded level
  -- one evaluation for all, so that the text is lexed once
  have hall : (HoldsCode lexed 2 ∧ b.text.columns 2 = 0 ∧ ¬ FollowsImport lexed 2
        ∧ (level 2).level = FoldLevel.base + 1)
      ∧ (HoldsCode lexed 3 ∧ ∀ j ≤ 3, 2 ≤ j → HoldsCode lexed j → StartsWithImport lexed j)
      ∧ (level 2).header = false ∧ ¬ StartsWithImport lexed 1 ∧ (level 1).header = true := by
    decide +kernel
  obtain ⟨⟨hcode, hcolumns, hfollows, hlevel⟩, ⟨hcode', himports⟩, hheader⟩ := hall
  exact ⟨hcode, hcolumns, hfollows, hlevel,
    ⟨by decide, hcode, hcode', himports, hfollows⟩, hheader⟩

/-- A line of R starts on the balance of the braces before it and hands on the balance behind
it. It opens a fold if it is lower itself, at its start or, with folding at `else`, where it is
lowest before a brace that opens. -/
theorem r_levels (g : R.Settings) (hb : b.WellFormed)
    (hbal : ∀ p ≤ b.size, -1024 ≤ R.Folding.balance b p ∧ R.Folding.balance b p ≤ 3071)
    (hline : line < b.text.lineCount) :
    R.Folding.Balances g.options b (b.text.lineStart line) (b.text.lineStart (line + 1))
      (FoldLevel.unpack (((r g).fold b 0 b.size).2.level line)) := by
  have hcount := b.text.lineCount_eq_lastLine
  have hbase : FoldLevel.base = 1024 := rfl
  obtain ⟨l, hl, hbalances⟩ :=
    R.Folding.exists_level g.options b (show line ≤ b.text.lastLine by omega)
  have hholds := holds_fold (l := r g) rfl hb line hline
  have hpack : ((r g).fold b 0 b.size).2.level line = l.pack :=
    Option.some.inj (hholds.symm.trans hl)
  have hstop := b.text.lineStart_le_size (line + 1)
  obtain ⟨hlow, hhigh⟩ := hbalances.level_bounds (b.text.lineStart_mono (Nat.le_succ line))
    fun p hp => hbal p (Nat.le_trans hp hstop)
  have hnext := hbalances.next
  have hend := hbal _ hstop
  rw [hpack, FoldLevel.unpack_pack hlow hhigh (by omega) (by omega)]
  exact hbalances

/-- A line that closes a brace and opens another, with folding at `else`. -/
theorem r_levels_of_else :
    let b := (Buffer.ofText (.ofBytes #[0x7B, 0x0D, 0x0A, 0x7D, 0x20, 0x7B, 0x0A, 0x7D, 0x7D]
      .eightBit)).paint ⟨0, 9, .operator⟩
    let g : R.Settings := { options := { foldAtElse := true } }
    (∀ p ≤ b.size, -1024 ≤ R.Folding.balance b p ∧ R.Folding.balance b p ≤ 3071)
      ∧ 1 < b.text.lineCount
      ∧ R.Folding.Balances g.options b (b.text.lineStart 1) (b.text.lineStart 2)
        (FoldLevel.unpack (((r g).fold b 0 b.size).2.level 1)) :=
  ⟨by decide +kernel, by decide +kernel,
    r_levels _ ((Buffer.wellFormed_ofText _).paint _) (by decide +kernel) (by decide +kernel)⟩

end Lexer

end Restyle
