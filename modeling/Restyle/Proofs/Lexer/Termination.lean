/-
Restyle.Proofs.Lexer.Termination — how long the lexers take for a range.

The range may be any part of the text, in any token, after a line that
saved any number. The Haskell lexer ends in all cases. The R lexer does
unless a number that it never saves itself, for a raw string that closes
with a space, meets spaces and dashes at the end of the range.
-/
import Restyle.Lexer
import Restyle.Proofs.Haskell.Termination
import Restyle.Proofs.R.Termination

namespace Restyle

namespace Lexer

variable (b : Buffer) (start length : Nat) (token : Token)

/-- Three rounds per position suffice, as one of any three moves on; and the loops inside a round
end. -/
theorem haskell_rounds_end (g : Haskell.Settings) (firstImport : Option Nat) :
    let m i := (Haskell.Machine.step g)^[i] (Haskell.Machine.start b.text start length token
      (Haskell.LineState.unpack (savedBefore b start)))
    (∃ n ≤ 3 * (length + 1), (∀ i < n, (m i).scan.more = true) ∧ (m n).scan.more = false
      ∧ (haskell g firstImport).lex b start length token = b.restyle (m n).scan.finish.styling)
    ∧ (∀ i, (m i).scan.more = true → ∃ j < 3, (m (i + j)).scan.pos < (m (i + j + 1)).scan.pos)
    ∧ ∀ s, (m 0).scan.Reach s →
      Exits (Haskell.Machine.passOver Haskell.isOperatorChar) s (s.skip Haskell.isOperatorChar)
      ∧ ∀ scanned, Exits (Haskell.Machine.nameStep g.options) (scanned, s)
          (Haskell.Machine.nameRest g.options (s.stop - s.pos) scanned s) := by
  intro m
  have hstart : (m 0).scan.Measured := Cursor.measured_start b.text start length
  refine ⟨?_, ?_, ?_⟩
  · obtain ⟨n, hn, heq, hbefore, hdone⟩ := (Haskell.sound g).last_eq_iterate (t := b.text)
      start length token (savedBefore b start)
    refine ⟨n, hn, hbefore, hdone, ?_⟩
    show b.restyle (Haskell.style g b.text start length token (savedBefore b start)) = _
    rw [Haskell.style_eq, Engine.style, heq]
    rfl
  · intro i hmore
    have hm : (m i).scan.Measured := ((Haskell.sound g).reach_iterate i (m 0)).measured hstart
    obtain ⟨j, hj, hlt⟩ := Haskell.Machine.exists_move g hm hmore
    refine ⟨j, hj, ?_⟩
    rw [← Function.iterate_add_apply, ← Function.iterate_add_apply] at hlt
    rwa [Nat.add_comm i j, Nat.add_right_comm]
  · intro s hs
    have hm := hs.measured hstart
    exact ⟨Haskell.Machine.exits_skip hm,
      fun scanned => Haskell.Machine.exits_nameRest g.options _ scanned hm (Nat.le_refl _)⟩

/-- Every round moves on, and all of them come to an end unless the range runs on. The states that
the machine gives behind a round that does not mean nothing. -/
theorem r_rounds_end (g : R.Settings) (h : start + length ≤ b.size) :
    let saved := R.LineState.unpack (savedBefore b start)
    let m i := (R.Machine.step g)^[i] (R.Machine.start b.text start length token saved)
    (∃ n ≤ length + 1,
      (∀ i < n, (m i).scan.more = true ∧ (m i).scan.pos < (m (i + 1)).scan.pos)
      ∧ (m n).scan.more = false
      ∧ (R.RunsOn b.text start (start + length) token saved ↔ ∃ i < n, ¬(m i).RoundEnds)
      ∧ (¬R.RunsOn b.text start (start + length) token saved →
          (r g).lex b start length token = b.restyle (m n).scan.finish.styling))
    ∧ (∀ count (s : Scanner b.text),
        Exits R.Machine.dashStep (count, s) (R.passDashes count s))
    ∧ ∀ pos, Exits (R.Machine.scanStep b.text) pos
        (pos + R.dashesFrom b.text (b.text.size - pos) pos) := by
  intro saved m
  refine ⟨?_, R.Machine.exits_passDashes, fun pos => R.Machine.exits_dashesFrom _ (by omega)⟩
  have hstart : (m 0).scan.Measured := Cursor.measured_start b.text start length
  obtain ⟨n, hn, heq, hbefore, hdone⟩ := (R.sound g).last_eq_iterate (t := b.text)
    start length token (savedBefore b start)
  refine ⟨n, hn, fun i hi => ⟨hbefore i hi, ?_⟩, hdone,
    R.Machine.runsOn_iff g h token saved hbefore hdone, fun _ => ?_⟩
  · have hadv := (m i).advances_step g
    have hnext : m (i + 1) = (m i).step g := Function.iterate_succ_apply' ..
    rw [hnext]
    exact hadv.pos_lt (R.Machine.measured_iterate g hstart i) (hbefore i hi)
  · show b.restyle (R.style g b.text start length token (savedBefore b start)) = _
    rw [R.style_eq, Engine.style, heq]
    rfl

/-- Two spaces after a line with the number 32, which says that a raw string closes with a space;
the range is the first of them. -/
theorem r_rounds_end_of_space :
    let b := (Buffer.ofText (.ofBytes #[0x0A, 0x20, 0x20] .utf8)).setLineState 0 32
    let saved := R.LineState.unpack (savedBefore b 1)
    let m i := (R.Machine.step {})^[i] (R.Machine.start b.text 1 1 .rawString saved)
    1 + 1 ≤ b.size
    ∧ (∃ n ≤ 1 + 1,
      (∀ i < n, (m i).scan.more = true ∧ (m i).scan.pos < (m (i + 1)).scan.pos)
      ∧ (m n).scan.more = false
      ∧ (R.RunsOn b.text 1 (1 + 1) .rawString saved ↔ ∃ i < n, ¬(m i).RoundEnds)
      ∧ (¬R.RunsOn b.text 1 (1 + 1) .rawString saved →
          (r {}).lex b 1 1 .rawString = b.restyle (m n).scan.finish.styling))
    ∧ (∀ count (s : Scanner b.text),
        Exits R.Machine.dashStep (count, s) (R.passDashes count s))
    ∧ ∀ pos, Exits (R.Machine.scanStep b.text) pos
        (pos + R.dashesFrom b.text (b.text.size - pos) pos) :=
  ⟨by decide, r_rounds_end _ 1 1 .rawString {} (by decide)⟩

/-- The first round there never ends: both spaces are tried, and then those that are seen behind
the end of the range. -/
theorem r_rounds_run_on :
    let b := (Buffer.ofText (.ofBytes #[0x0A, 0x20, 0x20] .utf8)).setLineState 0 32
    let m := R.Machine.start b.text 1 1 .rawString (R.LineState.unpack (savedBefore b 1))
    1 + 1 ≤ b.size ∧ m.scan.more = true ∧ ¬m.RoundEnds := by
  intro b m
  refine ⟨by decide, by decide, fun hends => ?_⟩
  let d : R.Delimiter := ⟨32, 0⟩
  obtain ⟨x, hx⟩ := hends d (by decide) (by decide) (by decide)
  have hsome : d.closeRaw (R.quoteOf .rawString) m.scan = some x :=
    R.Machine.exits_closeStep_iff.1 hx
  have htry : d.tryClose (R.quoteOf .rawString) m.scan = (false, m.scan.forward) := by decide
  have hsync : (Cursor.start b.text 1 1).InSync := Cursor.inSync_start (by decide)
  have hnext : R.Machine.Stands 2 m.scan.forward 2 :=
    ⟨by decide, Or.inl ⟨by decide, by decide, hsync.forward (by decide)⟩⟩
  have hnone := R.Machine.closeRaw_eq_none (d := d) (R.apt_quoteOf .rawString (by decide))
    hnext (Nat.le_refl 2) (by decide) rfl
  rw [R.Machine.closeRaw_of_again htry (by decide), hnone] at hsome
  cases hsome

end Lexer

end Restyle
