/-
Restyle.Proofs.Haskell.Seams — the Haskell lexer cuts a text at its seams.

Where the text cannot be cut the machine is idle and passes what stands
there, with its token left open (`Sews.step_of_not_seam`). Everywhere else
a round goes in tandem with itself, so that it paints at seams, or passes
one character for which it has painted before.
-/
import Restyle.Proofs.Haskell.Tandem
import Restyle.Proofs.Scanner.Seams

namespace Restyle

namespace Haskell

namespace Machine

open Scanner (Sewing isSign)

variable {t : Text} {m n : Machine t} {g : Settings}

/-- The scanner of the machine is sewn, and where the text cannot be cut the machine only passes
what stands there. -/
structure Sews (g : Settings) (m : Machine t) : Prop where
  scan : m.scan.Sewn
  depth_le : m.depth ≤ m.scan.pos
  onWord : m.scan.token = .identifier → isWordStart m.scan.ch = true
  seam : t.Seam m.scan.pos ∨ (m.idle g.options = true ∧ lasts m.scan.token = true)

/-- Machines of the whole text start so. -/
theorem sews_start (g : Settings) (t : Text) (saved : LineState) (hdepth : saved.depth = 0) :
    Sews g (start t 0 t.size .plain saved) where
  scan := Scanner.sewn_start t .plain
  depth_le := Nat.le_of_eq hdepth
  onWord := by intro h; cases h
  seam := Or.inl Text.seam_zero

theorem Sews.paired (h : Sews g m) (hlt : m.scan.pos < t.size + 1) (hseam : t.Seam m.scan.pos) :
    Paired Sewing m m where
  scan := h.scan.sewing hlt hseam
  mode := rfl
  depth := rfl
  depth_le := h.depth_le
  radix _ := rfl
  inDashes _ := rfl
  onWord := h.onWord

theorem Paired.sews (h : Paired Sewing m n) : Sews g m where
  scan := h.scan.sewn
  depth_le := h.depth_le
  onWord := h.onWord
  seam := Or.inl h.scan.seam

/-- A move with a token that passes what is no sign. -/
theorem sews_forward (hs : m.scan.Sewn) (hle : m.depth ≤ m.scan.pos)
    (hidle : m.idle g.options = true) (hlast : lasts m.scan.token = true) :
    Sews g (m.map (·.forward)) where
  scan := hs.forward
  depth_le := Nat.le_trans hle Scanner.Reach.refl.forward.pos_le
  onWord ht := absurd ht (ne_identifier_of_idle hidle)
  seam := Or.inr ⟨by simpa [idle, map] using hidle, hlast⟩

/-! ## Rounds -/

/-- Where the text cannot be cut nothing is painted. -/
theorem Sews.step_of_not_seam (h : Sews g m) (hlt : m.scan.pos < t.size + 1)
    (hseam : ¬t.Seam m.scan.pos) : Sews g (m.step g) := by
  obtain ⟨hidle, hlast⟩ := h.seam.resolve_left hseam
  obtain ⟨hc, hend⟩ := Scanner.not_sign_of_le_byteAt (h.scan.sync hlt)
    (Text.le_byteAt_of_not_seam hseam).2
  rw [step_of_idle hc hend hidle hlast]
  exact sews_forward h.scan h.depth_le hidle hlast

/-- Behind a backslash and a line end the text can be cut again. -/
theorem sewing_passLineEnd {s : Scanner t} (h : Sewing s s) (hs : s.sees Ascii.backslash = true)
    (hn : s.seesNext '\n' = true ∨ s.seesNext '\r' = true) :
    Sewing (passLineEnd s) (passLineEnd s) := by
  have T := Sewing.tandem t isLoose
  have h₁ := T.forward_of_sees h (by decide) hs
  have hch₁ : s.forward.ch = 10 ∨ s.forward.ch = 13 := by
    rw [T.ch_forward h]
    simpa [Cursor.seesNext] using hn
  have hbyte₁ := (h₁.sync.byteAt_of_ch_lt (by omega)).1
  have h₂ := h₁.forward_of_lt (by omega) (by omega)
  rw [passLineEnd]
  split
  · rename_i hpair
    rw [Bool.and_eq_true] at hpair
    have hch₂ : s.forward.forward.ch = 10 := by
      rw [T.ch_forward h₁]
      exact beq_iff_eq.1 hpair.2
    have hbyte₂ := (h₂.sync.byteAt_of_ch_lt (by omega)).1
    exact h₂.forward_of_lt (by omega) (by omega)
  · exact h₂

/-- A round keeps the machine sewing. -/
theorem Sews.step (h : Sews g m) (hmore : m.scan.more = true) : Sews g (m.step g) := by
  have T := Sewing.tandem t isLoose
  have hlt := h.scan.lt hmore
  by_cases hseam : t.Seam m.scan.pos
  · have hp := h.paired hlt hseam
    have hnote := hp.noteEnd T
    refine hp.step_elim (P := fun n _ => Sews g n) T g ?_ ?_ ?_ ?_
    · intro hcont
      obtain ⟨hback, -, hnext⟩ := continues_iff.1 hcont
      have hsave : Sewing m.noteEnd.saveLine.scan m.noteEnd.saveLine.scan :=
        (hnote.scan.note _).note' _
      exact (hnote.overLineEnd (by simpa using hcont)
        (sewing_passLineEnd hsave (by simpa [saveLine, map] using hback)
          (by simpa [saveLine, map] using hnext))).sews
    · intro _ hesc
      have hesc : m.noteEnd.escapes = true := by simpa using hesc
      have hidle : m.noteEnd.idle g.options = true := idle_of_escapes g.options hesc
      have hlast : lasts m.noteEnd.scan.token = true := lasts_of_escapes hesc
      have hmoved := (hnote.escape T hesc).noteEnd T
      exact sews_forward hmoved.scan.sewn hmoved.depth_le ((idle_noteEnd ..).trans hidle)
        ((congrArg lasts (token_noteEnd _)).trans hlast)
    · intro _ hidle
      rw [pass]
      cases hends : endsHere m.noteEnd.scan with
      | true =>
        have hplain : isLoose .plain = false := rfl
        have hpaired := hnote.switch T hplain
        simpa only [map, hends, if_true] using
          sews_forward hpaired.scan.sewn hpaired.depth_le rfl rfl
      | false =>
        have hlast := lasts_of_endsHere hends
        simpa only [map, hends, Bool.false_eq_true, if_false] using
          sews_forward hnote.scan.sewn hnote.depth_le (by simpa using hidle) hlast
    · exact fun hn => hn.sews
  · exact h.step_of_not_seam hlt hseam

end Machine

end Haskell

end Restyle
