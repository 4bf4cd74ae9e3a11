/-
Restyle.Proofs.R.Seams — the R lexer cuts a text at its seams.

Where the text cannot be cut no brief token is open, and a round only
passes what stands there (`Sews.step_of_not_seam`). Everywhere else what
the machine ends and starts it does in tandem with itself, so at seams;
and then it moves on over a sign, or with a token that goes on
(`Paired.sews_forward`).
-/
import Restyle.Proofs.R.Resume
import Restyle.Proofs.Scanner.Seams

namespace Restyle

namespace R

namespace Machine

open Scanner (Sewing isSign)

variable {t : Text} {m n : Machine t} {g : Settings}

/-- The scanner of the machine is sewn, and where the text cannot be cut the machine only passes
what stands there. -/
structure Sews (m : Machine t) : Prop where
  scan : m.scan.Sewn
  fits : ∀ d ∈ m.raw, isClosing d.close = true ∧ d.dashes ≤ m.scan.pos
  token : m.scan.token ≠ .openPercentOperator
  seam : t.Seam m.scan.pos ∨ isBrief m.scan.token = false ∨ m.scan.token = .percentOperator

/-- Machines of the whole text start so. -/
theorem sews_start (t : Text) : Sews (start t 0 t.size .plain none) where
  scan := Scanner.sewn_start t .plain
  fits := by intro d hd; cases hd
  token := by show Token.plain ≠ _; decide
  seam := Or.inl Text.seam_zero

theorem Sews.paired (h : Sews m) (hlt : m.scan.pos < t.size + 1) (hseam : t.Seam m.scan.pos) :
    Paired Sewing m m :=
  ⟨h.scan.sewing hlt hseam, rfl, h.fits, h.token⟩

theorem Paired.sews (h : Paired Sewing m n) : Sews m :=
  ⟨h.scan.sewn, h.fits, h.token, Or.inl h.scan.seam⟩

/-- A move with a token that goes on over what is no sign. -/
theorem sews_forward (hs : m.scan.Sewn)
    (hfits : ∀ d ∈ m.raw, isClosing d.close = true ∧ d.dashes ≤ m.scan.pos)
    (ht : m.scan.token ≠ .openPercentOperator)
    (hopen : isBrief m.scan.token = false ∨ m.scan.token = .percentOperator) :
    Sews (m.map (·.forward)) where
  scan := hs.forward
  fits d hd := ⟨(hfits d hd).1, Nat.le_trans (hfits d hd).2 Scanner.Reach.refl.forward.pos_le⟩
  token := ht
  seam := Or.inr hopen

/-! ## Rounds -/

/-- Where the text cannot be cut nothing is painted. -/
theorem Sews.step_of_not_seam (h : Sews m) (hlt : m.scan.pos < t.size + 1)
    (hseam : ¬t.Seam m.scan.pos) : Sews (m.step g) := by
  have hsync := h.scan.sync hlt
  have hb := (Text.le_byteAt_of_not_seam hseam).2
  have hsize := t.lt_size_of_byteAt (p := m.scan.pos) (by omega)
  obtain ⟨hc, hend⟩ := Scanner.not_sign_of_le_byteAt hsync hb
  have hopen := h.seam.resolve_left hseam
  rw [step_of_not_sign g hc (hopen.imp_right fun ht => ⟨ht, hend⟩)
    (fun _ => hsync.atTerminator_eq_false hsize (by omega) (by omega)) (fun d hd => (h.fits d hd).1),
    noteEnd_of_not_atLineEnd hend]
  exact sews_forward h.scan h.fits h.token hopen

/-- A move over a sign comes to a seam, and over anything else no brief token is open. -/
theorem Paired.sews_forward (h : Paired Sewing m n) (hcalm : m.Calm) :
    Sews (m.map (·.forward)) := by
  cases hc : isSign m.scan.ch with
  | true =>
    have hs := h.scan.forward hc
    exact (h.scan_change hs Scanner.Reach.refl.forward h.token).sews
  | false => exact Machine.sews_forward h.scan.sewn h.fits h.token ((hcalm hc).imp_right (·.1))

theorem Paired.sews_finishRound (h : Paired Sewing m n) (hcalm : m.Calm) :
    Sews m.finishRound := by
  have T := Sewing.tandem t isLoose
  obtain ⟨hs, hc⟩ := h.settle T hcalm
  refine (hs.noteEnd T).sews_forward ?_
  intro hsign
  rw [token_noteEnd, toCursor_noteEnd]
  exact hc (by simpa using hsign)

/-- A percent operator that its line leaves open is painted behind a line end. -/
theorem Paired.sews_leaveOpen (h : Paired Sewing m n) (hend : m.scan.atLineEnd = true) :
    Sews m.leaveOpen.finishRound := by
  have hbyte : t.byteAt m.scan.pos < 128 := Nat.lt_of_not_le fun hge => by
    rw [(Scanner.not_sign_of_le_byteAt h.scan.sync hge).2] at hend
    cases hend
  have hnote : Sewing (m.saveLine.scan.relabel .openPercentOperator)
      (n.saveLine.scan.relabel .openPercentOperator) := ((h.scan.note _).note' _).relabel _
  have hseam := hnote.sewn.seam_forward hnote.lt hbyte
  have hscan : m.leaveOpen.scan.Sewn := hnote.sewn.forward.switch hseam .plain
  have hreach : m.scan.Reach m.leaveOpen.scan :=
    ((Scanner.Reach.refl.note _).relabel _).forwardSwitch _
  have hfits : ∀ d ∈ m.raw, isClosing d.close = true ∧ d.dashes ≤ m.leaveOpen.scan.pos :=
    fun d hd => ⟨(h.fits d hd).1, Nat.le_trans (h.fits d hd).2 hreach.pos_le⟩
  rcases Nat.lt_or_ge m.leaveOpen.scan.pos (t.size + 1) with hlt | hge
  · have hpair : Paired Sewing m.leaveOpen m.leaveOpen :=
      ⟨hscan.sewing hlt (by rwa [toCursor_leaveOpen]), rfl, hfits, by show Token.plain ≠ _; decide⟩
    exact hpair.sews_finishRound (calm_of_token rfl)
  · -- the text is over
    have hsync : m.leaveOpen.scan.InSync := by
      rw [toCursor_leaveOpen]
      exact h.scan.sync.forward (h.scan.sewn.more h.scan.lt)
    rw [(finishRound_of_size_lt hsync hge).1]
    have hnoted : m.leaveOpen.noteEnd.scan.Sewn := by
      rw [Machine.noteEnd]
      split
      · exact hscan.note _
      · exact hscan
    exact Machine.sews_forward hnoted (by rw [raw_noteEnd, toCursor_noteEnd]; exact hfits)
      (by rw [token_noteEnd]; show Token.plain ≠ _; decide) (Or.inl (by rw [token_noteEnd]; rfl))

/-- A round keeps the machine sewing. -/
theorem Sews.step (h : Sews m) (hmore : m.scan.more = true) : Sews (m.step g) := by
  have T := Sewing.tandem t isLoose
  have hlt := h.scan.lt hmore
  by_cases hseam : t.Seam m.scan.pos
  · have hp := h.paired hlt hseam
    rw [step_eq]
    by_cases hopen : m.scan.token = .percentOperator ∧ m.scan.sees '%' = false
        ∧ m.scan.atLineEnd = true
    · obtain ⟨ht, hs, hend⟩ := hopen
      rw [endToken_eq_leaveOpen g ht hs hend]
      exact hp.sews_leaveOpen hend
    · obtain ⟨he, hcalm⟩ := hp.endToken T g (fun _ => rfl) (by
        intro ht
        cases hs : m.scan.sees '%' with
        | true => exact Or.inl rfl
        | false =>
          have hend : m.scan.atLineEnd = false := Bool.eq_false_iff.2 fun hend => hopen ⟨ht, hs, hend⟩
          exact Or.inr ⟨hend, hend⟩)
      exact he.sews_finishRound hcalm
  · exact h.step_of_not_seam hlt hseam

end Machine

end R

end Restyle
