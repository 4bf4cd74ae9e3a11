/-
Restyle.Proofs.R.Encoding — the R lexer does not care how bytes make
characters.

A machine over a text and one over its bytes follow each other. Both end
and start their tokens at signs; a character of several bytes that one
passes in its round the other passes byte by byte, in rounds that do
nothing else (`comes_forwardBy`).

A percent operator that its line leaves open ends one character into its
round; what is left of the round is a round of its own there
(`Paired.follows_leaveOpen`).
-/
import Restyle.Proofs.Engine.Walks
import Restyle.Proofs.R.Resume
import Restyle.Proofs.Scanner.Encoding

namespace Restyle

namespace R

namespace Machine

open Scanner (Recoded Recoding isSign)

variable {t : Text} {m : Machine t} {m' : Machine t.bytewise}

/-! ## 1. Passing bytes -/

/-- Bytes outside ASCII are passed one by one. -/
theorem comes_forwardBy (g : Settings) (ht : t.encoding = .eightBit) (hsync : m.scan.InSync)
    (hstop : m.scan.stop = t.size + 1)
    (htoken : isBrief m.scan.token = false ∨ m.scan.token = .percentOperator)
    (hraw : ∀ d ∈ m.raw, isClosing d.close = true) {count : Nat}
    (hbytes : ∀ i < count, 128 ≤ t.byteAt (m.scan.pos + i)) :
    (engine g).Comes m (m.map (·.forwardBy count)) := by
  refine Engine.Comes.of_rounds (E := engine g) (f := fun i => m.map (·.forwardBy i)) ?_
  intro i hi
  have hb := hbytes i hi
  obtain ⟨hsync, hpos, hc, hend, hmore⟩ := Scanner.inside_forwardBy ht hsync hstop hb
  rw [← hpos] at hb
  have hs := t.lt_size_of_byteAt (p := (m.scan.forwardBy i).pos) (by omega)
  have hterm := hsync.atTerminator_eq_false hs (by omega) (by omega)
  have hstep := step_of_not_sign (m := m.map (·.forwardBy i)) g hc
    ((show isBrief (m.map (·.forwardBy i)).scan.token = false
      ∨ (m.map (·.forwardBy i)).scan.token = .percentOperator by simpa [map] using htoken).imp_right
      fun h => ⟨h, hend⟩) (fun _ => hterm) hraw
  refine ⟨hmore, hstep.trans ?_⟩
  rw [noteEnd_of_not_atLineEnd hend]
  simp only [map, Scanner.forwardBy_succ]

/-! ## 2. Catching up -/

/-- The machines have come to the same place, have said the same and will do the same. -/
structure Follows (m : Machine t) (m' : Machine t.bytewise) : Prop where
  scan : Recoded m.scan m'.scan
  paired : m.scan.pos < t.size + 1 → Paired Recoding m m'

/-- Machines of the whole texts start so. -/
theorem follows_start (t : Text) :
    Follows (start t 0 t.size .plain none) (start t.bytewise 0 t.size .plain none) where
  scan := (Scanner.recoding_start t .plain).toRecoded
  paired _ :=
    { scan := Scanner.recoding_start t .plain
      raw := rfl
      fits := by intro d hd; cases hd
      token := by show Token.plain ≠ _; decide }

/-- After a move over one character the second machine catches up. -/
theorem Paired.advance (g : Settings) (h : Paired Recoding m m') (hcalm : m.Calm)
    (hnoted : m.scan.atLineEnd = true → m'.scan.noted m.scan.line = m.scan.noted m.scan.line) :
    ∃ r', (engine g).Comes (m'.map (·.forward)) r' ∧ Follows (m.map (·.forward)) r' := by
  have hreach := Scanner.Reach.refl.forward (s := m.scan)
  rcases Nat.lt_or_ge (t.byteAt m.scan.pos) 128 with hb | hb
  · obtain ⟨hs, hsync, hsync'⟩ := h.scan.forward hb hnoted
    exact ⟨_, .refl, hs, fun hlt => h.scan_change ⟨hs, hsync, hsync', hlt⟩ hreach h.token⟩
  · obtain ⟨count, hs, hsync', hstop', hbytes⟩ := h.scan.exists_rest hb
    have hc := (Scanner.not_sign_of_le_byteAt h.scan.sync hb).1
    have htoken : isBrief m'.scan.token = false ∨ m'.scan.token = .percentOperator := by
      rw [h.scan.token]
      exact (hcalm hc).imp_right (·.1)
    exact ⟨m'.map (·.forward.forwardBy count),
      comes_forwardBy (m := m'.map (·.forward)) g rfl hsync' hstop' htoken
        (fun d hd => (h.fits d (h.raw ▸ hd)).1) hbytes,
      hs.toRecoded, fun _ => h.scan_change hs hreach h.token⟩

/-! ## 3. Rounds -/

/-- The second machine catches up with what is left of a round of the first. -/
theorem Paired.follows_finishRound (g : Settings) (h : Paired Recoding m m') (hcalm : m.Calm) :
    ∃ r', (engine g).Comes m'.finishRound r' ∧ Follows m.finishRound r' := by
  have T := Recoding.tandem (t := t) isLoose
  obtain ⟨hs, hc⟩ := h.settle T hcalm
  have hnote := hs.noteEnd T
  refine hnote.advance g ?_ ?_
  · intro hsign
    rw [token_noteEnd, toCursor_noteEnd]
    exact hc (by simpa using hsign)
  · intro hend
    rw [toCursor_noteEnd] at hend ⊢
    exact noted_noteEnd_eq hs.raw hs.scan.line hend (hs.scan.atLineEnd.trans hend)

/-- Where the text is over both make at most a note. -/
theorem follows_finishRound_of_size_lt (h : Recoded m.scan m'.scan) (hsync : m.scan.InSync)
    (hsync' : m'.scan.InSync) (hgt : t.size < m.scan.pos) :
    Follows m.finishRound m'.finishRound := by
  have hpos := h.pos
  have hgt' : t.bytewise.size < m'.scan.pos := by rw [hpos]; exact hgt
  obtain ⟨heq, hno⟩ := finishRound_of_size_lt hsync hgt
  obtain ⟨heq', -⟩ := finishRound_of_size_lt hsync' hgt'
  have hnote : Recoded m.noteEnd.scan m'.noteEnd.scan := by
    have hright {s : Scanner t} (hs : Recoded s m'.scan) : Recoded s m'.noteEnd.scan := by
      rw [noteEnd]
      split
      · exact hs.note' hsync' _
      · exact hs
    rw [noteEnd]
    split
    · exact hright (h.note hsync _)
    · exact hright h
  have hle := m.noteEnd.scan.toCursor.pos_le_forward
  rw [toCursor_noteEnd] at hle
  rw [heq, heq']
  refine ⟨hnote.forward_of_not_more hno, fun hlt => ?_⟩
  have hlt : m.noteEnd.scan.forward.pos < t.size + 1 := hlt
  rw [Scanner.toCursor_forward, toCursor_noteEnd] at hlt
  omega

/-- Machines that leave a percent operator open do so together. -/
theorem Paired.follows_leaveOpen (g : Settings) (h : Paired Recoding m m')
    (hend : m.scan.atLineEnd = true) :
    ∃ r', (engine g).Comes m'.leaveOpen.finishRound r' ∧ Follows m.leaveOpen.finishRound r' := by
  have hbyte : t.byteAt m.scan.pos < 128 := Nat.lt_of_not_le fun hge => by
    rw [(Scanner.not_sign_of_le_byteAt h.scan.sync hge).2] at hend
    cases hend
  have hnote : Recoding (m.saveLine.scan.relabel .openPercentOperator)
      (m'.saveLine.scan.relabel .openPercentOperator) := ((h.scan.note _).note' _).relabel _
  obtain ⟨hr, hsync, hsync'⟩ := hnote.forward hbyte fun _ => noted_saveLine_eq h.raw h.scan.line
  have hs : Recoded m.leaveOpen.scan m'.leaveOpen.scan := hr.switch .plain
  have hsynced : m.leaveOpen.scan.InSync := by
    rw [toCursor_leaveOpen]
    exact hsync
  have hsynced' : m'.leaveOpen.scan.InSync := by
    rw [toCursor_leaveOpen]
    exact hsync'
  rcases Nat.lt_or_ge m.leaveOpen.scan.pos (t.size + 1) with hlt | hge
  · have hreach : m.scan.Reach m.leaveOpen.scan :=
      ((Scanner.Reach.refl.note _).relabel _).forwardSwitch _
    exact (h.scan_change ⟨hs, hsynced, hsynced', hlt⟩ hreach
      (by show Token.plain ≠ _; decide)).follows_finishRound g (calm_of_token rfl)
  · exact ⟨_, .refl, follows_finishRound_of_size_lt hs hsynced hsynced' (by omega)⟩

/-- The second machine catches up with every round of the first. -/
theorem Follows.step (g : Settings) (h : Follows m m') (hmore : m.scan.more = true) :
    ∃ r', (engine g).Comes m' r' ∧ Follows (m.step g) r' := by
  have T := Recoding.tandem (t := t) isLoose
  have hlt : m.scan.pos < t.size + 1 := h.scan.stop ▸ Cursor.more_iff.1 hmore
  have hp := h.paired hlt
  suffices hsuff : ∃ r', (engine g).Comes (m'.step g) r' ∧ Follows (m.step g) r' by
    obtain ⟨r', hcomes, hr⟩ := hsuff
    exact ⟨r', (Engine.Comes.single (E := engine g) hp.scan.more').trans hcomes, hr⟩
  rw [step_eq, step_eq]
  by_cases hopen : m.scan.token = .percentOperator ∧ m.scan.sees '%' = false
      ∧ m.scan.atLineEnd = true
  · obtain ⟨ht, hs, hend⟩ := hopen
    rw [endToken_eq_leaveOpen g ht hs hend, endToken_eq_leaveOpen g (hp.scan.token.trans ht)
      ((T.sees hp.scan (by decide)).trans hs) (hp.scan.atLineEnd.trans hend)]
    exact hp.follows_leaveOpen g hend
  · obtain ⟨he, hcalm⟩ := hp.endToken T g (fun _ => hp.scan.atTerminator) (by
      intro ht
      cases hs : m.scan.sees '%' with
      | true => exact Or.inl rfl
      | false =>
        have hend : m.scan.atLineEnd = false := Bool.eq_false_iff.2 fun hend => hopen ⟨ht, hs, hend⟩
        exact Or.inr ⟨hend, hp.scan.atLineEnd.trans hend⟩)
    exact he.follows_finishRound g hcalm

end Machine

end R

end Restyle
