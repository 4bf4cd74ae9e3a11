/-
Restyle.Proofs.Haskell.Encoding — the Haskell lexer does not care how
bytes make characters.

A machine over a text and one over its bytes follow each other. They part
only over a character of several bytes: no token starts or ends there, so
that the second machine passes its bytes one by one, in as many rounds
(`comes_forwardBy`), and catches up (`Paired.advance`).
-/
import Restyle.Proofs.Engine.Walks
import Restyle.Proofs.Haskell.Resume
import Restyle.Proofs.Scanner.Encoding

namespace Restyle

namespace Haskell

namespace Machine

open Scanner (Recoded Recoding isSign)

variable {t : Text} {m : Machine t} {m' : Machine t.bytewise}

/-! ## 1. Passing bytes -/

/-- Bytes outside ASCII are passed one by one. -/
theorem comes_forwardBy (g : Settings) (ht : t.encoding = .eightBit) (hsync : m.scan.InSync)
    (hstop : m.scan.stop = t.size + 1) (hidle : m.idle g.options = true)
    (hlast : lasts m.scan.token = true) {count : Nat}
    (hbytes : ∀ i < count, 128 ≤ t.byteAt (m.scan.pos + i)) :
    (engine g).Comes m (m.map (·.forwardBy count)) := by
  refine Engine.Comes.of_rounds (E := engine g) (f := fun i => m.map (·.forwardBy i)) ?_
  intro i hi
  obtain ⟨-, -, hc, hend, hmore⟩ := Scanner.inside_forwardBy ht hsync hstop (hbytes i hi)
  have hstep := step_of_idle (g := g) (m := m.map (·.forwardBy i)) hc hend
    (by simpa [idle, map] using hidle) (by simpa [map] using hlast)
  refine ⟨hmore, hstep.trans ?_⟩
  simp only [map, Scanner.forwardBy_succ]

/-! ## 2. Catching up -/

/-- The machines have come to the same place, have said the same and will do the same. -/
structure Follows (m : Machine t) (m' : Machine t.bytewise) : Prop where
  scan : Recoded m.scan m'.scan
  paired : m.scan.pos < t.size + 1 → Paired Recoding m m'

theorem follows_of_paired (h : Paired Recoding m m') : Follows m m' :=
  ⟨h.scan.toRecoded, fun _ => h⟩

/-- Machines of the whole texts start so. -/
theorem follows_start (t : Text) (saved : LineState) (hdepth : saved.depth = 0) :
    Follows (start t 0 t.size .plain saved) (start t.bytewise 0 t.size .plain saved) :=
  follows_of_paired {
    scan := Scanner.recoding_start t .plain
    mode := rfl
    depth := rfl
    depth_le := Nat.le_of_eq hdepth
    radix := by intro h; cases h
    inDashes := by intro h; cases h
    onWord := by intro h; cases h }

/-- Machines that are ready have noted the same for the line that they leave. -/
theorem noted_of_ready (h : Paired Recoding m m') (hr : m.Ready) (hr' : m'.Ready)
    (hend : m.scan.atLineEnd = true) : m'.scan.noted m.scan.line = m.scan.noted m.scan.line := by
  have hs' := hr' (h.scan.atLineEnd.trans hend)
  rw [h.scan.line] at hs'
  exact (hr hend).noted_eq hs' h.mode h.depth

/-- After a move over one character the second machine catches up. -/
theorem Paired.advance (g : Settings) (h : Paired Recoding m m') (hid : m.scan.token ≠ .identifier)
    (hr : m.Ready) (hr' : m'.Ready)
    (hidle : 128 ≤ t.byteAt m.scan.pos → m'.idle g.options = true ∧ lasts m'.scan.token = true) :
    ∃ r', (engine g).Comes (m'.map (·.forward)) r' ∧ Follows (m.map (·.forward)) r' := by
  have hreach := Scanner.Reach.refl.forward (s := m.scan)
  rcases Nat.lt_or_ge (t.byteAt m.scan.pos) 128 with hb | hb
  · obtain ⟨hs, hsync, hsync'⟩ := h.scan.forward hb (noted_of_ready h hr hr')
    exact ⟨_, .refl, hs, fun hlt => h.move ⟨hs, hsync, hsync', hlt⟩ hreach rfl hid⟩
  · obtain ⟨hi, hl⟩ := hidle hb
    obtain ⟨count, hs, hsync', hstop', hbytes⟩ := h.scan.exists_rest hb
    exact ⟨m'.map (·.forward.forwardBy count),
      comes_forwardBy (m := m'.map (·.forward)) g rfl hsync' hstop' hi hl hbytes,
      follows_of_paired (h.move hs hreach rfl hid)⟩

/-! ## 3. Rounds -/

/-- Over the line end behind a backslash both machines move alike. -/
theorem recoded_passLineEnd {s : Scanner t} {s' : Scanner t.bytewise} (h : Recoding s s')
    (hs : s.sees Ascii.backslash = true) (hn : s.seesNext '\n' = true ∨ s.seesNext '\r' = true)
    (hnoted : s'.noted s.line = s.noted s.line) :
    Recoded (passLineEnd s) (passLineEnd s') ∧ (Machine.passLineEnd s).InSync
      ∧ (Machine.passLineEnd s').InSync := by
  have T := Recoding.tandem (t := t) isLoose
  have hsign := Scanner.isSign_of_sees (by decide) hs
  have h₁ := h.forward_of_isSign hsign
  have hline₁ : s.forward.line = s.line := by
    rw [Scanner.toCursor_forward, Cursor.forward_line h.more, T.atLineEnd h hsign]
    rfl
  have hnoted₁ : s'.forward.noted s.forward.line = s.forward.noted s.forward.line := by
    rw [hline₁]
    exact hnoted
  have hch₁ : s.forward.ch = 10 ∨ s.forward.ch = 13 := by
    rw [T.ch_forward h]
    simpa [Cursor.seesNext] using hn
  obtain ⟨hbyte₁, hwidth₁⟩ := h₁.sync.byteAt_of_ch_lt (by omega)
  have hpair : (s'.forward.sees '\r' && s'.forward.seesNext '\n')
      = (s.forward.sees '\r' && s.forward.seesNext '\n') := by
    rw [h₁.sees (by decide), h₁.seesNext (by omega) (by decide)]
  rw [Machine.passLineEnd, Machine.passLineEnd, hpair]
  cases hc : s.forward.sees '\r' && s.forward.seesNext '\n' with
  | false =>
    simp only [Bool.false_eq_true, if_false]
    exact h₁.forward (by omega) fun _ => hnoted₁
  | true =>
    simp only [if_true]
    simp only [Bool.and_eq_true, Cursor.sees, Cursor.seesNext, beq_iff_eq] at hc
    have hend₁ := h₁.sync.atLineEnd_of_pair hc.1 hc.2
    obtain ⟨hr₂, hsync₂, hsync₂'⟩ := h₁.forward (by omega) fun _ => hnoted₁
    have hbyte₂ : t.byteAt s.forward.forward.pos = 10 := by
      rw [← t.code_eq_iff (by decide), ← hsync₂.ch, T.ch_forward h₁]
      exact hc.2
    have hs₂ := t.lt_size_of_byteAt (p := s.forward.forward.pos) (by omega)
    have h₂ : Recoding s.forward.forward s'.forward.forward := ⟨hr₂, hsync₂, hsync₂', by omega⟩
    have hline₂ : s.forward.forward.line = s.forward.line := by
      rw [Scanner.toCursor_forward, Cursor.forward_line h₁.more, hend₁]
      rfl
    exact h₂.forward (by omega) fun _ => by
      rw [hline₂]
      exact hnoted₁

/-- Machines that pass a character that is no sign go on following each other. -/
theorem Paired.follows_pass (g : Settings) (h : Paired Recoding m m') (hr : m.Ready)
    (hr' : m'.Ready) (hidle : m.idle g.options = true) :
    ∃ r', (engine g).Comes m'.pass r' ∧ Follows m.pass r' := by
  have T := Recoding.tandem (t := t) isLoose
  have hidle' : m'.idle g.options = true := (h.idle_eq h.scan.token g.options).trans hidle
  have hends : endsHere m'.scan = endsHere m.scan := by
    rw [endsHere, endsHere, h.scan.token, h.scan.atLineEnd]
  rw [pass, pass, map, map, hends]
  cases he : endsHere m.scan with
  | true =>
    exact (h.switch T rfl).advance g (by show Token.plain ≠ _; decide) hr.switch hr'.switch
      fun _ => ⟨rfl, rfl⟩
  | false =>
    exact h.advance g (ne_identifier_of_idle hidle) hr hr' fun _ =>
      ⟨hidle', lasts_of_endsHere (hends.trans he)⟩

/-- The second machine catches up with every round of the first. -/
theorem Follows.step (g : Settings) (h : Follows m m') (hmore : m.scan.more = true) :
    ∃ r', (engine g).Comes m' r' ∧ Follows (m.step g) r' := by
  have T := Recoding.tandem (t := t) isLoose
  have hlt : m.scan.pos < t.size + 1 := h.scan.stop ▸ Cursor.more_iff.1 hmore
  have hp := h.paired hlt
  have hnote := hp.noteEnd T
  suffices hsuff : ∃ r', (engine g).Comes (m'.step g) r' ∧ Follows (m.step g) r' by
    obtain ⟨r', hcomes, hr⟩ := hsuff
    exact ⟨r', (Engine.Comes.single (E := engine g) hp.scan.more').trans hcomes, hr⟩
  refine hp.step_elim (P := fun n n' => ∃ r', (engine g).Comes n' r' ∧ Follows n r') T g
    ?_ ?_ ?_ ?_
  · intro hcont
    obtain ⟨hback, -, hnext⟩ := continues_iff.1 hcont
    have hsave : Recoding m.noteEnd.saveLine.scan m'.noteEnd.saveLine.scan :=
      (hnote.scan.note _).note' _
    obtain ⟨hr, hsync, hsync'⟩ := recoded_passLineEnd hsave (by simpa [saveLine, map] using hback)
      (by simpa [saveLine, map] using hnext)
      (noted_saveLine_eq hnote.scan.line hnote.mode hnote.depth)
    exact ⟨_, .refl, hr, fun hlt =>
      hnote.overLineEnd (by simpa using hcont) ⟨hr, hsync, hsync', hlt⟩⟩
  · intro _ hesc
    have hesc : m.noteEnd.escapes = true := by simpa using hesc
    have hesc' : m'.noteEnd.escapes = true := (hnote.escapes_eq T).trans hesc
    have hid := ne_identifier_of_idle (idle_of_escapes g.options hesc)
    have hidle : m'.noteEnd.idle g.options = true := idle_of_escapes g.options hesc'
    have hlast : lasts m'.noteEnd.scan.token = true := lasts_of_escapes hesc'
    exact ((hnote.escape T hesc).noteEnd T).advance g (by simpa [map] using hid)
      (ready_noteEnd _) (ready_noteEnd _) fun _ =>
        ⟨(idle_noteEnd ..).trans hidle, (congrArg lasts (token_noteEnd _)).trans hlast⟩
  · intro _ hidle
    exact hnote.follows_pass g m.ready_noteEnd m'.ready_noteEnd (by simpa using hidle)
  · intro n n' hn
    exact ⟨n', .refl, follows_of_paired hn⟩

end Machine

end Haskell

end Restyle
