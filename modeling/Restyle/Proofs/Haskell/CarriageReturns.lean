/-
Restyle.Proofs.Haskell.CarriageReturns — the Haskell lexer does not mind
a carriage return before each line feed.

A machine over a text and one over the same text with CRLF for LF follow
each other. At a line feed the second first passes the carriage return
before it, in the token at hand, and does at the line feed what the first
does (`Paired.follows_pass_feed`). There is one exception: in a character
literal a backslash takes the next character as it is, which is the line
feed for the first and only the carriage return for the second. So the
machines part where a literal goes on over a line end, and nowhere else.
-/
import Restyle.Proofs.Engine.CarriageReturns
import Restyle.Proofs.Haskell.LineEnds

namespace Restyle

namespace Haskell

namespace Machine

open Scanner (Matched Matching isSign)

variable {t : Text} {m : Machine t} {m' : Machine t.crlf}

/-- The machines have come to the same place, have said the same and will do the same. -/
structure Matches (m : Machine t) (m' : Machine t.crlf) : Prop where
  scan : Matched 0 m.scan m'.scan
  paired : m.scan.pos < t.size + 1 → Paired (Matching isLoose) m m'

theorem matches_of_paired (h : Paired (Matching isLoose) m m') : Matches m m' :=
  ⟨h.scan.toMatched, fun _ => h⟩

/-- Machines of the whole texts start so. -/
theorem matches_start (t : Text) (saved : LineState) (hdepth : saved.depth = 0) :
    Matches (start t 0 t.size .plain saved) (start t.crlf 0 t.crlf.size .plain saved) :=
  matches_of_paired {
    scan := Matching.start .plain rfl
    mode := rfl
    depth := rfl
    depth_le := Nat.le_of_eq hdepth
    radix := by intro h; cases h
    inDashes := by intro h; cases h
    onWord := by intro h; cases h }

variable (ht : t.NoReturns) (he : t.encoding = .eightBit)
include ht he

/-! ## 1. Moves -/

/-- Over what is no line feed machines move together. -/
theorem Paired.matches_advance (h : Paired (Matching isLoose) m m')
    (hid : m.scan.token ≠ .identifier) (hr : m.Ready) (hr' : m'.Ready)
    (hb : t.byteAt m.scan.pos ≠ 10) : Matches (m.map (·.forward)) (m'.map (·.forward)) := by
  obtain ⟨hs, -, hlt⟩ := h.scan.advance ht he hb (by
    intro hend
    have hs' := hr' ((h.scan.atLineEnd ht hb).trans hend)
    rw [h.scan.line ht] at hs'
    exact (hr hend).noted_eq hs' h.mode h.depth)
  exact ⟨hs, fun hp => h.move (hlt hp) Scanner.Reach.refl.forward rfl hid⟩

/-- Machines that pass what is no sign and no line feed do so together. -/
theorem Paired.matches_pass (g : Settings) (h : Paired (Matching isLoose) m m') (hr : m.Ready)
    (hr' : m'.Ready) (hidle : m.idle g.options = true) (hb : t.byteAt m.scan.pos ≠ 10) :
    Matches m.pass m'.pass := by
  have T := Matching.tandem ht he isLoose
  have hends : endsHere m'.scan = endsHere m.scan := by
    rw [endsHere, endsHere, h.scan.token, h.scan.atLineEnd ht hb]
  rw [pass, pass, map, map, hends]
  cases hc : endsHere m.scan with
  | true =>
    exact (h.switch T rfl).matches_advance ht he (by show Token.plain ≠ _; decide) hr.switch
      hr'.switch (by show t.byteAt (m.scan.switch .plain).pos ≠ 10; rwa [Scanner.toCursor_switch])
  | false =>
    exact h.matches_advance ht he (ne_identifier_of_idle hidle) hr hr' hb

omit ht he in
/-- An idle machine notes its state at a line feed and passes it. -/
theorem step_of_feed {g : Settings} (hc : m.scan.ch = 10) (hend : m.scan.atLineEnd = true)
    (hidle : m.idle g.options = true) : m.step g = m.saveLine.pass := by
  have hsign : isSign m.scan.ch = false := by rw [hc]; rfl
  have hcont : continues m.scan = false := by
    rw [continues, Scanner.sees_eq_false hsign (by decide)]
    rfl
  have hnote : m.noteEnd = m.saveLine := if_pos hend
  rw [step_eq, hcont, if_neg Bool.false_ne_true, hnote]
  exact stepToken_of_idle (m := m.saveLine) hsign hidle

/-- Machines that pass a line feed, after the same notes, move together again. -/
theorem matches_pass_feed (h : Scanner.AtFeed m.scan m'.scan) (hmode : m'.mode = m.mode)
    (hdepth : m'.depth = m.depth) (hle : m.depth ≤ m.scan.pos)
    (hnoted : m'.scan.noted m.scan.line = m.scan.noted m.scan.line) : Matches m.pass m'.pass := by
  have hends : endsHere m'.scan = endsHere m.scan := by
    rw [endsHere, endsHere, h.token, h.atLineEnd, h.atLineEnd' ht]
  have hpass : Matched 0 m.pass.scan m'.pass.scan ∧ (isLoose m.pass.scan.token = false →
      m.pass.scan.pos < t.size + 1 → Matching isLoose m.pass.scan m'.pass.scan) := by
    rw [pass, pass, map, map, hends]
    cases endsHere m.scan with
    | true => exact (h.switch ht .plain).forward ht isLoose he (by simpa using hnoted)
    | false => exact h.forward ht isLoose he hnoted
  have htoken := token_pass h.atLineEnd
  refine ⟨hpass.1, fun hlt => paired_of_token (hpass.2 ?_ hlt) hmode hdepth
    (Nat.le_trans hle (reach_pass m).pos_le) ?_⟩
  · simp only [List.mem_cons, List.not_mem_nil, or_false] at htoken
    rcases htoken with h | h | h <;> rw [h] <;> rfl
  · simp only [List.mem_cons, List.not_mem_nil, or_false] at htoken
    rcases htoken with h | h | h <;> rw [h] <;> decide

/-- Where the first machine passes a line feed the second has a carriage return to move over
before. -/
theorem Paired.follows_feed (g : Settings) (h : Paired (Matching isLoose) m m') (hr : m.Ready)
    (hidle : m.idle g.options = true) (hb : t.byteAt m.scan.pos = 10) :
    ∃ r', (engine g).Comes (m'.map (·.forward)) r' ∧ Matches m.pass r' := by
  have hfeed : Scanner.AtFeed m.scan (m'.map (·.forward)).scan := h.scan.atFeed ht he hb
  have hend := hfeed.atLineEnd
  have hidle' : (m'.map (·.forward)).idle g.options = true :=
    (h.idle_eq h.scan.token g.options).trans hidle
  have hstep := step_of_feed (hfeed.ch' ht) (hfeed.atLineEnd' ht) hidle'
  have hcomes := Engine.Comes.single (E := engine g) (m := m'.map (·.forward)) (hfeed.more' ht)
  rw [show (engine g).round (m'.map (·.forward)) = _ from hstep] at hcomes
  refine ⟨_, hcomes, matches_pass_feed ht he (hfeed.note' _) h.mode h.depth h.depth_le ?_⟩
  have hs' := saved_saveLine (m'.map (·.forward))
  rw [hfeed.line] at hs'
  exact (hr hend).noted_eq hs' h.mode h.depth

/-- It passes the carriage return. -/
theorem Paired.follows_pass_feed (g : Settings) (h : Paired (Matching isLoose) m m') (hr : m.Ready)
    (hidle : m.idle g.options = true) (hb : t.byteAt m.scan.pos = 10) :
    ∃ r', (engine g).Comes m'.pass r' ∧ Matches m.pass r' := by
  have T := Matching.tandem ht he isLoose
  have hno := h.scan.atLineEnd_return ht hb
  cases hends : endsHere m'.scan with
  | false =>
    rw [show m'.pass = m'.map (·.forward) by rw [pass, map, hends]; rfl]
    exact h.follows_feed ht he g hr hidle hb
  | true =>
    -- no token that ends with its line ends at a carriage return
    have hother : endsHere m.scan = true := by
      rw [endsHere, h.scan.token, hno] at hends
      rw [endsHere]
      cases htoken : m.scan.token <;> simp [htoken] at hends ⊢
    have hswitch : Paired (Matching isLoose) (m.map (·.switch .plain)) (m'.map (·.switch .plain)) :=
      h.switch T rfl
    have hplain := hswitch.follows_feed ht he g hr.switch rfl
      (by show t.byteAt (m.scan.switch .plain).pos = 10; rwa [Scanner.toCursor_switch])
    rw [show m.pass = (m.map (·.switch .plain)).pass by rw [pass, pass, map, map, hother]; rfl,
      show m'.pass = (m'.map (·.switch .plain)).map (·.forward) by rw [pass, map, hends]; rfl]
    exact hplain

/-- Behind a backslash both pass a line end. -/
theorem matched_passLineEnd {s : Scanner t} {s' : Scanner t.crlf} (h : Matching isLoose s s')
    (hl : isLoose s.token = false) (hs : s.sees Ascii.backslash = true)
    (hn : s.seesNext '\n' = true ∨ s.seesNext '\r' = true)
    (hnoted : s'.noted s.line = s.noted s.line) :
    Matched 0 (passLineEnd s) (passLineEnd s') ∧ ((passLineEnd s).pos < t.size + 1 →
      Matching isLoose (passLineEnd s) (passLineEnd s')) := by
  have T := Matching.tandem ht he isLoose
  have hsign := Scanner.isSign_of_sees (by decide) hs
  have h₁ := T.forward h hsign
  have hch₁ : s.forward.ch = 10 ∨ s.forward.ch = 13 := by
    rw [T.ch_forward h]
    simpa [Cursor.seesNext] using hn
  have hbyte₁ := (h₁.sync.byteAt_of_ch_lt (by omega)).1
  have hb : t.byteAt s.forward.pos = 10 := by
    have hcr := ht s.forward.pos
    exact hbyte₁.trans (hch₁.resolve_right fun hc => hcr (hbyte₁.trans hc))
  obtain ⟨hch', hnext'⟩ := h₁.return_feed ht he hb
  have hno : (s.forward.sees '\r' && s.forward.seesNext '\n') = false := by
    rw [Cursor.sees, ← hbyte₁, hb]
    rfl
  have hyes : (s'.forward.sees '\r' && s'.forward.seesNext '\n') = true := by
    rw [Cursor.sees, Cursor.seesNext, hch', hnext']
    rfl
  have hline : s.forward.line = s.line := by
    rw [Scanner.toCursor_forward, Cursor.forward_line h.more, T.atLineEnd h hsign]
    rfl
  obtain ⟨hr, hlt⟩ := (h₁.atFeed ht he hb).forward ht isLoose he (by
    rw [hline]
    exact hnoted)
  rw [passLineEnd, passLineEnd, hno, hyes]
  exact ⟨hr, hlt hl⟩

/-! ## 2. Rounds -/

/-- The second machine catches up with every round of the first that does not take a line feed
into a character literal. -/
theorem Matches.step (g : Settings) (h : Matches m m') (hmore : m.scan.more = true)
    (hchar : m.escapes = true → m.scan.token = .char → m.scan.next ≠ 10) :
    ∃ r', (engine g).Comes m' r' ∧ Matches (m.step g) r' := by
  have T := Matching.tandem ht he isLoose
  have hlt : m.scan.pos < t.size + 1 := h.scan.stop ▸ Cursor.more_iff.1 hmore
  have hp := h.paired hlt
  have hnote := hp.noteEnd T
  suffices hsuff : ∃ r', (engine g).Comes (m'.step g) r' ∧ Matches (m.step g) r' by
    obtain ⟨r', hcomes, hr⟩ := hsuff
    exact ⟨r', (Engine.Comes.single (E := engine g) (hp.scan.more' ht)).trans hcomes, hr⟩
  refine hp.step_elim (P := fun n n' => ∃ r', (engine g).Comes n' r' ∧ Matches n r') T g
    ?_ ?_ ?_ ?_
  · intro hcont
    obtain ⟨hback, htoken, hnext⟩ := continues_iff.1 hcont
    have hsave : Matching isLoose m.noteEnd.saveLine.scan m'.noteEnd.saveLine.scan :=
      T.note' _ (T.note _ hnote.scan)
    have hloose : isLoose m.noteEnd.saveLine.scan.token = false := by
      show isLoose m.noteEnd.scan.token = false
      rw [token_noteEnd]
      rcases htoken with hs | hs <;> rw [hs] <;> rfl
    obtain ⟨hr, hlt⟩ := matched_passLineEnd ht he hsave hloose
      (by simpa [saveLine, map] using hback) (by simpa [saveLine, map] using hnext)
      (noted_saveLine_eq (hnote.scan.line ht) hnote.mode hnote.depth)
    exact ⟨_, .refl, hr, fun hp => hnote.overLineEnd (by simpa using hcont) (hlt hp)⟩
  · intro hcont hesc
    have hesc' : m.noteEnd.escapes = true := by simpa using hesc
    have hsign := Scanner.isSign_of_sees (by decide) (escapes_iff.1 hesc').2
    have hid := ne_identifier_of_idle (idle_of_escapes g.options hesc')
    have hb : t.byteAt m.noteEnd.scan.forward.pos ≠ 10 := by
      intro hb
      have hnext : m.scan.next = 10 := by
        have hch := (T.forward hnote.scan hsign).sync.ch
        rw [T.ch_forward hnote.scan, t.charAt_of_byteAt_lt (by omega)] at hch
        simpa using hch.trans hb
      obtain ⟨hstring | hliteral, hback⟩ := escapes_iff.1 hesc
      · -- a string is kept open by the backslash instead
        simp [continues, hback, hstring, Cursor.seesNext, hnext] at hcont
      · exact hchar hesc hliteral hnext
    exact ⟨_, .refl, ((hnote.escape T hesc').noteEnd T).matches_advance ht he
      (by simpa [map] using hid) (ready_noteEnd _) (ready_noteEnd _)
      (by rw [toCursor_noteEnd]; exact hb)⟩
  · intro _ hidle
    have hidle' : m.noteEnd.idle g.options = true := by simpa using hidle
    by_cases hb : t.byteAt m.noteEnd.scan.pos = 10
    · exact hnote.follows_pass_feed ht he g m.ready_noteEnd hidle' hb
    · exact ⟨_, .refl, hnote.matches_pass ht he g m.ready_noteEnd m'.ready_noteEnd hidle' hb⟩
  · intro n n' hn
    exact ⟨n', .refl, matches_of_paired hn⟩

end Machine

/-! ## 3. The whole run -/

variable {t : Text}

/-- A line feed that a machine takes into a character literal ends up in it. -/
theorem tokenAt?_of_escaped_feed (g : Settings) {q : Machine t}
    (hq : (engine g).Comes (Machine.start t 0 t.size .plain (LineState.unpack 0)) q)
    (hmore : q.scan.more = true) (hsync : q.scan.InSync) (hesc : q.escapes = true)
    (hchar : q.scan.token = .char) (hnext : q.scan.next = 10) :
    ∃ p, t.byteAt p = 10 ∧ ((engine g).whole t).tokenAt? p = some .char := by
  have hback : q.scan.sees Ascii.backslash = true := (Bool.and_eq_true_iff.1 hesc).2
  have hsign := Scanner.isSign_of_sees (by decide) hback
  have hwidth := Scanner.width_of_isSign hsync hsign
  have hbyte : t.byteAt (q.scan.pos + 1) = 10 := by
    have hcode := hsync.next
    rw [hwidth, hnext] at hcode
    rw [t.byteAt_eq_of_code_lt (by omega)]
    exact hcode.symm
  have hp : t.breaksAfter (q.scan.pos + 1) = true := by simp [Text.breaksAfter, hbyte]
  have hstop : t.IsStop (q.scan.pos + 1 + 1) :=
    t.isStop_of_mem_starts (t.mem_starts_iff.2 (Or.inr hp)) (Nat.succ_pos _)
  have hlt : q.scan.pos < q.scan.pos + 1 + 1 := by omega
  obtain ⟨-, -, -, hstart, -⟩ := (resumable g).exists_crossing (sound g) hstop (Nat.succ_pos _)
  have hlike : Machine.Like 0 (q.scan.pos + 1 + 1) q q :=
    (resumable g).like_of_comes (sound g) hstart hq hlt
  have hstep : q.step g = ((q.noteEnd.map (·.forward)).noteEnd).map (·.forward) := by
    have hcont : Machine.continues q.scan = false := by simp [Machine.continues, hchar]
    rw [Machine.step_eq, hcont, if_neg Bool.false_ne_true]
    exact Machine.stepToken_of_escapes (m := q.noteEnd) (by simpa using hesc)
  have hcross : q.scan.pos + 1 + 1 ≤ (q.step g).scan.pos := by
    have hpos : q.scan.forward.pos = q.scan.pos + 1 := by
      rw [Scanner.toCursor_forward, Cursor.forward_pos hmore, hwidth]
    have hmore₁ : q.scan.forward.more = true := by
      have hle := hlike.scan.cursor.stop
      rw [Cursor.more_iff, hpos, Scanner.toCursor_forward, Cursor.forward_stop]
      omega
    have hmoved := (hsync.forward hmore).toMeasured.pos_lt_forward hmore₁
    rw [hstep]
    show _ ≤ (q.noteEnd.map (·.forward)).noteEnd.scan.forward.pos
    rw [Scanner.toCursor_forward, Machine.toCursor_noteEnd]
    show _ ≤ q.noteEnd.scan.toCursor.forward.forward.pos
    rw [Machine.toCursor_noteEnd]
    have hmoved : q.scan.forward.pos < q.scan.toCursor.forward.forward.pos := hmoved
    omega
  obtain ⟨-, htoken, -⟩ := whole_of_crossing g hp hq hmore hlike hlt hcross
  refine ⟨_, hbyte, htoken.trans ?_⟩
  rw [hstep]
  simp [Machine.map, hchar]

/-- A text and the same text with CRLF for LF lead to the same tokens and states, if no line
feed of the first ends up in a character literal. -/
theorem whole_crlf (g : Settings) (ht : t.NoReturns) (he : t.encoding = .eightBit)
    (hchar : ∀ p, t.byteAt p = 10 → ((engine g).whole t).tokenAt? p ≠ some .char) :
    Styling.Moved t ((engine g).whole t) ((engine g).whole t.crlf) := by
  apply (sound g).whole_crlf (L := fun m m' =>
    (engine g).Comes ((engine g).start t 0 t.size .plain 0) m ∧ Machine.Matches m m') ht
  · exact fun _ _ h => h.2.scan
  · rintro (m : Machine t) (m' : Machine t.crlf) ⟨hcomes, hm⟩ hmore
    have hlt : m.scan.pos < t.size + 1 := hm.scan.stop ▸ Cursor.more_iff.1 hmore
    obtain ⟨r', hr', hr⟩ := hm.step ht he g hmore fun hesc htoken hnext => by
      obtain ⟨p, hp, htok⟩ :=
        tokenAt?_of_escaped_feed g hcomes hmore (hm.paired hlt).scan.sync hesc htoken hnext
      exact hchar p hp htok
    exact ⟨r', hr', hcomes.round hmore, hr⟩
  · exact ⟨.refl, Machine.matches_start t (LineState.unpack 0) rfl⟩

end Haskell

end Restyle
