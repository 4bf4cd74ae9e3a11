/-
Restyle.Proofs.R.CarriageReturns — the R lexer does not mind a carriage
return before each line feed.

A machine over a text and one over the same text with CRLF for LF follow
each other. A comment ends where its line's terminator starts, at the line
feed for the first and at the carriage return for the second, which is the
same place. At a line feed the second first passes the carriage return in
the token at hand, in a round of its own (`Paired.matches_feed`). What a
percent operator does at the end of its line it does behind that, at the
line feed (`Paired.matches_leaveOpen_feed`).
-/
import Restyle.Proofs.Engine.CarriageReturns
import Restyle.Proofs.R.Resume

namespace Restyle

namespace R

namespace Machine

open Scanner (AtFeed Matched Matching SameMark isSign)

variable {t : Text} {m : Machine t} {m' : Machine t.crlf}

/-- The machines have come to the same place, have said the same and will do the same. -/
structure Matches (m : Machine t) (m' : Machine t.crlf) : Prop where
  scan : Matched 0 m.scan m'.scan
  paired : m.scan.pos < t.size + 1 → Paired (Matching isLoose) m m'

/-- Machines of the whole texts start so. -/
theorem matches_start (t : Text) :
    Matches (start t 0 t.size .plain none) (start t.crlf 0 t.crlf.size .plain none) where
  scan := (Matching.start .plain (rfl : isLoose .plain = false)).toMatched
  paired _ :=
    { scan := Matching.start .plain rfl
      raw := rfl
      fits := by intro d hd; cases hd
      token := by show Token.plain ≠ _; decide }

variable (ht : t.NoReturns) (he : t.encoding = .eightBit)
include ht he

/-! ## 1. The end of a round -/

/-- Over what is no line feed machines note and move together. -/
theorem Paired.matches_note (h : Paired (Matching isLoose) m m') (hb : t.byteAt m.scan.pos ≠ 10) :
    Matches (m.noteEnd.map (·.forward)) (m'.noteEnd.map (·.forward)) := by
  have hnote := h.noteEnd (Matching.tandem ht he isLoose)
  obtain ⟨hs, -, hlt⟩ := hnote.scan.advance ht he (by rwa [toCursor_noteEnd]) (by
    intro hend
    rw [toCursor_noteEnd] at hend ⊢
    exact noted_noteEnd_eq h.raw (h.scan.line ht) hend ((h.scan.atLineEnd ht hb).trans hend))
  exact ⟨hs, fun hp => hnote.scan_change (hlt hp) Scanner.Reach.refl.forward hnote.token⟩

/-- At a line feed the second machine passes the carriage return before it, and does in another
round what the first does. -/
theorem Paired.matches_feed (g : Settings) (h : Paired (Matching isLoose) m m') (hcalm : m.Calm)
    (hb : t.byteAt m.scan.pos = 10) :
    ∃ r', (engine g).Comes (m'.noteEnd.map (·.forward)) r'
      ∧ Matches (m.noteEnd.map (·.forward)) r' := by
  have hfeed : AtFeed m.scan (m'.map (·.forward)).scan := h.scan.atFeed ht he hb
  have hbrief := hcalm.brief h.scan.sync hfeed.atLineEnd
  have hstep : (m'.map (·.forward)).step g = (m'.map (·.forward)).saveLine.map (·.forward) := by
    rw [step_of_not_sign g (by rw [hfeed.ch' ht]; rfl) (Or.inl (by rw [hfeed.token]; exact hbrief))
      (fun _ => hfeed.atTerminator' ht) (fun d hd => (h.fits d (h.raw ▸ hd)).1),
      noteEnd_of_atLineEnd (hfeed.atLineEnd' ht)]
  have hcomes := Engine.Comes.single (E := engine g) (m := m'.map (·.forward)) (hfeed.more' ht)
  rw [show (engine g).round (m'.map (·.forward)) = _ from hstep] at hcomes
  rw [noteEnd_of_not_atLineEnd (h.scan.atLineEnd_return ht hb), noteEnd_of_atLineEnd hfeed.atLineEnd]
  have hnote : AtFeed m.saveLine.scan (m'.map (·.forward)).saveLine.scan :=
    (hfeed.note _).note' _
  have hraw : (m'.map (·.forward)).raw = m.raw := h.raw
  obtain ⟨hs, hlt⟩ := hnote.forward ht isLoose he (noted_saveLine_eq hraw hfeed.line)
  exact ⟨_, hcomes, hs, fun hp => h.scan_change (hlt (isLoose_of_brief hbrief) hp)
    (Scanner.Reach.refl.note _).forward h.token⟩

/-- The second machine catches up with what is left of a round of the first. -/
theorem Paired.matches_finishRound (g : Settings) (h : Paired (Matching isLoose) m m')
    (hcalm : m.Calm) :
    ∃ r', (engine g).Comes m'.finishRound r' ∧ Matches m.finishRound r' := by
  obtain ⟨hs, hc⟩ := h.settle (Matching.tandem ht he isLoose) hcalm
  by_cases hb : t.byteAt m.settle.scan.pos = 10
  · exact hs.matches_feed ht he g hc hb
  · exact ⟨_, .refl, hs.matches_note ht he hb⟩

omit he in
/-- Where the text is over both make at most a note. -/
theorem matches_finishRound_of_size_lt (h : Matched 0 m.scan m'.scan) (hsync : m.scan.InSync)
    (hsync' : m'.scan.InSync) (hgt : t.size < m.scan.pos) :
    Matches m.finishRound m'.finishRound := by
  have hpos := h.pos
  have hgt' : t.crlf.size < m'.scan.pos := by
    have := Text.crlfPos_lt (t := t) hgt
    rw [Text.size_crlf ht]
    omega
  obtain ⟨heq, hno⟩ := finishRound_of_size_lt hsync hgt
  obtain ⟨heq', -⟩ := finishRound_of_size_lt hsync' hgt'
  have hline' : m'.scan.line = t.lineAt m.scan.pos := by
    rw [hsync'.line, hpos, Nat.add_zero, Text.lineAt_crlfPos ht]
  have hnote : Matched 0 m.noteEnd.scan m'.noteEnd.scan := by
    have hright {s : Scanner t} (hs : Matched 0 s m'.scan) (hsame : s.pos = m.scan.pos) :
        Matched 0 s m'.noteEnd.scan := by
      rw [noteEnd]
      split
      · exact hs.note' (by rw [hsame]; exact hline') _
      · exact hs
    rw [noteEnd]
    split
    · exact hright (h.note hsync.line _) rfl
    · exact hright h rfl
  have hle := m.noteEnd.scan.toCursor.pos_le_forward
  rw [toCursor_noteEnd] at hle
  rw [heq, heq']
  refine ⟨hnote.forward_of_not_more ht hno, fun hlt => ?_⟩
  have hlt : m.noteEnd.scan.forward.pos < t.size + 1 := hlt
  rw [Scanner.toCursor_forward, toCursor_noteEnd] at hlt
  omega

/-! ## 2. Open percent operators -/

/-- A percent operator left open at a line feed: the second machine passes the carriage return
in it before. -/
theorem Paired.matches_leaveOpen_feed (g : Settings) (h : Paired (Matching isLoose) m m')
    (htoken : m.scan.token = .percentOperator) (hb : t.byteAt m.scan.pos = 10) :
    ∃ r', (engine g).Comes (m'.step g) r' ∧ Matches m.leaveOpen.finishRound r' := by
  have hreturn := h.scan.atLineEnd_return ht hb
  have hfeed : AtFeed m.scan (m'.map (·.forward)).scan := h.scan.atFeed ht he hb
  have htoken' : m'.scan.token = .percentOperator := h.scan.token.trans htoken
  have hch' : (m'.map (·.forward)).scan.ch = 10 := hfeed.ch' ht
  -- over the carriage return
  have hfirst : m'.step g = m'.map (·.forward) := by
    rw [step_of_not_sign g (by rw [(h.scan.return_feed ht he hb).1]; rfl)
      (Or.inr ⟨htoken', hreturn⟩) (fun hc => by rw [htoken'] at hc; cases hc)
      (fun d hd => (h.fits d (h.raw ▸ hd)).1), noteEnd_of_not_atLineEnd hreturn]
  -- and over the line feed
  have hsecond : (m'.map (·.forward)).step g = (m'.map (·.forward)).leaveOpen.finishRound := by
    rw [step_eq, endToken_eq_leaveOpen (m := m'.map (·.forward)) g htoken'
      (Scanner.sees_eq_false (by rw [hch']; rfl) (by decide)) (hfeed.atLineEnd' ht)]
  have hcomes := Engine.Comes.single (E := engine g) (m := m'.map (·.forward)) (hfeed.more' ht)
  rw [show (engine g).round (m'.map (·.forward)) = _ from hsecond] at hcomes
  have hmark := h.scan.sameMark (by rw [htoken]; rfl)
  have hopen : AtFeed (m.saveLine.scan.relabel .openPercentOperator)
      ((m'.map (·.forward)).saveLine.scan.relabel .openPercentOperator) :=
    ((hfeed.note _).note' _).relabel ⟨hmark.mark, hmark.solid⟩ _
  have hraw : (m'.map (·.forward)).raw = m.raw := h.raw
  obtain ⟨-, hlt⟩ := hopen.forward ht isLoose he (noted_saveLine_eq hraw hfeed.line)
  have hpos : (m.saveLine.scan.relabel .openPercentOperator).forward.pos < t.size + 1 := by
    have hsize := hfeed.lt_size
    have hforward := hfeed.sync.forward_pos_of_eightBit he hfeed.more
    show m.scan.toCursor.forward.pos < _
    omega
  have hreach : m.scan.Reach m.leaveOpen.scan :=
    ((Scanner.Reach.refl.note _).relabel _).forwardSwitch _
  have hpair : Paired (Matching isLoose) m.leaveOpen (m'.map (·.forward)).leaveOpen :=
    { scan := ((hlt rfl hpos).switch ht .plain).1
      raw := h.raw
      fits := fun d hd => ⟨(h.fits d hd).1, Nat.le_trans (h.fits d hd).2 hreach.pos_le⟩
      token := by show Token.plain ≠ _; decide }
  obtain ⟨r', hr', hr⟩ := hpair.matches_finishRound ht he g (calm_of_token rfl)
  exact ⟨r', hfirst ▸ hcomes.trans hr', hr⟩

/-- One left open at the end of the text. -/
theorem Paired.matches_leaveOpen_end (g : Settings) (h : Paired (Matching isLoose) m m')
    (htoken : m.scan.token = .percentOperator) (hs : m.scan.sees '%' = false)
    (hend : m.scan.atLineEnd = true) (hb : t.byteAt m.scan.pos ≠ 10) :
    Matches m.leaveOpen.finishRound (m'.step g) := by
  have T := Matching.tandem ht he isLoose
  rw [step_eq, endToken_eq_leaveOpen g (h.scan.token.trans htoken)
    ((T.sees h.scan (by decide)).trans hs) ((h.scan.atLineEnd ht hb).trans hend)]
  have hmark := h.scan.sameMark (by rw [htoken]; rfl)
  have hnote : Matching isLoose m.saveLine.scan m'.saveLine.scan := T.note' _ (T.note _ h.scan)
  obtain ⟨hopen, -⟩ := hnote.relabel ⟨hmark.mark, hmark.solid⟩ .openPercentOperator
  obtain ⟨hforward, -⟩ := hopen.advance ht he hb fun _ => noted_saveLine_eq h.raw (h.scan.line ht)
  have hsize : t.size ≤ m.scan.pos := by
    have hno : (t.byteAt m.scan.pos == '\n'.toNat) = false := beq_eq_false_iff_ne.2 hb
    rw [h.scan.sync.atLineEnd, Text.lineEndsAt, Text.breaksAfter_eq ht, hno, Bool.false_or,
      decide_eq_true_iff] at hend
    exact hend
  have hmoved := h.scan.sync.toMeasured.pos_lt_forward h.scan.more
  refine matches_finishRound_of_size_lt ht (hforward.switch ht .plain) ?_ ?_ ?_
  · rw [toCursor_leaveOpen]
    exact h.scan.sync.forward h.scan.more
  · rw [toCursor_leaveOpen]
    exact h.scan.sync'.forward (h.scan.more' ht)
  · rw [toCursor_leaveOpen]
    exact Nat.lt_of_le_of_lt hsize hmoved

/-! ## 3. Rounds -/

/-- The second machine catches up with every round of the first. -/
theorem Matches.step (g : Settings) (h : Matches m m') (hmore : m.scan.more = true) :
    ∃ r', (engine g).Comes m' r' ∧ Matches (m.step g) r' := by
  have T := Matching.tandem ht he isLoose
  have hlt : m.scan.pos < t.size + 1 := h.scan.stop ▸ Cursor.more_iff.1 hmore
  have hp := h.paired hlt
  suffices hsuff : ∃ r', (engine g).Comes (m'.step g) r' ∧ Matches (m.step g) r' by
    obtain ⟨r', hcomes, hr⟩ := hsuff
    exact ⟨r', (Engine.Comes.single (E := engine g) (hp.scan.more' ht)).trans hcomes, hr⟩
  by_cases hopen : m.scan.token = .percentOperator ∧ m.scan.sees '%' = false
      ∧ m.scan.atLineEnd = true
  · obtain ⟨htoken, hs, hend⟩ := hopen
    rw [step_eq g m, endToken_eq_leaveOpen g htoken hs hend]
    by_cases hb : t.byteAt m.scan.pos = 10
    · exact hp.matches_leaveOpen_feed ht he g htoken hb
    · exact ⟨_, .refl, hp.matches_leaveOpen_end ht he g htoken hs hend hb⟩
  · rw [step_eq, step_eq]
    obtain ⟨hpair, hcalm⟩ := hp.endToken T g (fun _ => hp.scan.atTerminator ht) (by
      intro htoken
      cases hs : m.scan.sees '%' with
      | true => exact Or.inl rfl
      | false =>
        have hend : m.scan.atLineEnd = false :=
          Bool.eq_false_iff.2 fun hend => hopen ⟨htoken, hs, hend⟩
        refine Or.inr ⟨hend, (hp.scan.atLineEnd ht fun hb => ?_).trans hend⟩
        rw [(hp.scan.atFeed ht he hb).atLineEnd] at hend
        cases hend)
    exact hpair.matches_finishRound ht he g hcalm

end Machine

/-! ## 4. The whole run -/

variable {t : Text}

/-- A text and the same text with CRLF for LF lead to the same tokens and states. -/
theorem whole_crlf (g : Settings) (ht : t.NoReturns) (he : t.encoding = .eightBit) :
    Styling.Moved t ((engine g).whole t) ((engine g).whole t.crlf) := by
  apply (sound g).whole_crlf (L := Machine.Matches) ht
  · exact fun _ _ h => h.scan
  · exact fun _ _ h hmore => h.step ht he g hmore
  · exact Machine.matches_start t

end R

end Restyle
