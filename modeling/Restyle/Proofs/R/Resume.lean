/-
Restyle.Proofs.R.Resume — the R lexer can start again at every line start.

Machines that are `Like` agree on the raw string at hand and differ at
most in where their open spans start. Every round keeps that
(`like_step`), in three parts: ending a token, starting one, and the note
and move at the end.

Ending a percent operator that its line leaves open moves over the line
end before the other parts, so a round can come to `k` in its middle
(`Within.endToken_cases`). The token is plain then, and there is nothing
that another round would end.

A machine carries over a line end only its token and how its raw string
will close. That fits its place in texts shorter than 2^23.
-/
import Restyle.Proofs.Engine.Lockstep
import Restyle.Proofs.Packing
import Restyle.Proofs.R.Tandem

namespace Restyle

namespace R

theorem fits_of_isClosing {d : Delimiter} (h : isClosing d.close = true)
    (hdashes : d.dashes < 2 ^ 23) : d.Fits := by
  have hbounds : 0 < d.close ∧ d.close < 256 := by
    simp only [isClosing, Ascii.oneOf, List.any_cons, List.any_nil, Bool.or_eq_true,
      beq_iff_eq, Bool.or_false] at h
    rcases h with hc | hc | hc <;> rw [← hc] <;> decide
  exact ⟨hbounds.1, hbounds.2, hdashes⟩

namespace Machine

open Scanner (Inside Tandem)

variable {t t' : Text} {o k : Nat} {m : Machine t} {m' : Machine t'}

/-! ## 1. Like machines -/

/-- The machines say the same from `o` on and will do the same up to `k`. -/
structure Like (o k : Nat) (m : Machine t) (m' : Machine t') : Prop where
  scan : Scanner.Abreast isLoose o k m.scan m'.scan
  raw : m'.raw = m.raw
  fits : ∀ d ∈ m.raw, isClosing d.close = true ∧ d.dashes ≤ m.scan.pos
  token : m.scan.token ≠ .openPercentOperator

/-- Like machines that have not come to `k`. -/
structure Within (o k : Nat) (m : Machine t) (m' : Machine t') : Prop extends Like o k m m' where
  lt : m.scan.pos < k

/-- The closing of the raw string is noted for `line`. -/
def Saved (m : Machine t) (line : Nat) : Prop :=
  m.scan.noted line = some (LineState.pack m.raw)

/-- The token in which a range starts after a byte of `token`. -/
def opening (token : Token) : Token := if token = .openPercentOperator then .plain else token

theorem isLoose_of_brief {token : Token} (h : isBrief token = false) : isLoose token = false := by
  cases token <;> first | rfl | cases h

theorem opening_of_ne {token : Token} (h : token ≠ .openPercentOperator) : opening token = token :=
  if_neg h

theorem opening_cases {token own : Token} (h : opening token = own) :
    token = own ∨ (token = .openPercentOperator ∧ own = .plain) := by
  rw [opening] at h
  split at h
  · rename_i hopen
    exact Or.inr ⟨hopen, h.symm⟩
  · exact Or.inl h

/-- The machine has just come over a line end: its token is told by that of the byte
before, its raw string by the state of the line before. -/
structure Arrived (m : Machine t) : Prop where
  token : isLoose m.scan.token = false
  look : ∃ token, m.scan.look (m.scan.pos - 1) = some token ∧ opening token = m.scan.token
  saved : m.Saved (m.scan.line - 1)

/-- The machine with a note of its raw string if it stands at the end of its line. -/
def noteEnd (m : Machine t) : Machine t := if m.scan.atLineEnd then m.saveLine else m

theorem saved_saveLine (m : Machine t) : m.saveLine.Saved m.scan.line := by
  rw [Saved, saveLine, map, Scanner.noted_noteHere, if_pos rfl]

/-- Machines that remember the same note the same for a line. -/
theorem noted_saveLine_eq (hraw : m'.raw = m.raw) (hline : m'.scan.line = m.scan.line) :
    m'.saveLine.scan.noted m.scan.line = m.saveLine.scan.noted m.scan.line := by
  have hsaved := m.saved_saveLine
  have hsaved' := m'.saved_saveLine
  rw [hline, Saved, show m'.saveLine.raw = m.saveLine.raw from hraw] at hsaved'
  exact hsaved'.trans hsaved.symm

namespace Within

variable (h : Within o k m m')
include h

theorem inside : Inside isLoose o k m.scan m'.scan := ⟨h.scan, h.lt⟩

/-- Like machines before `k` go in tandem. -/
theorem paired : Paired (Inside isLoose o k) m m' where
  scan := h.inside
  raw := h.raw
  fits := h.fits
  token := h.token

omit h in
theorem of_paired (h : Paired (Inside isLoose o k) m m') : Within o k m m' where
  scan := h.scan.toAbreast
  raw := h.raw
  fits := h.fits
  token := h.token
  lt := h.scan.lt

/-- A token ends inside its line, unless it is a percent operator that the line leaves
open. -/
theorem endToken (g : Settings)
    (hp : m.scan.token = .percentOperator →
      m.scan.sees '%' = true ∨ m.scan.atLineEnd = false) :
    Within o k (m.endToken g) (m'.endToken g) ∧ (m.endToken g).Calm := by
  obtain ⟨hpair, hcalm⟩ := h.paired.endToken (Inside.tandem _ _ isLoose o k) g
    (fun _ => h.inside.atTerminator)
    (fun ht => (hp ht).imp id fun hend => ⟨hend, h.inside.atLineEnd.trans hend⟩)
  exact ⟨of_paired hpair, hcalm⟩

/-- A token starts inside its line. -/
theorem settle (hcalm : m.Calm) : Within o k m.settle m'.settle ∧ m.settle.Calm := by
  obtain ⟨hpair, hcalm⟩ := h.paired.settle (Inside.tandem _ _ isLoose o k) hcalm
  exact ⟨of_paired hpair, hcalm⟩

end Within

/-! ## 2. Rounds -/

/-- The parts of a round after the first. -/
def finishRound (m : Machine t) : Machine t := m.settle.noteEnd.map (·.forward)

theorem step_eq (g : Settings) (m : Machine t) : m.step g = (m.endToken g).finishRound := rfl

@[simp] theorem raw_noteEnd (m : Machine t) : m.noteEnd.raw = m.raw := by
  rw [noteEnd]; split <;> rfl

@[simp] theorem toCursor_noteEnd (m : Machine t) :
    m.noteEnd.scan.toCursor = m.scan.toCursor := by
  rw [noteEnd]; split <;> rfl

@[simp] theorem token_noteEnd (m : Machine t) : m.noteEnd.scan.token = m.scan.token := by
  rw [noteEnd]; split <;> rfl

@[simp] theorem mark_noteEnd (m : Machine t) : m.noteEnd.scan.mark = m.scan.mark := by
  rw [noteEnd]; split <;> rfl

theorem noteEnd_of_atLineEnd (hend : m.scan.atLineEnd = true) : m.noteEnd = m.saveLine := if_pos hend

theorem noteEnd_of_not_atLineEnd (hend : m.scan.atLineEnd = false) : m.noteEnd = m := by
  rw [noteEnd, hend, if_neg Bool.false_ne_true]

theorem settle_cases (m : Machine t) : m.settle = m ∨ m.settle = m.startToken := by
  rw [settle]
  split
  · exact Or.inr rfl
  · exact Or.inl rfl

theorem reach_settle (m : Machine t) : m.scan.Reach m.settle.scan := by
  rcases m.settle_cases with heq | heq <;> rw [heq]
  · exact .refl
  · exact reach_startToken m

theorem reach_finishRound (m : Machine t) : m.scan.Reach m.finishRound.scan := by
  have hnote : m.settle.scan.Reach m.settle.noteEnd.scan := by
    rw [noteEnd]
    split
    · exact reach_saveLine _
    · exact .refl
  exact (m.reach_settle.trans hnote).forward

/-- Over what is no sign a round only notes and moves, if it does not end the token. -/
theorem step_of_not_sign (g : Settings) (hc : Scanner.isSign m.scan.ch = false)
    (ht : isBrief m.scan.token = false
      ∨ (m.scan.token = .percentOperator ∧ m.scan.atLineEnd = false))
    (hterm : m.scan.token = .lineComment → m.scan.atTerminator = false)
    (hraw : ∀ d ∈ m.raw, isClosing d.close = true) : m.step g = m.noteEnd.map (·.forward) := by
  rw [step_eq, endToken_of_not_sign hc g ht hterm hraw, finishRound, settle_of_not_sign hc]

/-- Where the text is over a round that starts no token makes at most a note, and stays. -/
theorem finishRound_of_size_lt (hsync : m.scan.InSync) (hgt : t.size < m.scan.pos) :
    m.finishRound = m.noteEnd.map (·.forward) ∧ m.noteEnd.scan.more = false := by
  have hc : Scanner.isSign m.scan.ch = false := by
    rw [hsync.ch, t.charAt_of_byteAt_lt (by rw [t.byteAt_eq_zero (by omega)]; decide),
      t.byteAt_eq_zero (by omega)]
    rfl
  refine ⟨by rw [finishRound, settle_of_not_sign hc], ?_⟩
  have := hsync.stop_le
  rw [toCursor_noteEnd, Cursor.more, decide_eq_false_iff_not]
  omega

/-- A note makes no difference to the other machine. -/
theorem Paired.noteEnd {R Q : Scanner t → Scanner t' → Prop} (T : Tandem isLoose k R Q)
    (h : Paired R m m') : Paired R m.noteEnd m'.noteEnd where
  scan := by
    have hright {s : Scanner t} (hs : R s m'.scan) : R s m'.noteEnd.scan := by
      rw [Machine.noteEnd]
      split
      · exact T.note' _ hs
      · exact hs
    rw [Machine.noteEnd]
    split
    · exact hright (T.note _ h.scan)
    · exact hright h.scan
  raw := by simpa using h.raw
  fits := by simpa using h.fits
  token := by simpa using h.token

theorem saved_noteEnd (hend : m.scan.atLineEnd = true) : m.noteEnd.Saved m.scan.line := by
  rw [noteEnd_of_atLineEnd hend]
  exact saved_saveLine m

theorem noted_noteEnd_eq (hraw : m'.raw = m.raw) (hline : m'.scan.line = m.scan.line)
    (hend : m.scan.atLineEnd = true) (hend' : m'.scan.atLineEnd = true) :
    m'.noteEnd.scan.noted m.scan.line = m.noteEnd.scan.noted m.scan.line := by
  rw [noteEnd_of_atLineEnd hend, noteEnd_of_atLineEnd hend']
  exact noted_saveLine_eq hraw hline

/-- A move over a line end after a note. -/
theorem arrived_forward (hsync : m.scan.InSync) (hmore : m.scan.more = true)
    (hmark : m.scan.mark ≤ m.scan.pos) (hend : m.scan.atLineEnd = true)
    (hl : isLoose m.scan.token = false) (ht : m.scan.token ≠ .openPercentOperator)
    (hsaved : m.Saved m.scan.line) : (m.map (·.forward)).Arrived := by
  have hlt : m.scan.pos < m.scan.forward.pos := hsync.toMeasured.pos_lt_forward hmore
  have hline : m.scan.forward.line = m.scan.line + 1 := by
    rw [Scanner.toCursor_forward, Cursor.forward_line hmore, if_pos hend]
  refine { token := hl, look := ⟨m.scan.token, ?_, opening_of_ne ht⟩, saved := ?_ }
  · show m.scan.look (m.scan.forward.pos - 1) = _
    exact Scanner.look_of_le (by omega)
  · show m.scan.noted (m.scan.forward.line - 1) = _
    rw [hline]
    exact hsaved

/-- The note and the move at the end of a round. -/
theorem Within.noteEnd_forward (h : Within o k m m') (hcalm : m.Calm) :
    Like o k (m.noteEnd.map (·.forward)) (m'.noteEnd.map (·.forward))
      ∧ ((m.noteEnd.map (·.forward)).scan.pos = k →
        (m.noteEnd.map (·.forward)).Arrived ∧ (m'.noteEnd.map (·.forward)).Arrived) := by
  have hin := (h.paired.noteEnd (Inside.tandem _ _ isLoose o k)).scan
  have hend := h.inside.atLineEnd
  have hmark := h.scan.mark_le
  have hmark' := h.scan.mark_le'
  have hsaved (he : m.scan.atLineEnd = true) : m.noteEnd.Saved m.scan.line
      ∧ m'.noteEnd.Saved m'.scan.line := ⟨saved_noteEnd he, saved_noteEnd (hend.trans he)⟩
  have hnoted : m.noteEnd.scan.atLineEnd = true → ∃ state,
      m.noteEnd.scan.noted m.noteEnd.scan.line = some state
        ∧ m'.noteEnd.scan.noted m.noteEnd.scan.line = some state := by
    intro he
    rw [toCursor_noteEnd] at he ⊢
    obtain ⟨hs, hs'⟩ := hsaved he
    rw [Saved, raw_noteEnd, h.raw, h.inside.cursor.line] at hs'
    rw [Saved, raw_noteEnd] at hs
    exact ⟨_, hs, hs'⟩
  have hpos : m.scan.pos ≤ m.noteEnd.scan.forward.pos := by
    have hle := m.noteEnd.scan.toCursor.pos_le_forward
    rw [toCursor_noteEnd] at hle
    simpa using hle
  refine ⟨{ scan := hin.forward hnoted, raw := ?_, fits := ?_, token := ?_ }, ?_⟩
  · simpa [map] using h.raw
  · intro d hd
    obtain ⟨hclose, hle⟩ := h.fits d (by simpa [map] using hd)
    exact ⟨hclose, Nat.le_trans hle hpos⟩
  · show m.noteEnd.scan.token ≠ _
    rw [token_noteEnd]
    exact h.token
  · intro hk
    have hcross : m.scan.atLineEnd = true := by
      cases he : m.scan.atLineEnd with
      | true => rfl
      | false =>
        have hlt := (hin.forward_of_atLineEnd (by rw [toCursor_noteEnd]; exact he)).lt
        have hk : m.noteEnd.scan.forward.pos = k := hk
        omega
    obtain ⟨hs, hs'⟩ := hsaved hcross
    have hl := isLoose_of_brief (hcalm.brief h.inside.cursor.sync hcross)
    constructor
    · exact arrived_forward hin.cursor.sync (hin.cursor.more hin.lt) (by simp; omega)
        (by simpa using hcross) (by simpa using hl) (by simpa using h.token)
        (by simpa using hs)
    · exact arrived_forward hin.cursor.sync' (hin.cursor.more' hin.lt) (by simp; omega)
        (by simpa using hend.trans hcross)
        (by simpa [h.inside.token] using hl) (by simpa [h.inside.token] using h.token)
        (by simpa using hs')

/-- What is left of a round of like machines before `k`. -/
theorem Within.finishRound (h : Within o k m m') (hcalm : m.Calm) :
    Like o k m.finishRound m'.finishRound
      ∧ (m.finishRound.scan.pos = k → m.finishRound.Arrived ∧ m'.finishRound.Arrived) := by
  obtain ⟨hs, hc⟩ := h.settle hcalm
  exact hs.noteEnd_forward hc

/-! ### Leaving a percent operator open -/

/-- The machine behind the end of a line that leaves its percent operator open. -/
def leaveOpen (m : Machine t) : Machine t :=
  m.saveLine.map fun s => (s.relabel .openPercentOperator).forwardSwitch .plain

theorem endToken_eq_leaveOpen (g : Settings) (ht : m.scan.token = .percentOperator)
    (hs : m.scan.sees '%' = false) (hend : m.scan.atLineEnd = true) :
    m.endToken g = m.leaveOpen := by
  rw [endToken, ht]
  dsimp only
  rw [percentOperator, hs, if_neg Bool.false_ne_true, if_pos hend]
  rfl

@[simp] theorem toCursor_leaveOpen (m : Machine t) :
    m.leaveOpen.scan.toCursor = m.scan.toCursor.forward := Scanner.toCursor_switch ..

/-- No token is open then, so another round goes on in the same way. -/
theorem step_leaveOpen (g : Settings) (h : m.endToken g = m.leaveOpen) :
    m.leaveOpen.step g = m.step g := by
  have hstay : m.leaveOpen.endToken g = m.leaveOpen := by
    rw [endToken]
    rfl
  rw [step_eq, step_eq, h, hstay]

theorem mark_leaveOpen (hmark : m.scan.mark ≤ min m.scan.pos t.size) :
    m.leaveOpen.scan.mark = min m.leaveOpen.scan.pos t.size := by
  have hpos := m.scan.toCursor.pos_le_forward
  show ((m.saveLine.scan.relabel .openPercentOperator).forward.switch .plain).mark
    = min ((m.saveLine.scan.relabel .openPercentOperator).forward.switch .plain).pos t.size
  rw [Scanner.mark_switch, Scanner.toCursor_switch]
  show max m.scan.mark (min m.scan.forward.pos t.size) = min m.scan.forward.pos t.size
  simp only [Scanner.toCursor_forward]
  omega

/-- The bytes from where the operator starts to behind the line end are painted as left open. -/
theorem look_leaveOpen {p : Nat} (hmark : m.scan.mark ≤ p) (hp : p < m.scan.forward.pos)
    (hs : p < t.size) : m.leaveOpen.scan.look p = some .openPercentOperator := by
  show ((m.saveLine.scan.relabel .openPercentOperator).forward.switch .plain).look p = _
  rw [Scanner.look_switch _ _ (by exact hp) hs, Scanner.look_forward, Scanner.look_relabel]
  exact if_pos hmark

theorem arrived_leaveOpen (hsync : m.scan.InSync) (hmore : m.scan.more = true)
    (hmark : m.scan.mark ≤ min m.scan.pos t.size) (hend : m.scan.atLineEnd = true) :
    m.leaveOpen.Arrived := by
  have hlt : m.scan.pos < m.scan.forward.pos := hsync.toMeasured.pos_lt_forward hmore
  have hline : m.scan.forward.line = m.scan.line + 1 := by
    rw [Scanner.toCursor_forward, Cursor.forward_line hmore, if_pos hend]
  have hcursor : m.leaveOpen.scan.toCursor = m.scan.forward.toCursor := m.toCursor_leaveOpen
  have hnoted (line : Nat) : m.leaveOpen.scan.noted line = m.saveLine.scan.noted line :=
    Scanner.noted_switch ..
  refine { token := rfl, look := ?_, saved := ?_ }
  · rw [hcursor]
    by_cases hs : m.scan.forward.pos - 1 < t.size
    · exact ⟨.openPercentOperator, look_leaveOpen (by omega) (by omega) hs, rfl⟩
    · refine ⟨.plain, Scanner.look_of_le ?_, rfl⟩
      rw [mark_leaveOpen hmark]
      omega
  · rw [Saved, hnoted, hcursor, hline]
    exact m.saved_saveLine

/-- Machines that leave a percent operator open come over the line end in the middle of
their round. -/
theorem Within.leaveOpen (h : Within o k m m') (ht : m.scan.token = .percentOperator) :
    Like o k m.leaveOpen m'.leaveOpen := by
  have hin := h.inside
  have hmark := hin.mark (by rw [ht]; rfl)
  have hnote : Inside isLoose o k m.saveLine.scan m'.saveLine.scan := by
    rw [saveLine, saveLine, h.raw]
    exact hin.note _
  have hs : Scanner.Abreast isLoose o k
      (m.saveLine.scan.relabel .openPercentOperator).forward
      (m'.saveLine.scan.relabel .openPercentOperator).forward := by
    refine (hnote.relabel hmark .openPercentOperator).forward ?_
    intro _
    have hsaved := m'.saved_saveLine
    rw [hin.cursor.line] at hsaved
    refine ⟨_, m.saved_saveLine, ?_⟩
    rw [show m.saveLine.raw = m'.saveLine.raw from h.raw.symm]
    exact hsaved
  have hpos : m.leaveOpen.scan.pos = m.scan.forward.pos :=
    congrArg Cursor.pos (Scanner.toCursor_switch ..)
  refine { scan := (hs.switch .plain).1, raw := h.raw, fits := ?_, token := ?_ }
  · intro d hd
    obtain ⟨hclose, hle⟩ := h.fits d hd
    rw [hpos]
    exact ⟨hclose, Nat.le_trans hle m.scan.toCursor.pos_le_forward⟩
  · show Token.plain ≠ _
    decide

/-- The token at hand ends before `k`, or it is a percent operator that its line leaves open
and the machines come to `k` with that. -/
theorem Within.endToken_cases (g : Settings) (h : Within o k m m') :
    (Within o k (m.endToken g) (m'.endToken g) ∧ (m.endToken g).Calm)
      ∨ ((m.endToken g = m.leaveOpen ∧ m'.endToken g = m'.leaveOpen)
        ∧ m.scan.atLineEnd = true ∧ Like o k m.leaveOpen m'.leaveOpen
        ∧ m.leaveOpen.scan.pos = k) := by
  have hin := h.inside
  by_cases hopen : m.scan.token = .percentOperator ∧ m.scan.sees '%' = false
      ∧ m.scan.atLineEnd = true
  · obtain ⟨ht, hs, hend⟩ := hopen
    have heq := endToken_eq_leaveOpen g ht hs hend
    have heq' := endToken_eq_leaveOpen g (hin.token.trans ht) ((hin.sees '%').trans hs)
      (hin.atLineEnd.trans hend)
    have hlike := h.leaveOpen ht
    rcases Nat.lt_or_eq_of_le hlike.scan.cursor.pos_le with hlt | hk
    · rw [heq, heq']
      exact Or.inl ⟨Within.mk hlike hlt, calm_of_token rfl⟩
    · exact Or.inr ⟨⟨heq, heq'⟩, hend, hlike, hk⟩
  · left
    apply h.endToken g
    intro ht
    cases hs : m.scan.sees '%' with
    | true => exact Or.inl rfl
    | false =>
      right
      exact Bool.eq_false_iff.2 fun hend => hopen ⟨ht, hs, hend⟩

/-- Every round of like machines ends in like machines, or comes to `k` when it leaves a
percent operator open and ends as a round from there. -/
theorem like_step (g : Settings) (h : Like o k m m') (hlt : m.scan.pos < k) :
    (Like o k (m.step g) (m'.step g)
      ∧ ((m.step g).scan.pos = k → (m.step g).Arrived ∧ (m'.step g).Arrived))
    ∨ ∃ (n : Machine t) (n' : Machine t'), Like o k n n' ∧ n.scan.pos = k
      ∧ (n.step g = m.step g ∧ n.scan.mark = min k t.size ∧ n.Arrived)
      ∧ (n'.step g = m'.step g ∧ n'.scan.mark = min k t'.size ∧ n'.Arrived) := by
  have hw : Within o k m m' := ⟨h, hlt⟩
  have hin := hw.inside
  rcases hw.endToken_cases g with ⟨he, hcalm⟩ | ⟨⟨heq, heq'⟩, hend, hlike, hk⟩
  · left
    rw [step_eq, step_eq]
    exact he.finishRound hcalm
  · right
    have hend' := hin.atLineEnd.trans hend
    have hk' : m'.leaveOpen.scan.pos = k := hlike.scan.cursor.pos.trans hk
    refine ⟨_, _, hlike, hk, ⟨step_leaveOpen g heq, ?_, ?_⟩, ⟨step_leaveOpen g heq', ?_, ?_⟩⟩
    · rw [mark_leaveOpen hin.mark_le, hk]
    · exact arrived_leaveOpen hin.cursor.sync (hin.cursor.more hlt) hin.mark_le hend
    · rw [mark_leaveOpen hin.mark_le', hk']
    · exact arrived_leaveOpen hin.cursor.sync' (hin.cursor.more' hlt) hin.mark_le' hend'

/-! ## 3. Where machines start -/

theorem Like.right (h : Like o k m m') : Like o k m' m' where
  scan := h.scan.right
  raw := rfl
  fits := by rw [h.raw, h.scan.cursor.pos]; exact h.fits
  token := by rw [h.scan.token]; exact h.token

theorem like_start {length length' : Nat}
    (h : Scanner.Abreast isLoose 0 k (Scanner.start t 0 length .plain)
      (Scanner.start t' 0 length' .plain)) :
    Like 0 k (start t 0 length .plain (LineState.unpack 0))
      (start t' 0 length' .plain (LineState.unpack 0)) where
  scan := h
  raw := rfl
  fits := by intro d hd; cases hd
  token := by show Token.plain ≠ _; decide

variable {k' : Nat}

/-- A machine that has arrived is like one that starts where it stands, in the token of the
byte before and after the state of the line before. -/
theorem Arrived.restart (ha : m.Arrived) (h : Like o k m m') (ht : t.size < 2 ^ 23)
    {length : Nat} (hk : t.IsStop k') (hlt : m.scan.pos < k')
    (hlen : m.scan.pos + length ≤ t.size) (hstop : k' ≤ m.scan.stop)
    (hstop' : k' ≤ (Cursor.start t m.scan.pos length).stop) :
    ∃ token raw, m.scan.look (m.scan.pos - 1) = some token
      ∧ m.scan.noted (m.scan.line - 1) = some raw
      ∧ Like m.scan.pos k' m (start t m.scan.pos length token (LineState.unpack raw)) := by
  obtain ⟨token, hlook, hopening⟩ := ha.look
  have hfits : ∀ d ∈ m.raw, d.Fits := by
    intro d hd
    obtain ⟨hclose, hle⟩ := h.fits d hd
    exact fits_of_isClosing hclose (by omega)
  refine ⟨token, _, hlook, ha.saved, ?_⟩
  rw [LineState.unpack_pack hfits]
  have hscan : (start t m.scan.pos length token m.raw).scan
      = Scanner.start t m.scan.pos length m.scan.token := by
    rw [start, ← hopening]
    rfl
  exact { scan := hscan ▸ h.scan.restart ha.token hk hlt hlen hstop hstop'
          raw := rfl, fits := h.fits, token := h.token }

end Machine

/-- The R lexer can start again at the line starts of texts shorter than 2^23. -/
def resumable (g : Settings) : (engine g).Resumable (2 ^ 23) where
  loose := isLoose
  Like := Machine.Like
  Arrived := Machine.Arrived
  abreast h := h.scan
  right h := h.right
  round h hlt := Machine.like_step g h hlt
  start h := Machine.like_start h
  restart h ha ht hk hlt hlen hstop hstop' := ha.restart h ht hk hlt hlen hstop hstop'
  finish {_ _ _ _ _ m _} h ha hk hle hstop :=
    ⟨m.map (·.finish), rfl,
      { scan := h.scan.self_finish ha.token hk hle hstop
        raw := rfl, fits := h.fits, token := h.token }⟩

end R

end Restyle
