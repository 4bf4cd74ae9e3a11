/-
Restyle.Proofs.R.Notes — where the R lexer notes line states.

A round makes its note last, on the line that it has come to. Signs take
it over no line end, so if it starts before the end of the range, and a
line starts there, it makes its note before there too (`spares_finish`).

Two things take a round over a line end before its note. A raw string
that closes with a line end does, but none is opened like that
(`ClosesInLine`). And ending a percent operator that its line leaves open
does: the round goes on at the line start, and makes a note there if a
line ends there again, or seems to end once the scanner has moved on from
the end of its range (`spills`). The machine has overrun its range then
(`step_cases`), and the run is over (`ends_cases`).
-/
import Restyle.Proofs.Engine.Walks
import Restyle.Proofs.R.Resume
import Restyle.Proofs.Scanner.Notes

namespace Restyle

namespace R

/-- Whether the line at `k` is empty, or starts with two characters that are taken at once: those
of a hexadecimal numeral, or a quote behind what may make it that of a raw string. -/
def spills (t : Text) (k : Nat) : Bool :=
  t.breaksAfter k
    || (t.byteAt k == '0'.toNat && Ascii.oneOf ['x', 'X'] (t.byteAt (k + 1)))
    || (Ascii.oneOf ['r', 'R'] (t.byteAt k)
      && Ascii.oneOf [Ascii.doubleQuote, Ascii.singleQuote] (t.byteAt (k + 1)))

namespace Machine

open Scanner (Alone Spares isSign)

variable {t : Text} {m e : Machine t} {g : Settings} {o k : Nat} {d : Delimiter} {quote : Char}

/-! ## 1. What makes no notes -/

@[simp] theorem lineStates_startRaw (m : Machine t) :
    m.startRaw.scan.lineStates = m.scan.lineStates := by
  rw [startRaw]
  split <;> simp

@[simp] theorem lineStates_settle (m : Machine t) :
    m.settle.scan.lineStates = m.scan.lineStates := by
  rcases m.settle_cases with heq | heq
  · rw [heq]
  · rcases m.startToken_cases with hstart | ⟨token, hstart⟩ | ⟨-, hstart⟩ | ⟨-, hstart⟩
    all_goals simp [heq, hstart, map]

/-! ## 2. Raw strings that close inside a line -/

/-- No line end closes the raw string at hand. -/
def ClosesInLine (m : Machine t) : Prop := ∀ d ∈ m.raw, d.close ≠ 10 ∧ d.close ≠ 13

/-- Ending a token only ever forgets a raw string. -/
theorem mem_raw_endToken (h : d ∈ (m.endToken g).raw) : d ∈ m.raw := by
  have hraw (quote : Char) (h : d ∈ (m.rawString quote).raw) : d ∈ m.raw := by
    rw [rawString] at h
    split at h
    · exact h
    · split at h
      · split at h
        · rename_i closed _ _
          cases closed with
          | true => cases h
          | false => exact h
        · exact h
      · exact h
  rw [endToken] at h
  split at h
  case h_4 => split at h <;> exact h
  case h_8 | h_9 => exact hraw _ h
  case h_10 =>
    rw [percentOperator] at h
    repeat' split at h
    all_goals exact h
  all_goals exact h

/-- A raw string that starts closes with a bracket. -/
theorem mem_raw_settle (h : d ∈ m.settle.raw) : d ∈ m.raw ∨ isClosing d.close = true := by
  have hstart (h : d ∈ m.startRaw.raw) : isClosing d.close = true := by
    rw [startRaw] at h
    split at h
    · rename_i d' hd
      obtain rfl : d' = d := Option.some.inj h
      exact isClosing_of_closingOf? (delimiterAt?_eq_some hd).1
    · cases h
  rcases m.settle_cases with heq | heq
  · rw [heq] at h
    exact Or.inl h
  · rw [heq] at h
    rcases m.startToken_cases with hm | ⟨token, hm⟩ | ⟨-, hm⟩ | ⟨-, hm⟩
    all_goals rw [hm] at h
    · exact Or.inl h
    · exact Or.inl h
    · exact Or.inl h
    · exact Or.inr (hstart h)

theorem ClosesInLine.step (h : m.ClosesInLine) : (m.step g).ClosesInLine := by
  intro d hd
  rw [step_eq] at hd
  have hd : d ∈ (m.endToken g).settle.noteEnd.raw := hd
  rw [raw_noteEnd] at hd
  rcases mem_raw_settle hd with hd | hclose
  · exact h d (mem_raw_endToken hd)
  · obtain ⟨-, hlf, hcr, -⟩ := Scanner.isSign_iff.1 (isSign_of_isClosing hclose)
    exact ⟨hlf, hcr⟩

/-! ## 3. Before the end of the range -/

section

variable (hq : isSign quote.toNat = true) (hd : d.close ≠ 10 ∧ d.close ≠ 13)
include hq hd

theorem alone_tryClose {s : Scanner t} (h : Alone k s s) (hch : s.ch = d.close) :
    Alone k (d.tryClose quote s).2 (d.tryClose quote s).2 := by
  have T := Alone.tandem t isLoose k
  have hend := h.spares.atLineEnd_eq_false h.more (by rw [hch]; exact hd.1)
    (by rw [hch]; exact hd.2)
  have hdashes := (tandem_passDashes T d.dashes (h.forward_of_not_atLineEnd hend)).2
  rw [Delimiter.tryClose]
  dsimp only
  split
  · rename_i hclose
    exact T.of_marked (T.switch _ (T.forward_of_sees hdashes hq hclose.2))
  · exact hdashes

theorem alone_closeRaw {s : Scanner t} {x : Bool × Scanner t} (h : Alone k s s)
    (hch : s.ch = d.close) (hx : d.closeRaw quote s = some x) : Alone k x.2 x.2 := by
  have htry {s r : Scanner t} {done : Bool} (hr : d.tryClose quote s = (done, r))
      (h : Alone k s s) (hch : s.ch = d.close) : Alone k r r := by
    have halone := alone_tryClose hq hd h hch
    rwa [hr] at halone
  refine closeRaw_induction (P := fun s x => Alone k s s → s.ch = d.close → Alone k x.2 x.2)
    ?_ ?_ ?_ hx h hch
  · exact fun s r hr => htry hr
  · exact fun s r hr _ => htry hr
  · exact fun s r x hr hagain ih h hch => ih (htry hr h hch) hagain

end

theorem alone_rawString (hq : isSign quote.toNat = true) (h : Alone k m.scan m.scan)
    (hraw : m.ClosesInLine) : Alone k (m.rawString quote).scan (m.rawString quote).scan := by
  rw [rawString]
  split
  · exact h
  · rename_i d hd
    split
    · rename_i hch
      split
      · rename_i hx
        exact alone_closeRaw hq (hraw d hd) h hch hx
      · exact h
    · exact h

/-- A token ends inside its line, unless it is a percent operator that the line leaves open. -/
theorem alone_endToken (h : Alone k m.scan m.scan) (hraw : m.ClosesInLine)
    (hp : m.scan.token = .percentOperator →
      m.scan.sees '%' = true ∨ m.scan.atLineEnd = false) :
    Alone k (m.endToken g).scan (m.endToken g).scan := by
  have T := Alone.tandem t isLoose k
  rw [endToken]
  split
  case h_1 => exact h.switch .plain
  case h_2 => exact tandem_numeral T h
  case h_3 htoken => exact tandem_word T h g (by rw [htoken]; rfl)
  case h_4 =>
    split
    · exact h.switch .plain
    · exact h
  case h_5 | h_6 | h_7 => exact tandem_quoted T h (by decide)
  case h_8 | h_9 => exact alone_rawString (by decide) h hraw
  case h_10 htoken =>
    rw [percentOperator]
    split
    · rename_i hs
      exact (T.forward_of_sees h (by decide) hs).switch .plain
    · rename_i hs
      rw [if_neg (by rw [(hp htoken).resolve_left hs]; exact Bool.false_ne_true)]
      exact h
  case h_11 => exact h

/-- A token starts inside its line. -/
theorem alone_settle (h : Alone k m.scan m.scan) : Alone k m.settle.scan m.settle.scan := by
  have T := Alone.tandem t isLoose k
  rw [settle]
  split
  · rename_i htoken
    rcases m.startToken_cases with heq | ⟨token, heq⟩ | ⟨hzero, heq⟩ | ⟨hraw, heq⟩
    · rw [heq]
      exact h
    · rw [heq]
      exact h.switch token
    · rw [heq]
      exact T.forward_of_sees (h.switch .number) (c := '0') (by decide)
        (by rw [Scanner.toCursor_switch]; exact (Bool.and_eq_true_iff.1 hzero).1)
    · -- the raw string at hand makes no difference to the one that starts
      have hpair : Paired (Alone k) { m with raw := none } { m with raw := none } :=
        ⟨h, rfl, fun d hd => absurd hd (Option.not_mem_none d), by rw [htoken]; decide⟩
      obtain ⟨hc, hn⟩ := Bool.and_eq_true_iff.1 hraw
      rw [heq]
      exact (hpair.startRaw T hc hn).1.scan
  · exact h

theorem spares_finish (h : Alone k m.scan m.scan) : m.finishRound.scan.Spares k := by
  have hsettle := alone_settle h
  have hnote : m.settle.noteEnd.scan.Spares k := by
    rw [noteEnd]
    split
    · exact hsettle.spares.note hsettle.more _
    · exact hsettle.spares
  exact hnote.forward

/-! ## 4. Over the end of the range -/

/-- Where nothing is taken two characters at a time the scanner stays. -/
theorem toCursor_settle
    (hzero : (m.scan.sees '0' && Ascii.oneOf ['x', 'X'] m.scan.next) = false)
    (hraw : (Ascii.oneOf ['r', 'R'] m.scan.ch
      && Ascii.oneOf [Ascii.doubleQuote, Ascii.singleQuote] m.scan.next) = false) :
    m.settle.scan.toCursor = m.scan.toCursor := by
  rcases m.settle_cases with heq | heq
  · rw [heq]
  · rw [heq]
    rcases m.startToken_cases with hm | ⟨token, hm⟩ | ⟨hyes, -⟩ | ⟨hyes, -⟩
    · rw [hm]
    · rw [hm]
      exact Scanner.toCursor_switch ..
    · exact absurd (hzero.symm.trans hyes) Bool.false_ne_true
    · exact absurd (hraw.symm.trans hyes) Bool.false_ne_true

/-- If the scanner then seems to stand at the end of a line, the line spills. -/
theorem spills_of_settle (hsync : m.scan.InSync) (hsize : m.scan.pos < t.size)
    (hend : m.settle.scan.atLineEnd = true) : spills t m.scan.pos = true := by
  by_contra hspills
  simp only [spills, Bool.or_eq_true, not_or, Bool.not_eq_true] at hspills
  obtain ⟨⟨hbreak, hzero⟩, hr⟩ := hspills
  have hzero' : (m.scan.sees '0' && Ascii.oneOf ['x', 'X'] m.scan.next) = false := by
    rw [Cursor.sees, Scanner.class_and_next hsync (p := (· == '0'.toNat))
      (fun c hc => by rw [beq_iff_eq.1 hc]; decide) (Scanner.signs ['x', 'X'] (by decide))]
    exact hzero
  have hr' : (Ascii.oneOf ['r', 'R'] m.scan.ch
      && Ascii.oneOf [Ascii.doubleQuote, Ascii.singleQuote] m.scan.next) = false := by
    rw [Scanner.class_and_next hsync (Scanner.signs ['r', 'R'] (by decide))
      (Scanner.signs [Ascii.doubleQuote, Ascii.singleQuote] (by decide))]
    exact hr
  rw [toCursor_settle hzero' hr', hsync.atLineEnd, Text.lineEndsAt, hbreak, Bool.false_or,
    decide_eq_true_eq] at hend
  omega

/-- The machine has come over the end of its range with a percent operator that the line before
leaves open, and may have noted a state for the line there. -/
structure Overran (k : Nat) (m : Machine t) : Prop where
  pos : 0 < k
  done : m.scan.more = false
  look : m.scan.look (k - 1) = some .openPercentOperator
  spills : spills t k = true

/-- At the end of its range a round makes a note only where the line there spills. -/
theorem finishRound_cases (h : m.scan.Spares k) (hpos : m.scan.pos = k) (hsync : m.scan.InSync)
    (hsize : k < t.size) (hmark : k ≤ m.scan.mark)
    (hlook : m.scan.look (k - 1) = some .openPercentOperator) (hk : 0 < k) :
    m.finishRound.scan.Spares k ∨ Overran k m.finishRound := by
  have hno : m.scan.more = false := Bool.eq_false_iff.2 fun hmore => by
    have hlt := h.more_iff.1 hmore
    omega
  have hsettle : m.settle.scan.Spares k := h.of_reach m.reach_settle (lineStates_settle m)
  cases hend : m.settle.scan.atLineEnd with
  | false =>
    left
    rw [finishRound, noteEnd_of_not_atLineEnd hend]
    exact hsettle.forward
  | true =>
    right
    refine ⟨hk, (m.reach_finishRound.line_of_not_more hno).1, ?_, ?_⟩
    · rw [m.reach_finishRound.look (by omega), hlook]
    · rw [← hpos]
      exact spills_of_settle hsync (by omega) hend

/-- A round that starts before the end of the range spares the line there, unless it overruns
it. -/
theorem step_cases (g : Settings) (h : m.scan.Spares k) (hsize : k < t.size)
    (hmore : m.scan.more = true) (hmark : m.scan.mark ≤ m.scan.pos) (hraw : m.ClosesInLine) :
    (m.step g).scan.Spares k ∨ Overran k (m.step g) := by
  have halone := h.alone hmore
  rw [step_eq]
  by_cases hopen : m.scan.token = .percentOperator ∧ m.scan.sees '%' = false
      ∧ m.scan.atLineEnd = true
  · obtain ⟨htoken, hsees, hend⟩ := hopen
    rw [endToken_eq_leaveOpen g htoken hsees hend]
    have hsave : m.saveLine.scan.Spares k := h.note hmore _
    have hleft : m.leaveOpen.scan.Spares k :=
      hsave.of_reach ((Scanner.Reach.refl.relabel _).forwardSwitch _)
        (Scanner.lineStates_forwardSwitch ..)
    cases hmore' : m.leaveOpen.scan.more with
    | true => exact Or.inl (spares_finish (hleft.alone hmore'))
    | false =>
      rw [toCursor_leaveOpen] at hmore'
      obtain ⟨hbefore, hpos, hsync⟩ := h.pos_of_not_more hmore hmore'
      have hleaves : m.leaveOpen.scan.pos = k := by rw [toCursor_leaveOpen]; exact hpos
      have hmark' := mark_leaveOpen (m := m) (by omega)
      apply finishRound_cases hleft hleaves (by rw [toCursor_leaveOpen]; exact hsync) hsize
        (by omega) _ (by omega)
      exact look_leaveOpen (by omega) (by omega) (by omega)
  · left
    apply spares_finish
    apply alone_endToken halone hraw
    intro htoken
    cases hsees : m.scan.sees '%' with
    | true => exact Or.inl rfl
    | false => exact Or.inr (Bool.eq_false_iff.2 fun hend => hopen ⟨htoken, hsees, hend⟩)

/-- A run to a line start spares the line there, unless its last round overruns it. -/
theorem ends_cases (hsize : k < t.size) (hends : (engine g).Ends m e)
    (h : m.scan.Spares k) (hpainted : m.scan.Painted o) (hraw : m.ClosesInLine) :
    e.scan.Spares k ∨ Overran k e := by
  rcases hends.exists_last
      (P := fun m : Machine t => m.scan.Spares k ∧ m.scan.Painted o ∧ m.ClosesInLine)
      ⟨h, hpainted, hraw⟩ with ⟨hspares, -⟩ | ⟨r, -, hmore, ⟨h, hpainted, hraw⟩, hlast, hrest⟩
  · exact Or.inl hspares
  · have hmark : r.scan.mark ≤ r.scan.pos := Nat.le_trans hpainted.mark_le (Nat.min_le_left ..)
    rcases step_cases g h hsize hmore hmark hraw with hspares | hover
    · exact absurd ⟨hspares, hpainted.reach ((sound g).reach r), hraw.step⟩ hlast
    · right
      rw [hrest.eq_of_not_more hover.done]
      exact hover

end Machine

end R

end Restyle
