/-
Restyle.Proofs.R.Termination — which loops of the R lexer end.

All do but one. The attempts to close a raw string go on as long as its
bracket is seen, and behind the end of a range only spaces are: so they
end if the bracket is none (`isSome_closeRaw`). Raw strings that the lexer
opens close with a bracket, which every round keeps (`Safe.step`), but a
number saved for a line may say that one closes with a space. Whether the
attempts to close it then come behind the end of the range depends on the
text alone (`runsOn_iff`).
-/
import Restyle.Proofs.R.RawStrings

namespace Restyle

namespace R

/-- The number saved for the line before opens a raw string that closes with a space, and before
anything has closed it a space and dashes take an attempt to close it over the end of the range
at `stop`. -/
def RunsOn (t : Text) (start stop : Nat) (token : Token) (saved : Option Delimiter) : Prop :=
  isRaw token = true ∧ ∃ d ∈ saved, d.close = 0x20 ∧ ∃ x, start ≤ x ∧ RunsOver t d stop x
    ∧ ∀ y, start ≤ y → y < x → ¬Closes t.byteAt (quoteOf token) d y

/-! ## 1. Attempts that run over the end -/

section

variable {t : Text} {d : Delimiter} {quote : Char} {stop o x : Nat}

section

variable (hapt : Apt quote d) (hover : RunsOver t d stop x)
include hapt hover

theorem RunsOver.not_closes : ¬Closes (seenAt t stop) quote d x := by
  intro hcloses
  obtain ⟨hcloses, hseen⟩ := (closes_seenAt_iff hapt).1 hcloses
  have hquote := hapt.quote
  have hclose := hapt.close
  have hlast := hcloses.quote
  obtain hstop : stop = x + 1 + d.dashes := Nat.le_antisymm hover.le hseen
  rw [← hstop] at hlast
  rcases hover.last with hlast' | ⟨-, hlt⟩ <;> omega

/-- Only one attempt runs over the end, and what closes a raw string before it is seen. -/
theorem RunsOver.clear_iff : Machine.Clear t stop quote d o x
    ↔ ∀ y, o ≤ y → y < x → ¬Closes t.byteAt quote d y := by
  have hclose := hapt.close
  have hbracket := hover.bracket
  have hdash : '-'.toNat = 45 := rfl
  constructor
  · intro h y hle hlt hcloses
    refine (h y hle hlt).1 ((closes_seenAt_iff hapt).2 ⟨hcloses, ?_⟩)
    -- the bracket at x is none of the dashes
    obtain ⟨i, rfl⟩ := Nat.exists_eq_add_of_le (show y + 1 ≤ x by omega)
    have hx := hover.lt
    by_contra hgt
    have hdashes := hcloses.dashes i (by omega)
    omega
  · intro h y hle hlt
    refine ⟨fun hseen => h y hle hlt ((closes_seenAt_iff hapt).1 hseen).1, fun _ hother => ?_⟩
    have hdashes := hother.dashes x hlt hover.lt
    omega

omit hapt in
theorem RunsOver.lt_size (hspace : d.close = 0x20) : stop < t.size := by
  have hdash : '-'.toNat = 45 := rfl
  refine t.lt_size_of_byteAt ?_
  rcases hover.last with hlast | ⟨hlast, -⟩ <;> omega

end

/-- A range that goes to the end of the text ends in no space. -/
theorem runsOver_stop_start {start length : Nat} (hspace : d.close = 0x20) :
    RunsOver t d (Cursor.start t start length).stop x ↔ RunsOver t d (start + length) x := by
  by_cases hs : start + length = t.size
  · rw [Cursor.stop_start_of_eq hs]
    constructor
    · intro h
      have hlt := h.lt_size hspace
      omega
    · intro h
      have hlt := h.lt_size hspace
      omega
  · rw [Cursor.stop_start, if_neg hs]

end

namespace Machine

open Scanner

variable {t : Text} {m : Machine t} {s : Scanner t} {d : Delimiter} {quote : Char}

/-! ## 2. Counting dashes -/

/-- One step over dashes, with the number of those that are missing. -/
def dashStep : Nat × Scanner t → (Nat × Scanner t) ⊕ (Nat × Scanner t)
  | (0, s) => .inr (0, s)
  | (count + 1, s) => if s.sees '-' then .inl (count, s.forward) else .inr (count + 1, s)

theorem exits_passDashes (count : Nat) :
    ∀ s : Scanner t, Exits dashStep (count, s) (passDashes count s) := by
  induction count with
  | zero => exact fun s => .leave rfl
  | succ count ih =>
    intro s
    rw [passDashes]
    split
    · rename_i hdash
      exact .again (if_pos hdash) (ih s.forward)
    · rename_i hno
      exact .leave (if_neg hno)

/-- One step over dashes in front of the bracket that opens a raw string. -/
def scanStep (t : Text) (pos : Nat) : Nat ⊕ Nat :=
  if t.byteAt pos = '-'.toNat then .inl (pos + 1) else .inr pos

theorem exits_dashesFrom (fuel : Nat) : ∀ {pos : Nat}, t.size ≤ pos + fuel →
    Exits (scanStep t) pos (pos + dashesFrom t fuel pos) := by
  induction fuel with
  | zero =>
    intro pos h
    exact .leave (if_neg (byteAt_dashesFrom_ne t 0 pos h))
  | succ fuel ih =>
    intro pos h
    rw [dashesFrom]
    split
    · rename_i hdash
      have hrest : Exits (scanStep t) (pos + 1) (pos + 1 + dashesFrom t fuel (pos + 1)) :=
        ih (by omega)
      rw [Nat.add_right_comm] at hrest
      exact .again (if_pos hdash) hrest
    · rename_i hno
      exact .leave (if_neg hno)

/-! ## 3. Attempts that end -/

/-- An attempt behind the end of the range sees only spaces. -/
theorem ch_tryClose_of_not_more (hmore : s.more = false) (hopen : (d.tryClose quote s).1 = false) :
    (d.tryClose quote s).2.ch = 0x20 := by
  have hch : s.forward.ch = 0x20 := by
    rw [toCursor_forward, Cursor.forward_of_not_more hmore]
  have hdashes : (passDashes d.dashes s.forward).2 = s.forward := by
    cases d.dashes with
    | zero => rfl
    | succ count =>
      rw [passDashes, if_neg]
      rw [Cursor.sees, hch]
      decide
  rw [Delimiter.tryClose] at hopen ⊢
  dsimp only at hopen ⊢
  split at hopen
  · cases hopen
  · rename_i hno
    rw [if_neg hno, hdashes]
    exact hch

/-- Attempts to close a raw string end if its bracket is no space. -/
theorem isSome_closeRaw (hclose : d.close ≠ 0x20) (quote : Char) (hm : s.Measured) :
    (d.closeRaw quote s).isSome = true := by
  induction hn : s.stop - s.pos using Nat.strongRecOn generalizing s with
  | _ n ih =>
    have hadv := advances_tryClose d quote s
    have hbehind : s.more = false → (d.tryClose quote s).1 = false →
        (d.tryClose quote s).2.ch = 0x20 := ch_tryClose_of_not_more
    cases htry : d.tryClose quote s with
    | mk closed r =>
      rw [htry] at hadv hbehind
      cases closed with
      | true =>
        rw [closeRaw_of_closed htry]
        rfl
      | false =>
        by_cases hch : r.ch = d.close
        · cases hmore : s.more with
          | false => exact absurd (hch.symm.trans (hbehind hmore rfl)) hclose
          | true =>
            have hlt : s.pos < r.pos := hadv.pos_lt hm hmore
            have hstop : r.stop = s.stop := hadv.reach.stop
            have hbefore := Cursor.more_iff.1 hmore
            rw [closeRaw_of_again htry hch]
            exact ih (r.stop - r.pos) (by omega) (hadv.reach.measured hm) rfl
        · rw [closeRaw_of_failed htry hch]
          rfl

/-! ## 4. Raw strings that close with a bracket -/

/-- If a raw string is open, it does not close with a space. -/
def Safe (m : Machine t) : Prop :=
  isRaw m.scan.token = true → ∀ d ∈ m.raw, d.close ≠ 0x20

theorem Safe.roundEnds (h : m.Safe) (hm : m.scan.Measured) : m.RoundEnds := by
  intro d hd htoken _
  obtain ⟨x, hx⟩ := Option.isSome_iff_exists.1 (isSome_closeRaw (h htoken d hd) _ hm)
  exact ⟨x, exits_closeStep_iff.2 hx⟩

theorem safe_of_token (h : isRaw m.scan.token = false) : m.Safe := by
  intro htoken
  rw [h] at htoken
  cases htoken

theorem safe_of_plain (h : m.scan.token = .plain) : m.Safe := safe_of_token (by rw [h]; rfl)

theorem Safe.rawString (h : m.Safe) (quote : Char) : (m.rawString quote).Safe := by
  rw [Machine.rawString]
  split
  · exact h
  · split
    · split
      · rename_i closed s heq
        have htoken : s.token = if closed then .plain else m.scan.token := Paired.token_closeRaw heq
        cases closed with
        | true => exact safe_of_plain htoken
        | false =>
          have hsame : s.token = m.scan.token := htoken
          intro hraw
          rw [hsame] at hraw
          exact h hraw
      · exact h
    · exact h

/-- Only a raw string is a raw string when it has not ended. -/
theorem isRaw_endToken (g : Settings) (h : isRaw m.scan.token = false) :
    isRaw (m.endToken g).scan.token = false := by
  have hquoted (quote : Char) : isRaw (quoted quote m.scan).token = false := by
    rcases Paired.token_quoted quote m.scan with heq | heq <;> rw [heq]
    · exact h
    · rfl
  rw [endToken]
  split
  case h_1 => rfl
  case h_2 =>
    show isRaw (numeral m.scan).token = false
    rw [numeral]
    split
    · exact h
    · split
      · exact h
      · rfl
  case h_3 =>
    show isRaw (word g m.scan).token = false
    rw [word]
    split
    · exact h
    · rfl
  case h_4 =>
    split
    · rfl
    · exact h
  case h_5 => exact hquoted _
  case h_6 => exact hquoted _
  case h_7 => exact hquoted _
  case h_8 ht => rw [ht] at h; cases h
  case h_9 ht => rw [ht] at h; cases h
  case h_10 =>
    rw [percentOperator]
    split
    · rfl
    · split
      · rfl
      · exact h
  case h_11 => exact h

theorem Safe.endToken (g : Settings) (h : m.Safe) : (m.endToken g).Safe := by
  cases htoken : isRaw m.scan.token with
  | false => exact safe_of_token (isRaw_endToken g htoken)
  | true =>
    rw [endToken_of_raw g htoken]
    exact h.rawString _

theorem safe_startRaw (m : Machine t) : m.startRaw.Safe := by
  rw [startRaw]
  split
  · rename_i d hd
    obtain ⟨hbracket, -⟩ := delimiterAt?_eq_some hd
    have hclosing := closingOf?_cases hbracket
    intro _ d' hd'
    obtain rfl := Option.some.inj hd'
    omega
  · exact fun _ d hd => absurd hd (Option.not_mem_none d)

theorem Safe.startToken (h : m.Safe) : m.startToken.Safe := by
  have hswitch (token : Token) (hraw : isRaw token = false) : (m.map (·.switch token)).Safe :=
    safe_of_token hraw
  rw [Machine.startToken]
  dsimp only
  split
  · refine safe_of_token ?_
    rw [map]
    split <;> rfl
  · repeat' split
    · exact safe_startRaw m
    all_goals first | exact hswitch _ rfl | exact h

theorem Safe.finishRound (h : m.Safe) : m.finishRound.Safe := by
  have hsettle : m.settle.Safe := by
    rw [settle]
    split
    · exact h.startToken
    · exact h
  intro htoken
  have htoken' : isRaw m.settle.scan.token = true := by
    rw [← token_noteEnd]
    exact htoken
  have hraw : m.finishRound.raw = m.settle.raw := raw_noteEnd m.settle
  rw [hraw]
  exact hsettle htoken'

theorem Safe.step (g : Settings) (h : m.Safe) : (m.step g).Safe := by
  rw [step_eq]
  exact (h.endToken g).finishRound

/-! ## 5. Raw strings that close with a space -/

section

variable {stop o mark x : Nat} {token : Token} (g : Settings) (hapt : Apt (quoteOf token) d)
  (htoken : isRaw token = true) (h : RawOpen stop o mark token d m) (hmore : m.scan.more = true)
include hapt htoken h hmore

/-- On the way to an attempt that runs over the end, rounds that come to an end leave the raw
string open. -/
theorem RawOpen.step_of_runsOver (hspace : d.close = 0x20) (hle : o ≤ x)
    (hover : RunsOver t d stop x) (hclear : Clear t stop (quoteOf token) d o x)
    (hround : m.RoundEnds) : RawOpen stop o mark token d (m.step g) := by
  rcases h.step_cases g hapt htoken hmore with ⟨-, hopen⟩
    | ⟨y, r, -, hoy, -, -, -, hcloses, hbefore⟩ | ⟨hno, -⟩
  · exact hopen
  · rcases Nat.lt_trichotomy x y with hlt | rfl | hgt
    · exact absurd hover ((hbefore x hle hlt).2 hspace)
    · exact absurd hcloses (hover.not_closes hapt)
    · exact absurd hcloses (hclear y hoy hgt).1
  · exact absurd hround hno

/-- If no attempt runs over the end, the round comes to an end. -/
theorem RawOpen.step_of_not_runsOver
    (hno : ∀ x, o ≤ x → RunsOver t d stop x → ¬Clear t stop (quoteOf token) d o x) :
    m.RoundEnds ∧ (RawOpen stop o mark token d (m.step g) ∨ (m.step g).Safe) := by
  rcases h.step_cases g hapt htoken hmore with ⟨hround, hopen⟩
    | ⟨y, r, hround, -, hend, -⟩ | ⟨-, -, x, hle, hover, hclear⟩
  · exact ⟨hround, Or.inl hopen⟩
  · refine ⟨hround, Or.inr ?_⟩
    rw [step_eq, hend]
    exact (safe_of_plain rfl).finishRound
  · exact absurd hclear (hno x hle hover)

end

/-! ## 6. Rounds that come to no end -/

theorem Safe.iterate (g : Settings) (h : m.Safe) (i : Nat) : ((Machine.step g)^[i] m).Safe := by
  induction i with
  | zero => exact h
  | succ i ih =>
    rw [Function.iterate_succ_apply']
    exact ih.step g

theorem measured_iterate (g : Settings) (hm : m.scan.Measured) (i : Nat) :
    ((step g)^[i] m).scan.Measured := by
  have hreach : m.scan.Reach ((step g)^[i] m).scan := (sound g).reach_iterate i m
  exact hreach.measured hm

section

variable {stop o mark n : Nat} {token : Token} (g : Settings) (hapt : Apt (quoteOf token) d)
  (htoken : isRaw token = true) (h : RawOpen stop o mark token d m)
  (hmore : ∀ i < n, ((step g)^[i] m).scan.more = true)
include hapt htoken h hmore

/-- A range that is done has had a round that comes to no end if an attempt runs over the end. -/
theorem RawOpen.exists_not_roundEnds (hdone : ((step g)^[n] m).scan.more = false) {x : Nat}
    (hspace : d.close = 0x20) (hle : o ≤ x) (hover : RunsOver t d stop x)
    (hclear : Clear t stop (quoteOf token) d o x) : ∃ i < n, ¬((step g)^[i] m).RoundEnds := by
  by_contra hall
  have hopen : ∀ i ≤ n, RawOpen stop o mark token d ((step g)^[i] m) := by
    intro i
    induction i with
    | zero => exact fun _ => h
    | succ i ih =>
      intro hi
      have hround : ((step g)^[i] m).RoundEnds := by
        by_contra hno
        exact hall ⟨i, hi, hno⟩
      rw [Function.iterate_succ_apply']
      exact (ih (by omega)).step_of_runsOver g hapt htoken (hmore i hi) hspace hle hover hclear
        hround
  have hlast := hopen n (Nat.le_refl n)
  have hlt := hover.lt
  rw [Cursor.more, decide_eq_false_iff_not, hlast.stop_eq] at hdone
  exact (hlast.clear x hle (by omega)).2 hspace hover

/-- All rounds come to an end if no attempt runs over the end. -/
theorem RawOpen.roundEnds_iterate (hm : m.scan.Measured)
    (hno : ∀ x, o ≤ x → RunsOver t d stop x → ¬Clear t stop (quoteOf token) d o x) :
    ∀ i < n, ((step g)^[i] m).RoundEnds := by
  have hkeep : ∀ i ≤ n, RawOpen stop o mark token d ((step g)^[i] m) ∨ ((step g)^[i] m).Safe := by
    intro i
    induction i with
    | zero => exact fun _ => Or.inl h
    | succ i ih =>
      intro hi
      rw [Function.iterate_succ_apply']
      rcases ih (by omega) with hopen | hsafe
      · exact (hopen.step_of_not_runsOver g hapt htoken (hmore i hi) hno).2
      · exact Or.inr (hsafe.step g)
  intro i hi
  rcases hkeep i (by omega) with hopen | hsafe
  · exact (hopen.step_of_not_runsOver g hapt htoken (hmore i hi) hno).1
  · exact hsafe.roundEnds (measured_iterate g hm i)

end

/-- At the start of a range the raw string is open that the number saved tells of. -/
theorem rawOpen_start {start length : Nat} {token : Token} (h : start + length ≤ t.size)
    (htoken : isRaw token = true) (d : Delimiter) :
    RawOpen (Cursor.start t start length).stop start start token d
      (Machine.start t start length token (some d)) where
  stop_eq := rfl
  sync _ := Cursor.inSync_start h
  token_eq := by
    refine if_neg ?_
    rintro rfl
    cases htoken
  raw_eq := rfl
  mark_eq := rfl
  le_pos := Nat.le_refl start
  clear y hy hlt := absurd hlt (Nat.not_lt.2 hy)

/-- Some round of a range comes to no end just where the range runs on. -/
theorem runsOn_iff (g : Settings) {start length n : Nat} (h : start + length ≤ t.size)
    (token : Token) (saved : Option Delimiter)
    (hmore : ∀ i < n, ((step g)^[i] (Machine.start t start length token saved)).scan.more = true)
    (hdone : ((step g)^[n] (Machine.start t start length token saved)).scan.more = false) :
    RunsOn t start (start + length) token saved
      ↔ ∃ i < n, ¬((step g)^[i] (Machine.start t start length token saved)).RoundEnds := by
  have hm : (Machine.start t start length token saved).scan.Measured :=
    Cursor.measured_start t start length
  constructor
  · rintro ⟨htoken, d, hd, hspace, x, hle, hover, hfirst⟩
    obtain rfl : saved = some d := hd
    have hapt := apt_quoteOf token (d := d) (by omega)
    rw [← runsOver_stop_start hspace] at hover
    exact (rawOpen_start h htoken d).exists_not_roundEnds g hapt htoken hmore hdone hspace hle hover
      ((hover.clear_iff hapt).2 hfirst)
  · rintro ⟨i, hi, hno⟩
    by_contra hnot
    by_cases hsafe : (Machine.start t start length token saved).Safe
    · exact hno ((hsafe.iterate g i).roundEnds (measured_iterate g hm i))
    · simp only [Safe, not_forall, not_not, exists_prop] at hsafe
      obtain ⟨hopening, d, hd, hspace⟩ := hsafe
      obtain rfl : saved = some d := hd
      have hapt := apt_quoteOf token (d := d) (by omega)
      have htoken : isRaw token = true := by
        by_cases hopen : token = .openPercentOperator
        · subst hopen
          cases hopening
        · have htoken : (Machine.start t start length token (some d)).scan.token = token :=
            if_neg hopen
          rwa [htoken] at hopening
      refine hno ((rawOpen_start h htoken d).roundEnds_iterate g hapt htoken hmore hm ?_ i hi)
      intro x hle hover hclear
      have hfirst := (hover.clear_iff hapt).1 hclear
      rw [runsOver_stop_start hspace] at hover
      exact hnot ⟨htoken, d, rfl, hspace, x, hle, hover, hfirst⟩

end Machine

end R

end Restyle
