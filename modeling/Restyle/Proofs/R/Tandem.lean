/-
Restyle.Proofs.R.Tandem — what a round of the R lexer may be.

A round ends the token at hand if it ends here, starts the next, and
moves on. Machines whose scanners go in tandem do the first two alike,
for any relation between the scanners (`Paired.endToken`,
`Paired.startToken`). Two tokens have to be looked after besides: a
comment, which ends where its line's terminator stands, and a percent
operator that its line leaves open, whose end moves over the line end.

Where no sign stands most tokens are over (`Calm`).
-/
import Restyle.Proofs.R.Rounds
import Restyle.Proofs.Scanner.Tandem

namespace Restyle

namespace R

open Scanner (Tandem isSign isSign_of_isDigit isSign_of_isHexDigit isSign_of_isAlphanumeric)

/-- Tokens that are relabelled when they end. -/
def isLoose (token : Token) : Bool := token == .identifier || token == .percentOperator

/-! ## 1. Characters and delimiters -/

theorem isSign_of_isWordChar {c : Nat} (h : isWordChar c = true) : isSign c = true := by
  simp only [isWordChar, Bool.or_eq_true] at h
  rcases h with h | h
  · exact isSign_of_isAlphanumeric h
  · exact Scanner.isSign_of_oneOf (by decide) h

theorem isSign_of_isWordStart {c : Nat} (h : isWordStart c = true) : isSign c = true := by
  simp only [isWordStart, Bool.or_eq_true] at h
  rcases h with h | h
  · exact isSign_of_isAlphanumeric h
  · exact Scanner.isSign_of_oneOf (by decide) h

theorem isSign_of_isOperator {c : Nat} (h : isOperator c = true) : isSign c = true :=
  Scanner.isSign_of_oneOf (by decide) h

theorem byteAt_of_lt_dashesFrom (t : Text) : ∀ (fuel pos i : Nat), i < dashesFrom t fuel pos →
    t.byteAt (pos + i) = '-'.toNat
  | 0, _, _, h => by
    rw [dashesFrom] at h
    omega
  | fuel + 1, pos, i, h => by
    rw [dashesFrom] at h
    split at h
    · rename_i hb
      cases i with
      | zero => exact hb
      | succ i =>
        have hi := byteAt_of_lt_dashesFrom t fuel (pos + 1) i (by omega)
        rw [← hi]
        congr 1
        omega
    · omega

/-- The count of dashes goes to the last of them. -/
theorem byteAt_dashesFrom_ne (t : Text) : ∀ (fuel pos : Nat), t.size ≤ pos + fuel →
    t.byteAt (pos + dashesFrom t fuel pos) ≠ '-'.toNat
  | 0, pos, h => by
    rw [dashesFrom, t.byteAt_eq_zero h]
    decide
  | fuel + 1, pos, h => by
    rw [dashesFrom]
    split
    · have hrest := byteAt_dashesFrom_ne t fuel (pos + 1) (by omega)
      rwa [Nat.add_right_comm] at hrest
    · rename_i hno
      exact hno

/-- The bracket that closes a raw string. -/
def isClosing (c : Nat) : Bool := Ascii.oneOf [')', ']', '\x7d'] c

theorem isSign_of_isClosing {c : Nat} (h : isClosing c = true) : isSign c = true :=
  Scanner.isSign_of_oneOf (by decide) h

theorem isClosing_of_closingOf? {bracket close : Nat} (h : closingOf? bracket = some close) :
    isClosing close = true := by
  rw [closingOf?] at h
  split at h
  · obtain rfl := Option.some.inj h
    decide
  · split at h
    · obtain rfl := Option.some.inj h
      decide
    · split at h
      · obtain rfl := Option.some.inj h
        decide
      · cases h

/-- What a delimiter that is found says of the text. -/
theorem delimiterAt?_eq_some {t : Text} {pos : Nat} {d : Delimiter}
    (h : delimiterAt? t pos = some d) :
    closingOf? (t.byteAt (pos + d.dashes)) = some d.close
      ∧ ∀ i < d.dashes, t.byteAt (pos + i) = '-'.toNat := by
  rw [delimiterAt?, Option.map_eq_some_iff] at h
  obtain ⟨close, hclose, rfl⟩ := h
  exact ⟨hclose, byteAt_of_lt_dashesFrom t _ pos⟩

/-- Dashes behind signs are signs too. -/
theorem isSign_of_dashes {t : Text} {p i n : Nat}
    (hi : ∀ j < i, isSign (t.byteAt (p + j)) = true)
    (hdashes : ∀ j < n, t.byteAt (p + i + j) = '-'.toNat) :
    ∀ j < i + n, isSign (t.byteAt (p + j)) = true := by
  intro j hj
  rcases Nat.lt_or_ge j i with hlt | hge
  · exact hi j hlt
  · have hb := hdashes (j - i) (by omega)
    rw [show p + i + (j - i) = p + j by omega] at hb
    rw [hb]
    decide

/-- An opening bracket is a sign. -/
theorem closingOf?_of_kind_eq {c c' : Nat} (h : Scanner.kind c' = Scanner.kind c) :
    closingOf? c' = closingOf? c := by
  have heq {a : Nat} (ha : isSign a = true) : c' = a ↔ c = a := by
    rw [← beq_iff_eq, Scanner.beq_of_kind_eq h ha, beq_iff_eq]
  rw [closingOf?, closingOf?]
  simp only [heq (a := '('.toNat) (by decide), heq (a := '['.toNat) (by decide),
    heq (a := '\x7b'.toNat) (by decide)]

section

variable {t t' : Text} {p p' : Nat}
  (h : ∀ i, (∀ j < i, isSign (t.byteAt (p + j)) = true) →
    Scanner.kind (t'.byteAt (p' + i)) = Scanner.kind (t.byteAt (p + i)))
include h

/-- Dashes are counted alike where the bytes are of the same kinds. -/
theorem dashesFrom_of_kinds : ∀ (fuel fuel' i : Nat),
    (∀ j < i, isSign (t.byteAt (p + j)) = true) →
    t.size ≤ p + i + fuel → t'.size ≤ p' + i + fuel' →
    dashesFrom t' fuel' (p' + i) = dashesFrom t fuel (p + i) := by
  intro fuel
  induction fuel with
  | zero =>
    intro fuel' i hi hf hf'
    have hkind := h i hi
    rw [t.byteAt_eq_zero (by omega)] at hkind
    have hno : t'.byteAt (p' + i) ≠ '-'.toNat := by
      intro heq
      rw [heq] at hkind
      exact absurd hkind (by decide)
    cases fuel' with
    | zero => rfl
    | succ fuel' => simp only [dashesFrom, if_neg hno]
  | succ fuel ih =>
    intro fuel' i hi hf hf'
    have heq : t'.byteAt (p' + i) = '-'.toNat ↔ t.byteAt (p + i) = '-'.toNat := by
      rw [← beq_iff_eq, Scanner.beq_of_kind_eq (h i hi) (by decide), beq_iff_eq]
    by_cases hb : t.byteAt (p + i) = '-'.toNat
    · have hs' := t'.lt_size_of_byteAt (p := p' + i) (by rw [heq.2 hb]; decide)
      obtain ⟨fuel', rfl⟩ : ∃ n, fuel' = n + 1 := ⟨fuel' - 1, by omega⟩
      rw [dashesFrom, dashesFrom, if_pos hb, if_pos (heq.2 hb)]
      congr 1
      apply ih fuel' (i + 1) _ (by omega) (by omega)
      intro j hj
      rcases Nat.lt_or_eq_of_le (Nat.le_of_lt_succ hj) with hlt | rfl
      · exact hi j hlt
      · rw [hb]; decide
    · rw [dashesFrom, if_neg hb]
      cases fuel' with
      | zero => rfl
      | succ fuel' => rw [dashesFrom, if_neg fun hb' => hb (heq.1 hb')]

theorem delimiterAt?_of_kinds {i : Nat} (hi : ∀ j < i, isSign (t.byteAt (p + j)) = true) :
    delimiterAt? t' (p' + i) = delimiterAt? t (p + i) := by
  have hdashes := dashesFrom_of_kinds h (t.size - (p + i)) (t'.size - (p' + i)) i hi (by omega)
    (by omega)
  have hkind := h _ (isSign_of_dashes hi (byteAt_of_lt_dashesFrom t (t.size - (p + i)) (p + i)))
  rw [← Nat.add_assoc, ← Nat.add_assoc] at hkind
  rw [delimiterAt?, delimiterAt?, hdashes]
  rw [closingOf?_of_kind_eq hkind]

end

namespace Machine

variable {t t' : Text} {k : Nat} {R Q : Scanner t → Scanner t' → Prop}
  {s : Scanner t} {s' : Scanner t'}

/-! ## 2. What is done at signs -/

section

variable (T : Tandem isLoose k R Q) (h : R s s')
include T h

theorem tandem_numeral : R (numeral s) (numeral s') := by
  have hexp : (Ascii.oneOf ['e', 'E', 'p', 'P'] s'.ch
        && (Ascii.isDigit s'.next || s'.seesNext '+' || s'.seesNext '-'))
      = (Ascii.oneOf ['e', 'E', 'p', 'P'] s.ch
        && (Ascii.isDigit s.next || s.seesNext '+' || s.seesNext '-')) := by
    rw [T.ch h (Scanner.signs ['e', 'E', 'p', 'P'] (by decide))]
    cases hs : Ascii.oneOf ['e', 'E', 'p', 'P'] s.ch with
    | false => rfl
    | true =>
      have hc := Scanner.isSign_of_oneOf (by decide) hs
      rw [T.next h hc fun _ => isSign_of_isDigit, T.seesNext h hc (by decide),
        T.seesNext h hc (by decide)]
  rw [numeral, numeral, hexp, T.sees_and_next h (by decide) fun _ => isSign_of_isDigit,
    T.ch h fun _ => isSign_of_isHexDigit,
    T.ch h (Scanner.signs ['L', 'i'] (by decide))]
  split
  · rename_i hc
    exact T.forward h (Scanner.isSign_of_oneOf (by decide) (Bool.and_eq_true_iff.1 hc).1)
  · split
    · exact h
    · dsimp only
      split
      · rename_i hc
        exact T.of_marked (T.switch _ (T.forward h (Scanner.isSign_of_oneOf (by decide) hc)))
      · exact T.of_marked (T.switch _ h)

theorem tandem_word (g : Settings) (hl : isLoose s.token = true) : R (word g s) (word g s') := by
  have hmarked := T.marked h hl
  rw [word, word, T.ch h fun _ => isSign_of_isWordChar, T.openText hmarked]
  split
  · exact h
  · exact T.of_marked (T.switch _ (T.of_marked (T.relabel _ hmarked)))

theorem tandem_quoted {quote : Char} (hq : isSign quote.toNat = true) :
    R (quoted quote s) (quoted quote s') := by
  rw [quoted, quoted, T.sees h (by decide), T.sees h hq]
  split
  · rename_i hs
    have hc := Scanner.isSign_of_sees (by decide) hs
    rw [T.next h hc (Scanner.signs
      [Ascii.doubleQuote, Ascii.singleQuote, Ascii.backslash, Ascii.backtick] (by decide))]
    split
    · exact T.forward h hc
    · exact h
  · split
    · rename_i hs
      exact T.of_marked (T.switch _ (T.forward_of_sees h hq hs))
    · exact h

end

theorem tandem_passDashes (T : Tandem isLoose k R Q) (count : Nat) :
    ∀ {s : Scanner t} {s' : Scanner t'}, R s s' →
      (passDashes count s').1 = (passDashes count s).1
        ∧ R (passDashes count s).2 (passDashes count s').2 := by
  induction count with
  | zero => intro s s' h; exact ⟨rfl, h⟩
  | succ count ih =>
    intro s s' h
    rw [passDashes, passDashes, T.sees h (by decide)]
    split
    · rename_i hc
      exact ih (T.forward_of_sees h (by decide) hc)
    · exact ⟨rfl, h⟩

theorem tandem_tryClose (T : Tandem isLoose k R Q) {d : Delimiter} {quote : Char}
    (hq : isSign quote.toNat = true) (h : R s s') (hc : isSign s.ch = true) :
    (d.tryClose quote s').1 = (d.tryClose quote s).1
      ∧ R (d.tryClose quote s).2 (d.tryClose quote s').2 := by
  obtain ⟨hmissing, h₁⟩ := tandem_passDashes T d.dashes (T.forward h hc)
  rw [Delimiter.tryClose, Delimiter.tryClose]
  dsimp only
  rw [hmissing, T.sees h₁ hq]
  split
  · rename_i hclose
    exact ⟨rfl, T.of_marked (T.switch _ (T.forward_of_sees h₁ hq hclose.2))⟩
  · exact ⟨rfl, h₁⟩

theorem tandem_closeRaw (T : Tandem isLoose k R Q) {d : Delimiter} {quote : Char}
    (hq : isSign quote.toNat = true) (hd : isSign d.close = true) (fuel : Nat) :
    ∀ {s : Scanner t} {s' : Scanner t'}, R s s' → s.ch = d.close → k - s.pos ≤ fuel →
      ∃ closed r r', d.closeRaw quote s = some (closed, r)
        ∧ d.closeRaw quote s' = some (closed, r') ∧ R r r' := by
  induction fuel with
  | zero =>
    intro s s' h _ hf
    have := T.lt h
    omega
  | succ fuel ih =>
    intro s s' h hc hf
    have hsign : isSign s.ch = true := by rw [hc]; exact hd
    obtain ⟨hdone, hr⟩ := tandem_tryClose T (d := d) hq h hsign
    have hpos : s.pos < (d.tryClose quote s).2.pos :=
      (advances_tryClose d quote s).pos_lt (T.sync h).toMeasured (T.more h)
    have hlt := T.lt h
    cases htry : d.tryClose quote s with
    | mk closed r =>
      cases htry' : d.tryClose quote s' with
      | mk closed' r' =>
        rw [htry, htry'] at hdone hr
        rw [htry] at hpos
        obtain rfl : closed' = closed := hdone
        have hch : r'.ch = d.close ↔ r.ch = d.close := by
          rw [← beq_iff_eq, Scanner.beq_of_kind_eq (T.kind_ch hr) hd, beq_iff_eq]
        cases closed' with
        | true => exact ⟨true, r, r', closeRaw_of_closed htry, closeRaw_of_closed htry', hr⟩
        | false =>
          by_cases hagain : r.ch = d.close
          · rw [closeRaw_of_again htry hagain, closeRaw_of_again htry' (hch.2 hagain)]
            have hpos : s.pos < r.pos := hpos
            exact ih hr hagain (by show k - r.pos ≤ fuel; omega)
          · exact ⟨false, r, r', closeRaw_of_failed htry hagain,
              closeRaw_of_failed htry' (mt hch.1 hagain), hr⟩

/-! ## 3. Machines in tandem -/

variable {m : Machine t} {m' : Machine t'}

/-- Within a raw string nothing ends that is no closing bracket. -/
theorem rawString_of_ne {d : Delimiter} (hraw : m.raw = some d) (hch : m.scan.ch ≠ d.close)
    (quote : Char) : m.rawString quote = m := by
  rw [rawString, hraw]
  exact if_neg hch

/-- What the attempts to close a raw string at its bracket come to. -/
theorem rawString_of_closeRaw {d : Delimiter} {quote : Char} {closed : Bool} {s : Scanner t}
    (hraw : m.raw = some d) (hch : m.scan.ch = d.close)
    (h : d.closeRaw quote m.scan = some (closed, s)) :
    m.rawString quote = ⟨s, if closed then none else some d⟩ := by
  simp only [rawString, hraw, if_pos hch, h]

/-- The scanners of the machines are related, and they remember the same. -/
structure Paired (R : Scanner t → Scanner t' → Prop) (m : Machine t) (m' : Machine t') : Prop where
  scan : R m.scan m'.scan
  raw : m'.raw = m.raw
  fits : ∀ d ∈ m.raw, isClosing d.close = true ∧ d.dashes ≤ m.scan.pos
  token : m.scan.token ≠ .openPercentOperator

/-- Tokens that are over before the last character of their line. -/
def isBrief (token : Token) : Bool :=
  token == .operator || token == .number || token == .identifier || token == .percentOperator

/-- Where no sign stands the machine has no brief token open, except that a percent operator
may go on inside its line. -/
def Calm (m : Machine t) : Prop := isSign m.scan.ch = false →
  isBrief m.scan.token = false ∨ (m.scan.token = .percentOperator ∧ m.scan.atLineEnd = false)

theorem calm_of_token (h : isBrief m.scan.token = false) : m.Calm := fun _ => Or.inl h

theorem calm_of_sign (h : isSign m.scan.ch = true) : m.Calm := fun hc => by
  rw [h] at hc
  cases hc

/-- At the end of its line no brief token is open. -/
theorem Calm.brief (h : m.Calm) (hsync : m.scan.InSync) (hend : m.scan.atLineEnd = true) :
    isBrief m.scan.token = false := by
  have hc : isSign m.scan.ch = false := by
    rw [Bool.eq_false_iff]
    intro hc
    rw [hsync.atLineEnd_eq_false (Scanner.isSolid_of_isSign hc)] at hend
    cases hend
  refine (h hc).resolve_right fun hopen => ?_
  rw [hopen.2] at hend
  cases hend

/-- The machine after the second part of a round, which starts a token if none is open. -/
def settle (m : Machine t) : Machine t := if m.scan.token = .plain then m.startToken else m

namespace Paired

variable (T : Tandem isLoose k R Q) (h : Paired R m m')
include T h

omit T in
/-- A change of the scanner alone. -/
theorem scan_change {s : Scanner t} {s' : Scanner t'} (hs : R s s')
    (hr : m.scan.Reach s) (ht : s.token ≠ .openPercentOperator) :
    Paired R { m with scan := s } { m' with scan := s' } where
  scan := hs
  raw := h.raw
  fits := by
    intro d hd
    obtain ⟨hclose, hle⟩ := h.fits d hd
    exact ⟨hclose, Nat.le_trans hle hr.pos_le⟩
  token := ht

theorem switch (token : Token) (ht : token ≠ .openPercentOperator) :
    Paired R (m.map (·.switch token)) (m'.map (·.switch token)) :=
  h.scan_change (T.of_marked (T.switch token h.scan)) (Scanner.Reach.refl.switch token) ht

/-! ### Ending a token -/

/-- A number that has not ended stands at one of its characters. -/
theorem endNumeral (ht : m.scan.token = .number) :
    Paired R (m.map numeral) (m'.map numeral) ∧ (m.map numeral).Calm := by
  have hs := tandem_numeral T h.scan
  have hcases : (numeral m.scan).token = .plain
      ∨ ((numeral m.scan).token = m.scan.token ∧ isSign (numeral m.scan).ch = true) := by
    rw [numeral]
    split
    · rename_i hc
      simp only [Bool.and_eq_true, Bool.or_eq_true] at hc
      refine Or.inr ⟨rfl, ?_⟩
      rw [T.ch_forward h.scan]
      rcases hc.2 with (hd | hd) | hd
      · exact isSign_of_isDigit hd
      · exact Scanner.isSign_of_seesNext (by decide) hd
      · exact Scanner.isSign_of_seesNext (by decide) hd
    · split
      · rename_i hc
        rw [Bool.or_eq_true, Bool.and_eq_true] at hc
        refine Or.inr ⟨rfl, ?_⟩
        rcases hc with hd | ⟨hd, -⟩
        · exact isSign_of_isHexDigit hd
        · exact Scanner.isSign_of_sees (by decide) hd
      · exact Or.inl rfl
  rcases hcases with hplain | ⟨hnumber, hsign⟩
  · exact ⟨h.scan_change hs (reach_numeral _) (by rw [hplain]; decide),
      calm_of_token (by show isBrief (numeral m.scan).token = false; rw [hplain]; rfl)⟩
  · exact ⟨h.scan_change hs (reach_numeral _) (by rw [hnumber, ht]; decide),
      calm_of_sign hsign⟩

/-- A name that has not ended stands at one of its characters. -/
theorem endWord (g : Settings) (ht : m.scan.token = .identifier) :
    Paired R (m.map (word g)) (m'.map (word g)) ∧ (m.map (word g)).Calm := by
  have hs := tandem_word T h.scan g (by rw [ht]; rfl)
  cases hc : isWordChar m.scan.ch with
  | true =>
    have heq : word g m.scan = m.scan := by rw [word, if_pos hc]
    exact ⟨h.scan_change hs (reach_word g _) (by rw [heq]; exact h.token),
      calm_of_sign (by
        show isSign (word g m.scan).ch = true
        rw [heq]
        exact isSign_of_isWordChar hc)⟩
  | false =>
    have htoken : (word g m.scan).token = .plain := by
      rw [word, hc, if_neg Bool.false_ne_true]
      rfl
    exact ⟨h.scan_change hs (reach_word g _) (by rw [htoken]; decide),
      calm_of_token (by show isBrief (word g m.scan).token = false; rw [htoken]; rfl)⟩

omit T h in
theorem token_quoted (quote : Char) (s : Scanner t) :
    (quoted quote s).token = s.token ∨ (quoted quote s).token = .plain := by
  rw [quoted]
  split
  · left
    split <;> rfl
  · split
    · exact Or.inr rfl
    · exact Or.inl rfl

theorem endQuoted {quote : Char} (hq : isSign quote.toNat = true)
    (hb : isBrief m.scan.token = false) :
    Paired R (m.map (quoted quote)) (m'.map (quoted quote)) ∧ (m.map (quoted quote)).Calm := by
  have hs := token_quoted quote m.scan
  refine ⟨h.scan_change (tandem_quoted T h.scan hq) (reach_quoted ..) ?_, calm_of_token ?_⟩
  · rcases hs with hs | hs
    · rw [hs]; exact h.token
    · rw [hs]; decide
  · show isBrief (quoted quote m.scan).token = false
    rcases hs with hs | hs
    · rw [hs]; exact hb
    · rw [hs]; rfl

omit T h in
theorem token_tryClose (d : Delimiter) (quote : Char) (s : Scanner t) :
    (d.tryClose quote s).2.token = if (d.tryClose quote s).1 then .plain else s.token := by
  rw [Delimiter.tryClose]
  dsimp only
  split
  · rfl
  · exact (moved_passDashes ..).token

omit T h in
/-- A raw string is over when it is closed. -/
theorem token_closeRaw {d : Delimiter} {quote : Char} {s : Scanner t} {x : Bool × Scanner t}
    (h : d.closeRaw quote s = some x) : x.2.token = if x.1 then .plain else s.token := by
  have htry {s r : Scanner t} {closed : Bool} (h : d.tryClose quote s = (closed, r)) :
      r.token = if closed then .plain else s.token := by
    have htoken := token_tryClose d quote s
    rw [h] at htoken
    exact htoken
  refine closeRaw_induction (P := fun s x => x.2.token = if x.1 then .plain else s.token)
    ?_ ?_ ?_ h
  · exact fun s r h => htry h
  · exact fun s r h _ => htry h
  · intro s r x h _ hx
    rw [hx, htry h]
    rfl

theorem endRawString {quote : Char} (hq : isSign quote.toNat = true)
    (hb : isBrief m.scan.token = false) :
    Paired R (m.rawString quote) (m'.rawString quote) ∧ (m.rawString quote).Calm := by
  cases hraw : m.raw with
  | none =>
    rw [Machine.rawString, Machine.rawString, h.raw, hraw]
    exact ⟨h, calm_of_token hb⟩
  | some d =>
    have hraw' : m'.raw = some d := h.raw.trans hraw
    obtain ⟨hclose, hle⟩ := h.fits d hraw
    have hch : m'.scan.ch = d.close ↔ m.scan.ch = d.close := by
      rw [← beq_iff_eq, Scanner.beq_of_kind_eq (T.kind_ch h.scan) (isSign_of_isClosing hclose),
        beq_iff_eq]
    by_cases hc : m.scan.ch = d.close
    · obtain ⟨closed, s, s', hs, hs', hr⟩ :=
        tandem_closeRaw T hq (isSign_of_isClosing hclose) _ h.scan hc (Nat.le_refl _)
      have hpos := (advances_closeRaw hs).reach.pos_le
      have htoken : s.token = if closed then .plain else m.scan.token := token_closeRaw hs
      rw [rawString_of_closeRaw hraw hc hs, rawString_of_closeRaw hraw' (hch.2 hc) hs']
      refine ⟨{ scan := hr, raw := rfl, fits := ?_, token := ?_ }, calm_of_token ?_⟩
      · intro d' hd'
        dsimp only at hd'
        split at hd'
        · cases hd'
        · obtain rfl := Option.some.inj hd'
          exact ⟨hclose, Nat.le_trans hle hpos⟩
      · dsimp only
        rw [htoken]
        split
        · decide
        · exact h.token
      · dsimp only
        rw [htoken]
        split
        · rfl
        · exact hb
    · rw [rawString_of_ne hraw hc, rawString_of_ne hraw' (mt hch.1 hc)]
      exact ⟨h, calm_of_token hb⟩

theorem endPercentOperator (ht : m.scan.token = .percentOperator)
    (hp : m.scan.sees '%' = true ∨ (m.scan.atLineEnd = false ∧ m'.scan.atLineEnd = false)) :
    Paired R m.percentOperator m'.percentOperator ∧ m.percentOperator.Calm := by
  rw [percentOperator, percentOperator, T.sees h.scan (by decide)]
  split
  · rename_i hc
    exact ⟨h.scan_change (T.of_marked (T.switch .plain (T.forward_of_sees h.scan (by decide) hc)))
      (Scanner.Reach.refl.forwardSwitch .plain) (by show Token.plain ≠ _; decide),
      calm_of_token rfl⟩
  · rename_i hc
    obtain ⟨hend, hend'⟩ := hp.resolve_left hc
    rw [hend, hend']
    exact ⟨h, fun _ => Or.inr ⟨ht, hend⟩⟩

/-- A token ends inside its line, unless it is a percent operator that the line leaves
open. -/
theorem endToken (g : Settings)
    (hline : m.scan.token = .lineComment → m'.scan.atTerminator = m.scan.atTerminator)
    (hp : m.scan.token = .percentOperator → m.scan.sees '%' = true
      ∨ (m.scan.atLineEnd = false ∧ m'.scan.atLineEnd = false)) :
    Paired R (m.endToken g) (m'.endToken g) ∧ (m.endToken g).Calm := by
  have hstay (hb : isBrief m.scan.token = false) : Paired R m m' ∧ m.Calm :=
    ⟨h, calm_of_token hb⟩
  rw [Machine.endToken, Machine.endToken, T.token h.scan]
  cases ht : m.scan.token with
  | operator => exact ⟨h.switch T .plain (by decide), calm_of_token rfl⟩
  | number => exact h.endNumeral T ht
  | identifier => exact h.endWord T g ht
  | lineComment =>
    dsimp only
    rw [hline ht]
    split
    · exact ⟨h.switch T .plain (by decide), calm_of_token rfl⟩
    · exact hstay (by rw [ht]; rfl)
  | string | singleQuoted | backticked => exact h.endQuoted T (by decide) (by rw [ht]; rfl)
  | rawString | rawSingleQuoted => exact h.endRawString T (by decide) (by rw [ht]; rfl)
  | percentOperator => exact h.endPercentOperator T ht (hp ht)
  | plain | keyword | char | capital | moduleName | blockComment | pragma | directive
  | baseFunction | otherFunction | openPercentOperator => exact hstay (by rw [ht]; rfl)

/-! ### Starting a token -/

/-- Whether a raw string may start is decided by two signs. -/
theorem opensRaw_eq : (Ascii.oneOf ['r', 'R'] m'.scan.ch
      && Ascii.oneOf [Ascii.doubleQuote, Ascii.singleQuote] m'.scan.next)
    = (Ascii.oneOf ['r', 'R'] m.scan.ch
      && Ascii.oneOf [Ascii.doubleQuote, Ascii.singleQuote] m.scan.next) := by
  rw [T.ch h.scan (Scanner.signs ['r', 'R'] (by decide))]
  cases hs : Ascii.oneOf ['r', 'R'] m.scan.ch with
  | false => rfl
  | true =>
    rw [T.next h.scan (Scanner.isSign_of_oneOf (by decide) hs)
      (Scanner.signs [Ascii.doubleQuote, Ascii.singleQuote] (by decide))]

theorem startRaw (hc : Ascii.oneOf ['r', 'R'] m.scan.ch = true)
    (hn : Ascii.oneOf [Ascii.doubleQuote, Ascii.singleQuote] m.scan.next = true) :
    Paired R m.startRaw m'.startRaw ∧ isBrief m.startRaw.scan.token = false := by
  have hch : isSign m.scan.ch = true := Scanner.isSign_of_oneOf (by decide) hc
  have hnext : isSign m.scan.next = true := Scanner.isSign_of_oneOf (by decide) hn
  have htwo : ∀ i < 2, isSign (t.byteAt (m.scan.pos + i)) = true := by
    intro i hi
    obtain rfl | rfl : i = 0 ∨ i = 1 := by omega
    · rw [Nat.add_zero, Scanner.byteAt_of_isSign (T.sync h.scan) hch]; exact hch
    · rw [T.byteAt_add_one h.scan hch hnext]; exact hnext
  have hdelim : delimiterAt? t' (m'.scan.pos + 2) = delimiterAt? t (m.scan.pos + 2) :=
    delimiterAt?_of_kinds (T.bytes h.scan) htwo
  rw [Machine.startRaw, Machine.startRaw, T.seesNext h.scan hch (by decide), hdelim]
  have hchar : ∀ c : Token, c = .rawString ∨ c = .rawSingleQuoted ∨ c = .string
      ∨ c = .singleQuoted → c ≠ .openPercentOperator ∧ isBrief c = false := by
    rintro c (rfl | rfl | rfl | rfl) <;> decide
  cases hd : delimiterAt? t (m.scan.pos + 2) with
  | none =>
    obtain ⟨hw, hb⟩ := hchar (if m.scan.seesNext Ascii.doubleQuote then .string else .singleQuoted)
      (by split <;> simp)
    have hs := T.of_marked (T.switch (if m.scan.seesNext Ascii.doubleQuote then .string
      else .singleQuoted) (T.forward (T.of_marked (T.switch .identifier h.scan)) (by
        rw [Scanner.toCursor_switch]; exact hch)))
    refine ⟨{ scan := hs, raw := rfl, fits := ?_, token := hw }, hb⟩
    intro d hd
    cases hd
  | some d =>
    obtain ⟨hclose, hdashes⟩ := delimiterAt?_eq_some hd
    obtain ⟨hw, hb⟩ := hchar
      (if m.scan.seesNext Ascii.doubleQuote then .rawString else .rawSingleQuoted)
      (by split <;> simp)
    generalize (if m.scan.seesNext Ascii.doubleQuote then Token.rawString
      else .rawSingleQuoted) = token at hw hb
    have hbytes : ∀ i < d.dashes + 2,
        isSign (t.byteAt ((m.scan.switch token).pos + i)) = true := by
      rw [Scanner.toCursor_switch, Nat.add_comm d.dashes]
      exact isSign_of_dashes htwo hdashes
    obtain ⟨hs, hpos⟩ := T.forwardBy (d.dashes + 2) (T.of_marked (T.switch token h.scan)) hbytes
    refine ⟨{ scan := hs, raw := rfl, fits := ?_, token := ?_ }, ?_⟩
    · intro d' hd'
      obtain rfl := Option.some.inj hd'
      refine ⟨isClosing_of_closingOf? hclose, ?_⟩
      dsimp only
      omega
    · simpa using hw
    · simpa using hb

theorem startNumber (hc : isSign m.scan.ch = true) :
    Paired R
      (m.map fun s =>
        let s := s.switch .number
        if s.sees '0' && Ascii.oneOf ['x', 'X'] s.next then s.forward else s)
      (m'.map fun s =>
        let s := s.switch .number
        if s.sees '0' && Ascii.oneOf ['x', 'X'] s.next then s.forward else s)
      ∧ (m.map fun s =>
        let s := s.switch .number
        if s.sees '0' && Ascii.oneOf ['x', 'X'] s.next then s.forward else s).Calm := by
  have hs := T.of_marked (T.switch .number h.scan)
  have hsign : isSign (m.scan.switch .number).ch = true := by
    rw [Scanner.toCursor_switch]
    exact hc
  rw [map, map]
  dsimp only
  rw [T.sees_and_next hs (by decide) (Scanner.signs ['x', 'X'] (by decide))]
  split
  · rename_i hx
    have h₁ := T.forward hs hsign
    exact ⟨h.scan_change h₁ (Scanner.Reach.refl.switch _).forward (by show Token.number ≠ _; decide),
      calm_of_sign (by
        rw [T.ch_forward hs]
        exact Scanner.isSign_of_oneOf (by decide) (Bool.and_eq_true_iff.1 hx).2)⟩
  · exact ⟨h.scan_change hs (Scanner.Reach.refl.switch _) (by show Token.number ≠ _; decide),
      calm_of_sign hsign⟩

/-- A brief token starts at a sign. -/
theorem openToken (token : Token) (hw : token ≠ .openPercentOperator)
    (hc : isBrief token = false ∨ isSign m.scan.ch = true) :
    Paired R (m.map (·.switch token)) (m'.map (·.switch token))
      ∧ (m.map (·.switch token)).Calm := by
  have hs := h.switch T token hw
  refine ⟨hs, ?_⟩
  rcases hc with hb | hsign
  · exact calm_of_token hb
  · exact calm_of_sign (by
      show isSign (m.scan.switch token).ch = true
      rw [Scanner.toCursor_switch]
      exact hsign)

/-- A token starts inside its line. -/
theorem startToken (ht : m.scan.token = .plain) :
    Paired R m.startToken m'.startToken ∧ m.startToken.Calm := by
  rw [Machine.startToken, Machine.startToken]
  rw [T.sees_and_next h.scan (by decide) fun _ => isSign_of_isDigit, h.opensRaw_eq T,
    T.ch h.scan fun _ => isSign_of_isDigit, T.ch h.scan fun _ => isSign_of_isWordStart,
    T.ch h.scan fun _ => isSign_of_isOperator, T.sees h.scan (by decide),
    T.sees h.scan (by decide), T.sees h.scan (by decide), T.sees h.scan (by decide),
    T.sees h.scan (by decide)]
  by_cases hdigit : (Ascii.isDigit m.scan.ch || (m.scan.sees '.' && Ascii.isDigit m.scan.next))
      = true
  · rw [if_pos hdigit, if_pos hdigit]
    exact h.startNumber T (by
      rw [Bool.or_eq_true, Bool.and_eq_true] at hdigit
      rcases hdigit with hd | ⟨hd, -⟩
      · exact isSign_of_isDigit hd
      · exact Scanner.isSign_of_sees (by decide) hd)
  rw [if_neg hdigit, if_neg hdigit]
  by_cases hr : (Ascii.oneOf ['r', 'R'] m.scan.ch
      && Ascii.oneOf [Ascii.doubleQuote, Ascii.singleQuote] m.scan.next) = true
  · rw [if_pos hr, if_pos hr]
    rw [Bool.and_eq_true] at hr
    obtain ⟨hw, hb⟩ := h.startRaw T hr.1 hr.2
    exact ⟨hw, calm_of_token hb⟩
  rw [if_neg hr, if_neg hr]
  by_cases hword : isWordStart m.scan.ch = true
  · rw [if_pos hword, if_pos hword]
    exact h.openToken T _ (by decide) (Or.inr (isSign_of_isWordStart hword))
  rw [if_neg hword, if_neg hword]
  by_cases hhash : m.scan.sees '#' = true
  · rw [if_pos hhash, if_pos hhash]
    exact h.openToken T _ (by decide) (Or.inl rfl)
  rw [if_neg hhash, if_neg hhash]
  by_cases hdouble : m.scan.sees Ascii.doubleQuote = true
  · rw [if_pos hdouble, if_pos hdouble]
    exact h.openToken T _ (by decide) (Or.inl rfl)
  rw [if_neg hdouble, if_neg hdouble]
  by_cases hpercent : m.scan.sees '%' = true
  · rw [if_pos hpercent, if_pos hpercent]
    exact h.openToken T _ (by decide) (Or.inr (Scanner.isSign_of_sees (by decide) hpercent))
  rw [if_neg hpercent, if_neg hpercent]
  by_cases hsingle : m.scan.sees Ascii.singleQuote = true
  · rw [if_pos hsingle, if_pos hsingle]
    exact h.openToken T _ (by decide) (Or.inl rfl)
  rw [if_neg hsingle, if_neg hsingle]
  by_cases htick : m.scan.sees Ascii.backtick = true
  · rw [if_pos htick, if_pos htick]
    exact h.openToken T _ (by decide) (Or.inl rfl)
  rw [if_neg htick, if_neg htick]
  by_cases hop : isOperator m.scan.ch = true
  · rw [if_pos hop, if_pos hop]
    exact h.openToken T _ (by decide) (Or.inr (isSign_of_isOperator hop))
  rw [if_neg hop, if_neg hop]
  exact ⟨h, calm_of_token (by rw [ht]; rfl)⟩

/-- The second part of a round. -/
theorem settle (hcalm : m.Calm) : Paired R m.settle m'.settle ∧ m.settle.Calm := by
  rw [Machine.settle, Machine.settle, T.token h.scan]
  split
  · rename_i ht
    exact h.startToken T ht
  · exact ⟨h, hcalm⟩

end Paired

/-! ## 4. Where no sign stands -/

section

variable (hc : isSign m.scan.ch = false)
include hc

/-- No token starts but at a sign. -/
theorem startToken_of_not_sign : m.startToken = m := by
  have hsees {c : Char} := Scanner.sees_eq_false hc (c := c)
  rw [startToken]
  simp only [hsees (c := '.') (by decide), hsees (c := '#') (by decide),
    hsees (c := Ascii.doubleQuote) (by decide), hsees (c := '%') (by decide),
    hsees (c := Ascii.singleQuote) (by decide), hsees (c := Ascii.backtick) (by decide),
    Scanner.class_eq_false (fun _ => isSign_of_isDigit) hc,
    Scanner.class_eq_false (Scanner.signs ['r', 'R'] (by decide)) hc,
    Scanner.class_eq_false (fun _ => isSign_of_isWordStart) hc,
    Scanner.class_eq_false (fun _ => isSign_of_isOperator) hc, Bool.false_and, Bool.or_false,
    Bool.false_eq_true, if_false]

theorem settle_of_not_sign : m.settle = m := by
  rw [settle, startToken_of_not_sign hc, ite_self]

theorem quoted_of_not_sign {quote : Char} (hq : isSign quote.toNat = true) :
    quoted quote m.scan = m.scan := by
  rw [quoted, Scanner.sees_eq_false hc (by decide), Scanner.sees_eq_false hc hq]
  simp

/-- A token goes on over what is no sign, unless it is a brief one, a percent operator that its
line leaves open, or a comment that is over. -/
theorem endToken_of_not_sign (g : Settings)
    (ht : isBrief m.scan.token = false
      ∨ (m.scan.token = .percentOperator ∧ m.scan.atLineEnd = false))
    (hterm : m.scan.token = .lineComment → m.scan.atTerminator = false)
    (hraw : ∀ d ∈ m.raw, isClosing d.close = true) : m.endToken g = m := by
  have hstring (quote : Char) (hq : isSign quote.toNat = true) : m.map (quoted quote) = m := by
    rw [map, quoted_of_not_sign hc hq]
  have hrawString (quote : Char) : m.rawString quote = m := by
    cases hd : m.raw with
    | none => rw [rawString, hd]
    | some d =>
      apply rawString_of_ne hd
      intro hch
      rw [hch, isSign_of_isClosing (hraw d hd)] at hc
      cases hc
  have hbrief {token : Token} (htoken : m.scan.token = token) (hb : isBrief token = true) :
      token = .percentOperator ∧ m.scan.atLineEnd = false := by
    rcases ht with ht | ⟨ht, hend⟩
    · rw [htoken, hb] at ht
      cases ht
    · exact ⟨htoken.symm.trans ht, hend⟩
  rw [endToken]
  split
  case h_1 htoken => cases (hbrief htoken rfl).1
  case h_2 htoken => cases (hbrief htoken rfl).1
  case h_3 htoken => cases (hbrief htoken rfl).1
  case h_4 htoken => rw [hterm htoken, if_neg Bool.false_ne_true]
  case h_5 => exact hstring _ (by decide)
  case h_6 => exact hstring _ (by decide)
  case h_7 => exact hstring _ (by decide)
  case h_8 => exact hrawString _
  case h_9 => exact hrawString _
  case h_10 htoken =>
    rw [percentOperator, Scanner.sees_eq_false hc (by decide), (hbrief htoken rfl).2]
    simp
  case h_11 => rfl

end

end Machine

end R

end Restyle
