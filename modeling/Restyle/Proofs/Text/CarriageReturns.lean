/-
Restyle.Proofs.Text.CarriageReturns — texts with CRLF for LF.

`crlf` puts a carriage return before every line feed of a text. In a text
without any before that, a byte of line `l` moves on by `l` (`crlfPos`),
and lines keep their numbers (`lineOf_crlfPos`), their starts
(`lineStart_crlf`) and what stands on them (`byteAt_crlfPos`).
-/
import Restyle.Proofs.Text.Characters

namespace Restyle

/-! ## 1. Bytes -/

/-- The bytes with a carriage return before every line feed. -/
def withReturns (bytes : List UInt8) : List UInt8 :=
  bytes.flatMap fun b => if b = 10 then [13, 10] else [b]

theorem toNat_eq_lf {b : UInt8} : b.toNat = 10 ↔ b = 10 := by
  rw [← UInt8.toNat_inj]
  rfl

theorem withReturns_append (xs ys : List UInt8) :
    withReturns (xs ++ ys) = withReturns xs ++ withReturns ys := List.flatMap_append

theorem withReturns_cons (b : UInt8) (bytes : List UInt8) :
    withReturns (b :: bytes) = (if b = 10 then [13, 10] else [b]) ++ withReturns bytes :=
  List.flatMap_cons

theorem length_withReturns (bytes : List UInt8) :
    (withReturns bytes).length = bytes.length + bytes.count 10 := by
  induction bytes with
  | nil => rfl
  | cons b bytes ih =>
    rw [withReturns_cons, List.length_append, ih, List.length_cons, List.count_cons]
    by_cases h : b = 10
    · simp only [h, if_true, beq_self_eq_true, List.length_cons, List.length_nil]
      omega
    · simp only [h, if_false, List.length_cons, List.length_nil, beq_iff_eq]
      omega

/-- What stands behind the first `p` bytes. -/
theorem getElem?_withReturns {bytes : List UInt8} {p : Nat} (hp : p ≤ bytes.length) (i : Nat) :
    (withReturns bytes)[p + (bytes.take p).count 10 + i]? = (withReturns (bytes.drop p))[i]? := by
  have hlen : (withReturns (bytes.take p)).length = p + (bytes.take p).count 10 := by
    rw [length_withReturns, List.length_take, Nat.min_eq_left hp]
  calc (withReturns bytes)[p + (bytes.take p).count 10 + i]?
      = (withReturns (bytes.take p) ++ withReturns (bytes.drop p))[
          p + (bytes.take p).count 10 + i]? := by
        rw [← withReturns_append, List.take_append_drop]
    _ = (withReturns (bytes.drop p))[i]? := by
        rw [List.getElem?_append_right (by omega), hlen, Nat.add_sub_cancel_left]

namespace Text

/-! ## 2. Texts -/

/-- The text with CRLF for LF. -/
def crlf (t : Text) : Text := .ofBytes (withReturns t.bytes.toList).toArray t.encoding

/-- No byte of the text is a carriage return. -/
def NoReturns (t : Text) : Prop := ∀ p, t.byteAt p ≠ '\r'.toNat

instance (t : Text) : Decidable t.NoReturns :=
  decidable_of_iff (∀ p < t.size, t.byteAt p ≠ '\r'.toNat)
    ⟨fun h p hp => h p (t.lt_size_of_byteAt (hp ▸ by decide)) hp, fun h p _ => h p⟩

/-- Where the byte at `p` comes to stand: behind one more byte for each line before its own. -/
def crlfPos (t : Text) (p : Nat) : Nat := p + t.lineOf p

variable {t : Text} {p q : Nat}

theorem crlfPos_lt (h : p < q) : t.crlfPos p < t.crlfPos q := by
  have := t.lineOf_mono (Nat.le_of_lt h)
  rw [crlfPos, crlfPos]
  omega

theorem crlfPos_lt_iff : t.crlfPos p < t.crlfPos q ↔ p < q := by
  refine ⟨fun h => ?_, crlfPos_lt⟩
  rcases Nat.lt_or_ge p q with hlt | hge
  · exact hlt
  · rcases Nat.lt_or_eq_of_le hge with hlt | rfl
    · have := crlfPos_lt (t := t) hlt
      omega
    · omega

theorem crlfPos_le_iff : t.crlfPos p ≤ t.crlfPos q ↔ p ≤ q := by
  rw [← Nat.not_lt, crlfPos_lt_iff, Nat.not_lt]

theorem crlfPos_inj : t.crlfPos p = t.crlfPos q ↔ p = q := by
  rw [Nat.eq_iff_le_and_ge, crlfPos_le_iff, crlfPos_le_iff, ← Nat.eq_iff_le_and_ge]

theorem crlfPos_zero : t.crlfPos 0 = 0 := by rw [crlfPos, t.lineOf_zero]

section

variable (h : t.NoReturns)
include h

theorem breaksAfter_eq (p : Nat) : t.breaksAfter p = (t.byteAt p == '\n'.toNat) := by
  rw [breaksAfter, beq_eq_false_iff_ne.2 (h p), Bool.false_and, Bool.or_false]

theorem crlfPos_succ (p : Nat) :
    t.crlfPos (p + 1) = t.crlfPos p + if t.byteAt p = 10 then 2 else 1 := by
  have hbreak := breaksAfter_eq h p
  rw [crlfPos, crlfPos, t.lineOf_succ, hbreak]
  by_cases hb : t.byteAt p = 10
  · simp [hb]; omega
  · simp [hb]; omega

/-- No byte comes to stand where a line feed is put behind its carriage return. -/
theorem crlfPos_ne_succ (hb : t.byteAt p = 10) (q : Nat) : t.crlfPos q ≠ t.crlfPos p + 1 := by
  have hsucc := crlfPos_succ h p
  rw [if_pos hb] at hsucc
  rcases Nat.lt_or_ge p q with hlt | hge
  · have := crlfPos_le_iff (t := t).2 (Nat.succ_le_of_lt hlt)
    rw [Nat.succ_eq_add_one] at this
    omega
  · have := crlfPos_le_iff (t := t).2 hge
    omega

/-- Where the bytes stand none of which ends a line. -/
theorem crlfPos_add (i : Nat) (hi : ∀ j < i, t.byteAt (p + j) ≠ 10) :
    t.crlfPos (p + i) = t.crlfPos p + i := by
  induction i with
  | zero => rfl
  | succ i ih =>
    rw [← Nat.add_assoc, crlfPos_succ h, if_neg (hi i (Nat.lt_succ_self i)),
      ih fun j hj => hi j (Nat.lt_succ_of_lt hj), Nat.add_assoc]

/-- The line of a position is the number of line feeds before it. -/
theorem lineOf_eq_count (p : Nat) : t.lineOf p = (t.bytes.toList.take p).count 10 := by
  induction p with
  | zero => rw [t.lineOf_zero, List.take_zero, List.count_nil]
  | succ p ih =>
    have hbyte : t.byteAt p = (t.bytes.toList[p]?.getD 0).toNat := by
      simp [byteAt, Array.getD_eq_getD_getElem?]
    rw [t.lineOf_succ, breaksAfter_eq h, ih, List.take_add_one, List.count_append, hbyte]
    cases t.bytes.toList[p]? with
    | none => simp
    | some b => simp [List.count_cons, toNat_eq_lf]

/-- What stands `i` bytes behind the place of the byte at `p`. -/
theorem byteAt_crlfPos_add (hp : p ≤ t.size) (i : Nat) :
    t.crlf.byteAt (t.crlfPos p + i)
      = ((withReturns (t.bytes.toList.drop p))[i]?.getD 0).toNat := by
  have hlen : p ≤ t.bytes.toList.length := by simpa [size] using hp
  have hget := getElem?_withReturns hlen i
  rw [crlfPos, lineOf_eq_count h, ← hget]
  simp [byteAt, crlf, ofBytes, Array.getD_eq_getD_getElem?]

theorem size_crlf : t.crlf.size = t.crlfPos t.size := by
  have htake : t.bytes.toList.take t.size = t.bytes.toList :=
    List.take_of_length_le (by simp [size])
  rw [crlfPos, lineOf_eq_count h, htake]
  simp [size, crlf, ofBytes, length_withReturns]

theorem crlf_size_le_crlfPos_iff : t.crlf.size ≤ t.crlfPos p ↔ t.size ≤ p := by
  rw [size_crlf h, crlfPos_le_iff]

theorem crlfPos_lt_size (hp : p < t.size) : t.crlfPos p < t.crlf.size := by
  rw [size_crlf h]
  exact crlfPos_lt hp

/-- A line feed has become a carriage return there. -/
theorem byteAt_crlfPos (p : Nat) :
    t.crlf.byteAt (t.crlfPos p) = if t.byteAt p = 10 then 13 else t.byteAt p := by
  rcases Nat.lt_or_ge p t.size with hp | hp
  · have hbyte := byteAt_crlfPos_add h (Nat.le_of_lt hp) 0
    have hlen : p < t.bytes.toList.length := by simpa [size] using hp
    have hat : t.byteAt p = (t.bytes.toList[p]).toNat := by
      simp [byteAt, Array.getD_eq_getD_getElem?, show p < t.bytes.size from hp]
    rw [Nat.add_zero, List.drop_eq_getElem_cons hlen, withReturns_cons] at hbyte
    simp only [hbyte, hat, toNat_eq_lf]
    split <;> rfl
  · rw [t.byteAt_eq_zero hp, t.crlf.byteAt_eq_zero ((crlf_size_le_crlfPos_iff h).2 hp)]
    rfl

theorem byteAt_crlfPos_of_ne (hb : t.byteAt p ≠ 10) : t.crlf.byteAt (t.crlfPos p) = t.byteAt p := by
  rw [byteAt_crlfPos h, if_neg hb]

/-- The line feed stands behind it. -/
theorem byteAt_crlfPos_succ (hb : t.byteAt p = 10) : t.crlf.byteAt (t.crlfPos p + 1) = 10 := by
  have hp := t.lt_size_of_byteAt (p := p) (by omega)
  have hlen : p < t.bytes.toList.length := by simpa [size] using hp
  have hat : t.bytes.toList[p] = 10 := by
    apply UInt8.toNat_inj.1
    rw [show (10 : UInt8).toNat = 10 from rfl, ← hb]
    simp [byteAt, Array.getD_eq_getD_getElem?, show p < t.bytes.size from hp]
  rw [byteAt_crlfPos_add h (Nat.le_of_lt hp) 1, List.drop_eq_getElem_cons hlen, withReturns_cons,
    hat]
  rfl

/-! ### Lines -/

theorem breaksAfter_crlfPos (p : Nat) : t.crlf.breaksAfter (t.crlfPos p) = false := by
  have hbyte := byteAt_crlfPos h p
  by_cases hb : t.byteAt p = 10
  · rw [if_pos hb] at hbyte
    simp [breaksAfter, hbyte, byteAt_crlfPos_succ h hb]
  · rw [if_neg hb] at hbyte
    have hcr := h p
    simp [breaksAfter, hbyte, hb]
    exact fun heq => absurd heq hcr

theorem breaksAfter_crlfPos_succ (hb : t.byteAt p = 10) :
    t.crlf.breaksAfter (t.crlfPos p + 1) = true := by
  simp [breaksAfter, byteAt_crlfPos_succ h hb]

/-- Bytes stay on their lines. -/
theorem lineOf_crlfPos (p : Nat) : t.crlf.lineOf (t.crlfPos p) = t.lineOf p := by
  induction p with
  | zero => rw [crlfPos_zero, lineOf_zero, lineOf_zero]
  | succ p ih =>
    have hfirst := t.crlf.lineOf_succ (t.crlfPos p)
    rw [breaksAfter_crlfPos h, ih] at hfirst
    rw [crlfPos_succ h, t.lineOf_succ, breaksAfter_eq h]
    by_cases hb : t.byteAt p = 10
    · rw [if_pos hb, show t.crlfPos p + 2 = t.crlfPos p + 1 + 1 from rfl, t.crlf.lineOf_succ, hfirst,
        breaksAfter_crlfPos_succ h hb]
      simp [hb]
    · rw [if_neg hb, hfirst]
      simp [hb]

theorem lastLine_crlf : t.crlf.lastLine = t.lastLine := by
  rw [lastLine, size_crlf h, lineOf_crlfPos h, lastLine]

theorem lineCount_crlf : t.crlf.lineCount = t.lineCount := by
  rw [lineCount_eq_lastLine, lineCount_eq_lastLine, lastLine_crlf h]

theorem lineAt_crlfPos (p : Nat) : t.crlf.lineAt (t.crlfPos p) = t.lineAt p := by
  have hsize : t.crlf.size < t.crlfPos p ↔ t.size < p := by rw [size_crlf h, crlfPos_lt_iff]
  rw [lineAt, lineAt, lineOf_crlfPos h]
  by_cases hlt : t.size < p
  · rw [if_pos hlt, if_pos (hsize.2 hlt)]
  · rw [if_neg hlt, if_neg fun hc => hlt (hsize.1 hc)]

/-- A line ends where it did, if it does not end at a line feed. -/
theorem lineEndsAt_crlfPos (hb : t.byteAt p ≠ 10) :
    t.crlf.lineEndsAt (t.crlfPos p) = t.lineEndsAt p := by
  have hno : t.breaksAfter p = false := (breaksAfter_eq h p).trans (beq_eq_false_iff_ne.2 hb)
  rw [lineEndsAt, lineEndsAt, breaksAfter_crlfPos h, hno, Bool.false_or, Bool.false_or,
    Bool.eq_iff_iff, decide_eq_true_iff, decide_eq_true_iff, crlf_size_le_crlfPos_iff h]

/-- It starts where it did. -/
theorem lineStartsAt_crlfPos (p : Nat) :
    (t.crlfPos p == 0 || t.crlf.lineEndsAt (t.crlfPos p - 1))
      = (p == 0 || t.lineEndsAt (p - 1)) := by
  cases p with
  | zero =>
    rw [crlfPos_zero]
    rfl
  | succ p =>
    have hsucc := crlfPos_succ h p
    rw [Nat.add_sub_cancel]
    by_cases hb : t.byteAt p = 10
    · rw [if_pos hb] at hsucc
      have hprev : t.crlfPos (p + 1) - 1 = t.crlfPos p + 1 := by omega
      rw [hprev, lineEndsAt, lineEndsAt, breaksAfter_crlfPos_succ h hb, breaksAfter_eq h, hb]
      simp
    · rw [if_neg hb] at hsucc
      have hprev : t.crlfPos (p + 1) - 1 = t.crlfPos p := by omega
      have hne : t.crlfPos (p + 1) ≠ 0 := by omega
      rw [hprev, lineEndsAt_crlfPos h hb]
      simp [hne]

/-- Lines start at the bytes they did; past the last one that is the end of the text. -/
theorem lineStart_crlf (line : Nat) : t.crlf.lineStart line = t.crlfPos (t.lineStart line) := by
  rcases Nat.lt_or_ge t.lastLine line with hgt | hl
  · rw [t.lineStart_of_lastLine_lt hgt, t.crlf.lineStart_of_lastLine_lt (by rwa [lastLine_crlf h]),
      size_crlf h]
  have hl' : line ≤ t.crlf.lastLine := by rw [lastLine_crlf h]; exact hl
  have hline := t.lineOf_lineStart hl
  apply Nat.le_antisymm
  · have hsame : t.crlf.lineOf (t.crlfPos (t.lineStart line)) = line := by
      rw [lineOf_crlfPos h, hline]
    exact (t.crlf.lineStart_le_iff hl' _).2 (Nat.le_of_eq hsame.symm)
  · have hle := (t.crlf.lineStart_le_iff hl' (t.crlf.lineStart line)).1 (Nat.le_refl _)
    have hstart := (t.lineStart_lineOf_eq_iff (t.lineStart line)).1 (by rw [hline])
    generalize t.lineStart line = start at hline hstart ⊢
    cases start with
    | zero => rw [crlfPos_zero]; exact Nat.zero_le _
    | succ q =>
      -- the line feed before the line start is still on the line before
      have hbreak : t.breaksAfter q = true := hstart.resolve_left (Nat.succ_ne_zero q)
      have hlf : t.byteAt q = 10 := by
        rw [breaksAfter_eq h] at hbreak
        exact beq_iff_eq.1 hbreak
      have hsucc := t.lineOf_succ q
      have hfirst := t.crlf.lineOf_succ (t.crlfPos q)
      rw [hbreak, hline, if_pos rfl] at hsucc
      rw [breaksAfter_crlfPos h, lineOf_crlfPos h, if_neg Bool.false_ne_true] at hfirst
      rw [crlfPos_succ h, if_pos hlf]
      apply Nat.lt_of_not_le
      intro hge
      have hmono := t.crlf.lineOf_mono hge
      omega

/-- Terminators start where they did. -/
theorem lineEnd_crlf (line : Nat) : t.crlf.lineEnd line = t.crlfPos (t.lineEnd line) := by
  rcases Nat.lt_or_ge line t.lastLine with hlt | hge
  · obtain ⟨q, -, hbreak, rfl⟩ := t.exists_breaksAfter_of_lt hlt
    have hlf : t.byteAt q = 10 := by
      rw [breaksAfter_eq h] at hbreak
      exact beq_iff_eq.1 hbreak
    have hsingle : t.endsPair q = false := by
      have hcr : t.byteAt (q - 1) ≠ 13 := h (q - 1)
      rw [endsPair, beq_eq_false_iff_ne.2 hcr, Bool.and_false]
    -- the carriage return put in is where the terminator starts now
    have hfeed := t.crlf.lineOf_succ (t.crlfPos q)
    rw [breaksAfter_crlfPos h, lineOf_crlfPos h, if_neg Bool.false_ne_true] at hfeed
    have hpair : t.crlf.endsPair (t.crlfPos q + 1) = true := by
      simp [endsPair, byteAt_crlfPos_succ h hlf, byteAt_crlfPos h, hlf]
    have hend := t.crlf.lineEnd_of_breaksAfter (breaksAfter_crlfPos_succ h hlf)
    rw [hfeed, hpair, if_pos rfl, Nat.add_sub_cancel, Nat.add_zero] at hend
    rw [hend, t.lineEnd_of_breaksAfter hbreak, hsingle, if_neg Bool.false_ne_true]
  · have hend {t : Text} (hge : t.lastLine ≤ line) : t.lineEnd line = t.size := by
      rw [lineEnd, if_pos (Or.inl hge), t.lineStart_of_lastLine_lt (Nat.lt_succ_of_le hge)]
    rw [hend hge, hend (by rwa [lastLine_crlf h]), size_crlf h]

/-! ### Pieces of lines -/

omit h in
/-- No line feed stands between two places on one line. -/
theorem byteAt_ne_of_lineOf_le {start stop : Nat} (hle : t.lineOf stop ≤ t.lineOf start)
    (hp : start ≤ p) (hp' : p < stop) : t.byteAt p ≠ 10 := by
  intro hb
  have hsucc := t.lineOf_succ p
  rw [show t.breaksAfter p = true by simp [breaksAfter, hb], if_pos rfl] at hsucc
  have hstart := t.lineOf_mono hp
  have hstop := t.lineOf_mono (Nat.succ_le_of_lt hp')
  rw [Nat.succ_eq_add_one] at hstop
  omega

/-- A word without line ends is spelled at the same places. -/
theorem spells_crlf_iff {word : List Nat} (hw : ∀ c ∈ word, c ≠ 10 ∧ c ≠ 13) (p : Nat) :
    (∀ i c, word[i]? = some c → t.crlf.byteAt (t.crlfPos p + i) = c)
      ↔ ∀ i c, word[i]? = some c → t.byteAt (p + i) = c := by
  -- the letters before one say that no line feed stands before it
  have hbyte {i c : Nat} (hc : word[i]? = some c)
      (hall : ∀ j < i, ∀ c, word[j]? = some c → t.byteAt (p + j) = c) :
      t.crlf.byteAt (t.crlfPos p + i) = c ↔ t.byteAt (p + i) = c := by
    obtain ⟨hi, -⟩ := List.getElem?_eq_some_iff.1 hc
    obtain ⟨hlf, hcr⟩ := hw c (List.mem_of_getElem? hc)
    have hpos : t.crlfPos (p + i) = t.crlfPos p + i := by
      apply crlfPos_add h
      intro j hj
      have hletter := List.getElem?_eq_getElem (Nat.lt_trans hj hi)
      rw [hall j hj _ hletter]
      exact (hw _ (List.mem_of_getElem? hletter)).1
    rw [← hpos, byteAt_crlfPos h]
    split <;> omega
  constructor
  · intro hall i
    induction i using Nat.strongRecOn with
    | _ i ih => exact fun c hc => (hbyte hc ih).1 (hall i c hc)
  · exact fun hall i c hc => (hbyte hc fun j _ => hall j).2 (hall i c hc)

/-- A piece of a line is the same there. -/
theorem slice_crlf {start stop : Nat} (hle : start ≤ stop) (hstop : stop ≤ t.size)
    (hno : ∀ p, start ≤ p → p < stop → t.byteAt p ≠ 10) :
    t.crlf.slice (start + t.lineOf start) (stop + t.lineOf start) = t.slice start stop := by
  have hmono := t.lineOf_mono (Nat.le_trans hle hstop)
  have hsize := size_crlf h
  rw [crlfPos] at hsize
  rw [slice, slice, bytesIn, bytesIn]
  congr 1
  apply List.ext_getElem?
  intro i
  simp only [Array.getElem?_toList, Array.getElem?_extract]
  by_cases hi : start + i < stop
  · have hbyte : t.crlf.byteAt (start + t.lineOf start + i) = t.byteAt (start + i) := by
      have hadd := crlfPos_add h i fun j hj => hno (start + j) (by omega) (by omega)
      rw [show start + t.lineOf start + i = t.crlfPos (start + i) from hadd.symm]
      exact byteAt_crlfPos_of_ne h (hno _ (by omega) hi)
    have hlt : start + i < t.bytes.size := Nat.lt_of_lt_of_le hi hstop
    have hlt' : start + t.lineOf start + i < t.crlf.bytes.size := by
      show _ < t.crlf.size
      omega
    rw [if_pos (by omega), if_pos (by omega), Array.getElem?_eq_getElem hlt,
      Array.getElem?_eq_getElem hlt']
    congr 1
    apply UInt8.toNat_inj.1
    simpa [byteAt, Array.getD_eq_getD_getElem?, hlt, hlt'] using hbyte
  · rw [if_neg (by omega), if_neg (by omega)]

end

end Text

end Restyle
