/-
Restyle.Proofs.Text.Tails — the lines that two texts have in common.

Whether a byte ends a line is told by it and the byte behind it. So where
texts end with the same bytes, lines end at the same places, and the line
numbers differ by what stands before, which is one difference for the
whole tail (`EndsAs.lineOf_add`). Every line that starts inside the tail
has the same body in both texts (`EndsAs.lineBody`), and so has every line
that ends inside a common head (`BeginsAs.lineBody`), though the byte
behind the head may make its terminator longer.

Where the two meet, one line break can be lost: a carriage return before
a deletion and a line feed behind it become one terminator
(`lineOf_delete`).
-/
import Restyle.Proofs.Buffer.Editing
import Restyle.Proofs.Text.LineRanges

namespace Restyle

/-! ## 1. Tables -/

/-- What stands behind the place of an insertion moves behind what is put in. -/
theorem getElem?_insertAt_add {α : Type} {xs : Array α} {i : Nat} (hi : i ≤ xs.size)
    (more : Array α) (k : Nat) : (insertAt xs i more)[i + more.size + k]? = xs[i + k]? := by
  have hhead : (xs.extract 0 i ++ more).size = i + more.size := by
    rw [Array.size_append, Array.size_extract, Nat.min_eq_left hi, Nat.sub_zero]
  rw [insertAt, Array.getElem?_append_right (by omega), hhead, Nat.add_sub_cancel_left,
    Array.getElem?_extract, Nat.min_self]
  split
  · rfl
  · rw [Array.getElem?_eq_none (by omega)]

/-- What stands behind a range that is taken out moves to its place. -/
theorem getElem?_removeRange_add {α : Type} {xs : Array α} {i j : Nat} (hi : i ≤ j)
    (hj : j ≤ xs.size) (k : Nat) : (removeRange xs i j)[i + k]? = xs[j + k]? := by
  have hhead : (xs.extract 0 i).size = i := by
    rw [Array.size_extract, Nat.min_eq_left (Nat.le_trans hi hj), Nat.sub_zero]
  rw [removeRange, Array.getElem?_append_right (by omega), hhead, Nat.add_sub_cancel_left,
    Array.getElem?_extract, Nat.min_self]
  split
  · rfl
  · rw [Array.getElem?_eq_none (by omega)]

namespace Text

/-- The bytes of a line before its terminator. -/
def lineBody (t : Text) (line : Nat) : List UInt8 :=
  t.bytesIn (t.lineStart line) (t.lineEnd line)

theorem lt_lineStart_of_lineOf_lt {t : Text} {p line : Nat} (h : t.lineOf p < line)
    (hle : line ≤ t.lastLine) : p < t.lineStart line :=
  Nat.lt_of_not_le fun hstart =>
    absurd ((t.lineStart_le_iff hle p).1 hstart) (Nat.not_le_of_lt h)

/-- A line before that of a position ends before it. -/
theorem exists_breaksAfter_of_lt_lineOf {t : Text} {n line : Nat} (h : line < t.lineOf n) :
    ∃ e < n, t.breaksAfter e = true ∧ t.lineOf e = line := by
  obtain ⟨e, -, hbreak, hline⟩ :=
    t.exists_breaksAfter_of_lt (Nat.lt_of_lt_of_le h (t.lineOf_le_lastLine n))
  refine ⟨e, Nat.lt_of_not_le fun hle => ?_, hbreak, hline⟩
  have := t.lineOf_mono hle
  omega

/-- Texts have the same bytes in ranges of one length where they agree byte by byte. -/
theorem bytesIn_congr {t t' : Text} {p q : Nat} (n : Nat)
    (h : ∀ r < n, t'.bytes[q + r]? = t.bytes[p + r]?) :
    t'.bytesIn q (q + n) = t.bytesIn p (p + n) := by
  apply List.ext_getElem?
  intro r
  simp only [bytesIn, Array.getElem?_toList, Array.getElem?_extract]
  by_cases hr : r < n
  · -- a position past the end of a text reads as nothing on both sides
    have read (xs : Array UInt8) (a : Nat) :
        (if r < min (a + n) xs.size - a then xs[a + r]? else none) = xs[a + r]? := by
      split
      · rfl
      · rw [Array.getElem?_eq_none (by omega)]
    rw [read, read, h r hr]
  · rw [if_neg (by omega), if_neg (by omega)]

/-! ## 2. Common tails -/

/-- The bytes of `t` from `p` on are those of `t'` from `q` on. -/
structure EndsAs (p q : Nat) (t t' : Text) : Prop where
  le : p ≤ t.size
  size : t'.size + p = t.size + q
  bytes : ∀ r, t'.bytes[q + r]? = t.bytes[p + r]?

namespace EndsAs

variable {p q i j : Nat} {t t' : Text} (h : EndsAs p q t t')
include h

theorem byteAt (r : Nat) : t'.byteAt (q + r) = t.byteAt (p + r) := by
  simp [Text.byteAt, Array.getD_eq_getD_getElem?, h.bytes r]

theorem breaksAfter (r : Nat) : t'.breaksAfter (q + r) = t.breaksAfter (p + r) := by
  simp only [Text.breaksAfter, Nat.add_assoc, h.byteAt]

/-- Line numbers differ by what they differ by where the tail starts. -/
theorem lineOf_add (r : Nat) : t'.lineOf (q + r) + t.lineOf p = t.lineOf (p + r) + t'.lineOf q := by
  induction r with
  | zero => exact Nat.add_comm ..
  | succ r ih =>
    rw [← Nat.add_assoc, ← Nat.add_assoc, lineOf_succ, lineOf_succ, h.breaksAfter]
    omega

theorem lastLine_add : t'.lastLine + t.lineOf p = t.lastLine + t'.lineOf q := by
  obtain ⟨r, hr⟩ := Nat.exists_eq_add_of_le h.le
  have hsize := h.size
  rw [Text.lastLine, Text.lastLine, show t'.size = q + r by omega, hr]
  exact h.lineOf_add r

/-- The lines that start inside the tail do so at the same place of it. -/
theorem lineStart_add (hi : t.lineOf p < i) (hj : j + t.lineOf p = i + t'.lineOf q) :
    t'.lineStart j + p = t.lineStart i + q := by
  have hlast := h.lastLine_add
  rcases Nat.lt_or_ge t.lastLine i with hlt | hle
  · rw [t.lineStart_of_lastLine_lt hlt, t'.lineStart_of_lastLine_lt (by omega)]
    exact h.size
  · obtain ⟨r, hr⟩ := Nat.exists_eq_add_of_lt (lt_lineStart_of_lineOf_lt hi hle)
    have hline := h.lineOf_add (r + 1)
    rw [← Nat.add_assoc, ← Nat.add_assoc, ← hr, t.lineOf_lineStart hle] at hline
    have hbreak := (t.lineStart_lineOf_eq_iff (t.lineStart i)).1 (by rw [t.lineOf_lineStart hle])
    rw [hr, Nat.add_sub_cancel, ← h.breaksAfter] at hbreak
    have hstart := (t'.lineStart_lineOf_eq_iff (q + r + 1)).2
      (Or.inr (hbreak.resolve_left (Nat.succ_ne_zero _)))
    rw [show t'.lineOf (q + r + 1) = j by omega] at hstart
    omega

/-- The lines that start inside the tail end at the same place of it. -/
theorem lineEnd_add (hi : t.lineOf p < i) (hle : i ≤ t.lastLine)
    (hj : j + t.lineOf p = i + t'.lineOf q) : t'.lineEnd j + p = t.lineEnd i + q := by
  have hlast := h.lastLine_add
  have hnext := h.lineStart_add (Nat.lt_succ_of_lt hi) (j := j + 1) (by omega)
  rcases Nat.lt_or_eq_of_le hle with hlt | rfl
  · obtain ⟨e, he, hbreak, rfl⟩ := t.exists_breaksAfter_of_lt hlt
    have hp : p < e := by
      refine Nat.lt_of_not_le fun hle => ?_
      have := t.lineOf_mono hle
      omega
    obtain ⟨r, rfl⟩ := Nat.exists_eq_add_of_lt hp
    have hbreak' : t'.breaksAfter (q + r + 1) = true := (h.breaksAfter (r + 1)).trans hbreak
    have hline : t'.lineOf (q + r + 1) = j := by
      have := h.lineOf_add (r + 1)
      rw [← Nat.add_assoc, ← Nat.add_assoc] at this
      omega
    have hpair : t'.endsPair (q + r + 1) = t.endsPair (p + r + 1) := by
      have hbyte : t'.byteAt (q + r + 1) = t.byteAt (p + r + 1) := h.byteAt (r + 1)
      rw [endsPair, endsPair, Nat.add_sub_cancel, Nat.add_sub_cancel, h.byteAt, hbyte,
        decide_eq_true (Nat.succ_pos _), decide_eq_true (Nat.succ_pos _)]
    rw [t.lineEnd_of_breaksAfter hbreak, ← hline, t'.lineEnd_of_breaksAfter hbreak', hpair]
    split <;> omega
  · simp only [lineEnd, Nat.le_refl, true_or, if_true]
    rw [if_pos (Or.inl (by omega))]
    exact hnext

/-- The lines that start inside the tail have the same bodies. -/
theorem lineBody (hi : t.lineOf p < i) (hle : i ≤ t.lastLine)
    (hj : j + t.lineOf p = i + t'.lineOf q) : t'.lineBody j = t.lineBody i := by
  have hstart := h.lineStart_add hi hj
  have hend := h.lineEnd_add hi hle hj
  have horder := t.lineStart_le_lineEnd_of_le hle
  obtain ⟨r, hr⟩ := Nat.exists_eq_add_of_le (Nat.le_of_lt (lt_lineStart_of_lineOf_lt hi hle))
  obtain ⟨n, hn⟩ := Nat.exists_eq_add_of_le horder
  rw [Text.lineBody, Text.lineBody, show t'.lineEnd j = t'.lineStart j + n by omega, hn]
  apply bytesIn_congr
  intro k hk
  rw [show t'.lineStart j + k = q + (r + k) by omega, h.bytes, hr, Nat.add_assoc]

end EndsAs

/-! ## 3. Common heads -/

namespace BeginsAs

variable {n i : Nat} {t t' : Text} (h : BeginsAs n t t')
include h

/-- A line that ends before the last of the bytes, with its terminator, starts and ends
where it did. -/
theorem lineStart_of_lt (hi : i < t.lineOf n) : t'.lineStart i = t.lineStart i := by
  obtain ⟨e, hlt, hbreak, rfl⟩ := exists_breaksAfter_of_lt_lineOf hi
  rw [← h.lineStart_lineOf hlt, h.lineOf hlt]

/-- A line that ends within the bytes ends where it did, though its terminator may have
got longer. -/
theorem lineEnd_of_lt (hi : i < t.lineOf n) : t'.lineEnd i = t.lineEnd i := by
  obtain ⟨e, hlt, hbreak, rfl⟩ := exists_breaksAfter_of_lt_lineOf hi
  have hline := h.lineOf hlt
  by_cases hbreak' : t'.breaksAfter e = true
  · have hpair : t'.endsPair e = t.endsPair e := by
      rw [endsPair, endsPair, h.byteAt hlt, h.byteAt (Nat.lt_of_le_of_lt (Nat.sub_le e 1) hlt)]
    rw [t.lineEnd_of_breaksAfter hbreak, ← hline, t'.lineEnd_of_breaksAfter hbreak', hpair]
  · -- a line feed has come behind the carriage return that ended the line
    have hbyte := h.byteAt hlt
    have hpair : t.byteAt e = 13 ∧ t'.byteAt (e + 1) = 10 := by
      have := t.byteAt_of_breaksAfter hbreak
      simp [Text.breaksAfter, hbyte] at hbreak'
      omega
    have hnext : t'.breaksAfter (e + 1) = true := by simp [Text.breaksAfter, hpair.2]
    have hnext_line : t'.lineOf (e + 1) = t.lineOf e := by
      rw [t'.lineOf_succ, if_neg hbreak', Nat.add_zero, hline]
    have hends' : t'.endsPair (e + 1) = true := by simp [endsPair, hpair, hbyte]
    have hends : t.endsPair e = false := by simp [endsPair, hpair.1]
    have hend := t'.lineEnd_of_breaksAfter hnext
    rw [hnext_line, hends', if_pos rfl, Nat.add_sub_cancel] at hend
    rw [hend, t.lineEnd_of_breaksAfter hbreak, hends]
    rfl

/-- A line that ends within the bytes keeps its body. -/
theorem lineBody_of_lt (hi : i < t.lineOf n) : t'.lineBody i = t.lineBody i := by
  have hlast := Nat.lt_of_lt_of_le hi (t.lineOf_le_lastLine n)
  obtain ⟨m, hm⟩ := Nat.exists_eq_add_of_le (t.lineStart_le_lineEnd hlast)
  have hend : t.lineEnd i ≤ n :=
    Nat.le_trans (t.lineEnd_le i) ((t.lineStart_le_iff hlast n).2 hi)
  rw [lineBody, lineBody, h.lineStart_of_lt hi, h.lineEnd_of_lt hi, hm]
  exact bytesIn_congr m fun r hr => h.bytes _ (by omega)

end BeginsAs

/-! ## 4. Edits -/

theorem endsAs_insert {t : Text} {pos : Nat} (h : pos ≤ t.size) (more : Array UInt8) :
    EndsAs pos (pos + more.size) t (t.insert pos more) where
  le := h
  size := by
    rw [t.size_insert h]
    omega
  bytes r := getElem?_insertAt_add h more r

theorem endsAs_delete {t : Text} {start stop : Nat} (h : start ≤ stop) (h' : stop ≤ t.size) :
    EndsAs stop start t (t.delete start stop) where
  le := h'
  size := by
    rw [t.size_delete h h']
    omega
  bytes r := getElem?_removeRange_add h h' r

/-- Whether a carriage return that ends a line before `start` meets a line feed when the
bytes up to `stop` are taken out. -/
def JoinsPair (t : Text) (start stop : Nat) : Prop :=
  start < stop ∧ t.PrecededBy '\r' start ∧ t.byteAt start ≠ 10 ∧ t.byteAt stop = 10

instance (t : Text) (start stop : Nat) : Decidable (t.JoinsPair start stop) :=
  inferInstanceAs (Decidable (_ ∧ (_ ∧ _) ∧ _ ∧ _))

variable {t : Text} {start stop : Nat}

/-- What a line break before the place of a deletion becomes. -/
theorem breaksAfter_delete {p : Nat} (h : p + 1 < stop) (h' : stop ≤ t.size) :
    (t.delete (p + 1) stop).breaksAfter p
      = (t.byteAt p == 10 || (t.byteAt p == 13 && t.byteAt stop != 10)) := by
  have hbyte := (beginsAs_delete (Nat.le_of_lt h) h').byteAt (Nat.lt_succ_self p)
  have hnext := (endsAs_delete (Nat.le_of_lt h) h').byteAt 0
  simp only [Nat.add_zero] at hnext
  rw [breaksAfter, hbyte, hnext]
  rfl

/-- The place of a deletion gets to an earlier line if two terminators become one there. -/
theorem JoinsPair.lineOf_delete (h : t.JoinsPair start stop) (h' : stop ≤ t.size) :
    (t.delete start stop).lineOf start + 1 = t.lineOf start := by
  obtain ⟨hlt, ⟨hpos, hcr⟩, hnext, hlf⟩ := h
  obtain ⟨p, rfl⟩ := Nat.exists_eq_add_one.2 hpos
  rw [Nat.add_sub_cancel] at hcr
  have hbreak : t.breaksAfter p = true := by simp [breaksAfter, hcr, hnext]
  have hbreak' : (t.delete (p + 1) stop).breaksAfter p = false := by
    simp [breaksAfter_delete hlt h', hcr, hlf]
  rw [lineOf_succ, lineOf_succ, hbreak, hbreak',
    (beginsAs_delete (Nat.le_of_lt hlt) h').lineOf (Nat.lt_succ_self p)]
  rfl

/-- Otherwise it does not. -/
theorem lineOf_le_lineOf_delete (h : ¬ t.JoinsPair start stop) (hlt : start < stop)
    (h' : stop ≤ t.size) : t.lineOf start ≤ (t.delete start stop).lineOf start := by
  cases start with
  | zero =>
    rw [lineOf_zero]
    exact Nat.zero_le _
  | succ p =>
    have hbreak : t.breaksAfter p = true → (t.delete (p + 1) stop).breaksAfter p = true := by
      intro hbreak
      rw [breaksAfter_delete hlt h']
      simp [JoinsPair, PrecededBy, hlt] at h
      simp [breaksAfter] at hbreak ⊢
      omega
    rw [lineOf_succ, lineOf_succ,
      (beginsAs_delete (Nat.le_of_lt hlt) h').lineOf (Nat.lt_succ_self p)]
    split
    · simp [hbreak ‹_›]
    · exact Nat.le_add_right ..

end Text

end Restyle
