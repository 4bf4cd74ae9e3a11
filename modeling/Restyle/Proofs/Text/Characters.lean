/-
Restyle.Proofs.Text.Characters — characters and the ends of lines.

The bytes inside a character of several bytes are continuation bytes, and
so is none that ends a line. A walk by characters therefore never steps
over a line end, or over the end of the text, without standing on it
(`add_width_le_of_isStop`).

Two texts with the same bytes up to a place where a line ends in both
have the same characters up to there (`SameTo.charAt`): a character that
is cut off there is none in either.
-/
import Restyle.Proofs.Text.Lines

namespace Restyle

/-! ## 1. The decoder -/

namespace Utf8

/-- A character of several bytes is no ASCII character, and its bytes after the first
are continuation bytes. -/
theorem decode?_eq_some {b₀ b₁ b₂ b₃ : Nat} {d : Decoded} (h : decode? b₀ b₁ b₂ b₃ = some d) :
    0x80 ≤ d.code ∧ 1 < d.width ∧ d.width ≤ 4 ∧ isContinuation b₁ = true
      ∧ (2 < d.width → isContinuation b₂ = true) ∧ (3 < d.width → isContinuation b₃ = true) := by
  rw [decode?] at h
  split at h
  · rw [decode₂] at h
    split at h
    · obtain rfl := Option.some.inj h
      simp_all
      omega
    · cases h
  · split at h
    · rw [decode₃] at h
      split at h
      · dsimp only at h
        split at h
        · cases h
        · obtain rfl := Option.some.inj h
          simp_all
          omega
      · cases h
    · split at h
      · rw [decode₄] at h
        split at h
        · dsimp only at h
          split at h
          · cases h
          · obtain rfl := Option.some.inj h
            simp_all
            omega
        · cases h
      · cases h

/-- The decoder looks no further than the first byte that continues nothing. -/
theorem decode?_congr (b₀ : Nat) {b₁ b₂ b₃ c₁ c₂ c₃ : Nat} (h₁ : c₁ = b₁)
    (h₂ : isContinuation b₁ = true → c₂ = b₂)
    (h₃ : isContinuation b₁ = true → isContinuation b₂ = true → c₃ = b₃) :
    decode? b₀ c₁ c₂ c₃ = decode? b₀ b₁ b₂ b₃ := by
  subst h₁
  cases hc₁ : isContinuation c₁ with
  | false => simp [decode?, decode₂, decode₃, decode₄, hc₁]
  | true =>
    rw [h₂ hc₁]
    cases hc₂ : isContinuation b₂ with
    | false => simp [decode?, decode₃, decode₄, hc₂]
    | true => rw [h₃ hc₁ hc₂]

end Utf8

namespace Text

variable (t : Text)

/-! ## 2. One character -/

/-- A character is a byte by itself, or one of several bytes with a lead of 0x80 or more. -/
theorem charAt_cases (pos : Nat) :
    t.charAt pos = ⟨t.byteAt pos, 1⟩ ∨ (0x80 ≤ t.byteAt pos ∧
      Utf8.decode? (t.byteAt pos) (t.byteAt (pos + 1)) (t.byteAt (pos + 2)) (t.byteAt (pos + 3))
        = some (t.charAt pos)) := by
  by_cases hs : t.size ≤ pos
  · left
    rw [charAt, if_pos hs, t.byteAt_eq_zero hs]
  · by_cases hl : t.encoding = .eightBit ∨ t.byteAt pos < 0x80
    · left
      rw [charAt, if_neg hs, if_pos hl]
    · rw [charAt, if_neg hs, if_neg hl]
      cases hd : Utf8.decode? (t.byteAt pos) (t.byteAt (pos + 1)) (t.byteAt (pos + 2))
          (t.byteAt (pos + 3)) with
      | none => left; rfl
      | some d => right; exact ⟨by omega, rfl⟩

theorem charAt_of_byteAt_lt {pos : Nat} (h : t.byteAt pos < 0x80) :
    t.charAt pos = ⟨t.byteAt pos, 1⟩ := by
  rcases t.charAt_cases pos with h' | ⟨h', -⟩
  · exact h'
  · omega

theorem byteAt_eq_of_code_lt {pos : Nat} (h : (t.charAt pos).code < 0x80) :
    t.byteAt pos = (t.charAt pos).code := by
  rcases t.charAt_cases pos with h' | ⟨-, h'⟩
  · rw [h']
  · have := (Utf8.decode?_eq_some h').1
    omega

/-- An ASCII code is told by its byte. -/
theorem code_eq_iff {c : Nat} (hc : c < 0x80) {pos : Nat} :
    (t.charAt pos).code = c ↔ t.byteAt pos = c := by
  constructor
  · intro h
    rw [t.byteAt_eq_of_code_lt (by omega), h]
  · intro h
    rw [t.charAt_of_byteAt_lt (by omega)]
    exact h

theorem width_pos (pos : Nat) : 0 < (t.charAt pos).width := by
  rcases t.charAt_cases pos with h | ⟨-, h⟩
  · rw [h]; exact Nat.one_pos
  · have := (Utf8.decode?_eq_some h).2.1
    omega

/-- The bytes inside a character continue it. -/
theorem isContinuation_of_inside {p q : Nat} (h : p < q)
    (h' : q < p + (t.charAt p).width) : Utf8.isContinuation (t.byteAt q) = true := by
  rcases t.charAt_cases p with hc | ⟨-, hc⟩
  · rw [hc] at h'
    simp at h'
    omega
  · obtain ⟨-, -, hw, h₁, h₂, h₃⟩ := Utf8.decode?_eq_some hc
    obtain rfl | rfl | rfl : q = p + 1 ∨ q = p + 2 ∨ q = p + 3 := by omega
    · exact h₁
    · exact h₂ (by omega)
    · exact h₃ (by omega)

/-- They are no ASCII characters. -/
theorem le_byteAt_of_inside {p q : Nat} (h : p < q)
    (h' : q < p + (t.charAt p).width) : 128 ≤ t.byteAt q := by
  have hc := t.isContinuation_of_inside h h'
  simp only [Utf8.isContinuation, Bool.and_eq_true, decide_eq_true_eq] at hc
  exact hc.1

theorem breaksAfter_eq_false_of_inside {p q : Nat} (h : p < q)
    (h' : q < p + (t.charAt p).width) : t.breaksAfter q = false := by
  have hc := t.le_byteAt_of_inside h h'
  have h₁ : t.byteAt q ≠ 10 := by omega
  have h₂ : t.byteAt q ≠ 13 := by omega
  simp [breaksAfter, h₁, h₂]

/-- What a walk sees at the end of a line. -/
theorem charAt_of_lineEndsAt {p : Nat} (h : t.lineEndsAt p = true) :
    ((t.charAt p).code = 10 ∨ (t.charAt p).code = 13 ∨ (t.charAt p).code = 0)
      ∧ (t.charAt p).width = 1 := by
  have hb : t.byteAt p = 10 ∨ t.byteAt p = 13 ∨ t.byteAt p = 0 := by
    simp only [lineEndsAt, Bool.or_eq_true, decide_eq_true_eq] at h
    rcases h with h | h
    · rcases t.byteAt_of_breaksAfter h with h | h <;> simp [h]
    · simp [t.byteAt_eq_zero h]
  rw [t.charAt_of_byteAt_lt (by omega)]
  exact ⟨hb, rfl⟩

/-- No character reaches past the end of the text. -/
theorem add_width_le_size {p : Nat} (h : p < t.size) :
    p + (t.charAt p).width ≤ t.size := by
  have hw := t.width_pos p
  by_cases hone : (t.charAt p).width = 1
  · omega
  · have hc := t.isContinuation_of_inside (p := p) (q := p + (t.charAt p).width - 1)
      (by omega) (by omega)
    have := t.lt_size_of_byteAt (p := p + (t.charAt p).width - 1) (by
      intro h0
      simp [h0, Utf8.isContinuation] at hc)
    omega

/-- No line ends inside a character. -/
theorem lineEndsAt_eq_false_of_inside {p q : Nat} (h : p < q)
    (h' : q < p + (t.charAt p).width) : t.lineEndsAt q = false := by
  have hs : p < t.size := by
    apply Nat.lt_of_not_le
    intro hge
    have hwidth := (t.charAt_of_lineEndsAt (p := p) (by simp [lineEndsAt, hge])).2
    omega
  have hle := t.add_width_le_size hs
  rw [lineEndsAt, t.breaksAfter_eq_false_of_inside h h', Bool.false_or, decide_eq_false_iff_not]
  omega

/-- A walk comes to the next line behind the last character of a line and nowhere else. -/
theorem lineAt_add_width {pos : Nat} (h : pos ≤ t.size) :
    t.lineAt (pos + (t.charAt pos).width)
      = t.lineAt pos + if t.lineEndsAt pos then 1 else 0 := by
  by_cases hone : (t.charAt pos).width = 1
  · rw [hone, t.lineAt_succ h]
  · have hend : t.lineEndsAt pos = false := by
      cases he : t.lineEndsAt pos with
      | false => rfl
      | true => exact absurd (t.charAt_of_lineEndsAt he).2 hone
    have hpos : pos < t.size := by
      by_cases hs : t.size ≤ pos
      · simp [lineEndsAt, hs] at hend
      · omega
    have hb : t.breaksAfter pos = false := by
      simp only [lineEndsAt, Bool.or_eq_false_iff] at hend
      exact hend.1
    rw [t.lineAt_of_le h, t.lineAt_of_le (t.add_width_le_size hpos), hend,
      t.lineOf_eq_of_no_break (Nat.le_add_right pos _)]
    · simp
    · intro r hr hr'
      by_cases heq : r = pos
      · rw [heq]; exact hb
      · exact t.breaksAfter_eq_false_of_inside (p := pos) (by omega) hr'

/-- In an eight-bit encoding every byte is a character. -/
theorem charAt_of_eightBit (h : t.encoding = .eightBit) (p : Nat) :
    t.charAt p = ⟨t.byteAt p, 1⟩ := by
  rw [charAt]
  split
  · rename_i hs
    rw [t.byteAt_eq_zero hs]
  · rw [if_pos (Or.inl h)]

/-! ## 3. Where walks stop -/

/-- Whether a walk that starts before `k` must stand on `k` some time: a line starts
there, or it is where the walk over the whole text ends. -/
def IsStop (k : Nat) : Prop := k = t.size + 1 ∨ (0 < k ∧ t.breaksAfter (k - 1) = true)

theorem isStop_size_succ : t.IsStop (t.size + 1) := Or.inl rfl

theorem isStop_of_mem_starts {k : Nat} (h : k ∈ t.starts) (h' : 0 < k) : t.IsStop k := by
  rcases t.mem_starts_iff.1 h with h | h
  · omega
  · exact Or.inr ⟨h', h⟩

variable {t}

theorem IsStop.le {k : Nat} (h : t.IsStop k) : k ≤ t.size + 1 := by
  rcases h with rfl | ⟨-, h⟩
  · exact Nat.le_refl _
  · have := t.lt_size_of_breaksAfter h
    omega

/-- A walk does not step over a place where it stops. -/
theorem add_width_le_of_isStop {k pos : Nat} (hk : t.IsStop k) (h : pos < k) :
    pos + (t.charAt pos).width ≤ k := by
  rcases hk with rfl | ⟨-, hb⟩
  · by_cases hs : pos < t.size
    · have := t.add_width_le_size hs
      omega
    · have hw := (t.charAt_of_lineEndsAt (p := pos) (by simp [lineEndsAt]; omega)).2
      omega
  · have hw := t.width_pos pos
    by_cases hin : k - 1 < pos + (t.charAt pos).width
    · by_cases heq : pos = k - 1
      · have := (t.charAt_of_lineEndsAt (p := pos) (by rw [heq]; simp [lineEndsAt, hb])).2
        omega
      · have := t.breaksAfter_eq_false_of_inside (p := pos) (q := k - 1) (by omega) hin
        rw [hb] at this
        cases this
    · omega

/-- Only the last character of a line takes a walk to a place where it stops. -/
theorem add_width_lt_of_isStop {k pos : Nat} (hk : t.IsStop k) (h : pos < k)
    (hend : t.lineEndsAt pos = false) : pos + (t.charAt pos).width < k := by
  have hle := add_width_le_of_isStop hk h
  have hw := t.width_pos pos
  by_cases heq : pos + (t.charAt pos).width = k
  · exfalso
    simp only [lineEndsAt, Bool.or_eq_false_iff, decide_eq_false_iff_not] at hend
    rcases hk with rfl | ⟨-, hb⟩
    · have := t.add_width_le_size (p := pos) (by omega)
      omega
    · by_cases hin : pos = k - 1
      · rw [hin, hb] at hend
        exact absurd hend.1 (by decide)
      · have := t.breaksAfter_eq_false_of_inside (p := pos) (q := k - 1) (by omega) (by omega)
        rw [hb] at this
        cases this
  · omega

/-- A walk that stops at `k` goes on behind a byte that ends neither a line nor the text. -/
theorem succ_lt_of_isStop {k pos : Nat} (hk : t.IsStop k) (h : pos < k)
    (hend : t.lineEndsAt pos = false) : pos + 1 < k := by
  have := add_width_lt_of_isStop hk h hend
  have := t.width_pos pos
  omega

/-! ## 4. The same bytes in another encoding -/

/-- The text in another encoding. -/
def recode (t : Text) (e : Encoding) : Text := { t with encoding := e }

@[simp] theorem byteAt_recode (e : Encoding) (p : Nat) : (t.recode e).byteAt p = t.byteAt p := rfl

@[simp] theorem lastLine_recode (e : Encoding) : (t.recode e).lastLine = t.lastLine := rfl

/-! ## 5. Texts that begin alike -/

/-- The texts have the same bytes before `k`, where a walk stops in both. -/
structure SameTo (k : Nat) (t t' : Text) : Prop where
  encoding : t'.encoding = t.encoding
  bytes : ∀ p < k, t'.bytes[p]? = t.bytes[p]?
  stop : t.IsStop k
  stop' : t'.IsStop k

theorem SameTo.refl {k : Nat} (hk : t.IsStop k) : SameTo k t t := ⟨rfl, fun _ _ => rfl, hk, hk⟩

namespace SameTo

variable {k : Nat} {t t' : Text} (h : SameTo k t t')
include h

theorem byteAt {p : Nat} (hp : p < k) : t'.byteAt p = t.byteAt p := by
  simp [Text.byteAt, Array.getD_eq_getD_getElem?, h.bytes p hp]

theorem lt_size_iff {p : Nat} (hp : p < k) : p < t'.size ↔ p < t.size := by
  have hb := h.bytes p hp
  rw [size, size]
  constructor
  · intro hlt
    rw [Array.getElem?_eq_getElem hlt] at hb
    exact Array.getElem?_eq_some_iff.1 hb.symm |>.1
  · intro hlt
    rw [Array.getElem?_eq_getElem hlt] at hb
    exact Array.getElem?_eq_some_iff.1 hb |>.1

theorem bytesIn {start stop : Nat} (hstop : stop ≤ k) :
    t'.bytesIn start stop = t.bytesIn start stop := by
  rw [Text.bytesIn, Text.bytesIn]
  apply List.ext_getElem?
  intro i
  simp only [Array.getElem?_toList, Array.getElem?_extract]
  by_cases hi : start + i < stop
  · have hb := h.bytes (start + i) (by omega)
    have hs : start + i < t'.bytes.size ↔ start + i < t.bytes.size := h.lt_size_iff (by omega)
    rw [hb]
    by_cases hlt : start + i < t.bytes.size
    · rw [if_pos (by omega), if_pos (by omega)]
    · rw [if_neg (by omega), if_neg (by omega)]
  · rw [if_neg (by omega), if_neg (by omega)]

theorem slice {start stop : Nat} (hstop : stop ≤ k) : t'.slice start stop = t.slice start stop := by
  rw [Text.slice, Text.slice, h.bytesIn hstop]

/-- Texts that begin alike up to behind the end of one are the same. -/
theorem byteAt_of_size_succ (hk : k = t.size + 1) (p : Nat) : t'.byteAt p = t.byteAt p := by
  by_cases hp : p < k
  · exact h.byteAt hp
  · have hs : ¬ t.size < t'.size := by rw [h.lt_size_iff (by omega)]; omega
    rw [t.byteAt_eq_zero (by omega), t'.byteAt_eq_zero (by omega)]

theorem breaksAfter {p : Nat} (hp : p < k) : t'.breaksAfter p = t.breaksAfter p := by
  by_cases hnext : p + 1 < k
  · rw [Text.breaksAfter, Text.breaksAfter, h.byteAt hp, h.byteAt hnext]
  · obtain rfl : k = p + 1 := by omega
    rcases h.stop with hk | ⟨-, hb⟩
    · rw [Text.breaksAfter, Text.breaksAfter, h.byteAt_of_size_succ hk, h.byteAt_of_size_succ hk]
    · rcases h.stop' with hk' | ⟨-, hb'⟩
      · have := t.lt_size_of_breaksAfter hb
        have := (h.lt_size_iff hp).2 (by omega)
        omega
      · rw [Nat.add_sub_cancel] at hb hb'
        rw [hb, hb']

theorem lineEndsAt {p : Nat} (hp : p < k) : t'.lineEndsAt p = t.lineEndsAt p := by
  have hs := h.lt_size_iff hp
  rw [Text.lineEndsAt, Text.lineEndsAt, h.breaksAfter hp,
    show decide (t'.size ≤ p) = decide (t.size ≤ p) by simp; omega]

/-- A byte that ends no line is followed by the same byte. -/
theorem byteAt_succ {p : Nat} (hp : p < k) (hb : t.breaksAfter p = false) :
    t'.byteAt (p + 1) = t.byteAt (p + 1) := by
  by_cases hnext : p + 1 < k
  · exact h.byteAt hnext
  · obtain rfl : k = p + 1 := by omega
    rcases h.stop with hk | ⟨-, hk⟩
    · exact h.byteAt_of_size_succ hk _
    · rw [Nat.add_sub_cancel, hb] at hk
      cases hk

omit h in
/-- A continuation byte never stands where a walk stops. -/
theorem succ_lt_of_isContinuation {p : Nat} (hk : t.IsStop k) (hp : p < k)
    (hb : t.breaksAfter p = false) (hc : Utf8.isContinuation (t.byteAt (p + 1)) = true) :
    p + 1 < k := by
  rcases hk with rfl | ⟨-, hk⟩
  · have := t.lt_size_of_byteAt (p := p + 1) (by
      intro h0
      simp [h0, Utf8.isContinuation] at hc)
    omega
  · by_cases hnext : p + 1 < k
    · exact hnext
    · rw [show k - 1 = p by omega, hb] at hk
      cases hk

omit h in
theorem breaksAfter_of_isContinuation {p : Nat}
    (hc : Utf8.isContinuation (t.byteAt p) = true) : t.breaksAfter p = false := by
  cases hb : t.breaksAfter p with
  | false => rfl
  | true =>
    have := t.byteAt_of_breaksAfter hb
    simp only [Utf8.isContinuation, Bool.and_eq_true, decide_eq_true_eq] at hc
    omega

theorem charAt {p : Nat} (hp : p < k) : t'.charAt p = t.charAt p := by
  have hs : t'.size ≤ p ↔ t.size ≤ p := by have := h.lt_size_iff hp; omega
  by_cases hlead : t.byteAt p < 0x80
  · have hlead' : t'.byteAt p < 0x80 := by rw [h.byteAt hp]; exact hlead
    rw [t.charAt_of_byteAt_lt hlead, t'.charAt_of_byteAt_lt hlead', h.byteAt hp]
  · have hb₀ : t.breaksAfter p = false := by
      cases hb : t.breaksAfter p with
      | false => rfl
      | true => have := t.byteAt_of_breaksAfter hb; omega
    have hsame : Utf8.decode? (t.byteAt p) (t'.byteAt (p + 1)) (t'.byteAt (p + 2))
          (t'.byteAt (p + 3))
        = Utf8.decode? (t.byteAt p) (t.byteAt (p + 1)) (t.byteAt (p + 2)) (t.byteAt (p + 3)) := by
      apply Utf8.decode?_congr
      · exact h.byteAt_succ hp hb₀
      · intro hc₁
        exact h.byteAt_succ (succ_lt_of_isContinuation h.stop hp hb₀ hc₁)
          (breaksAfter_of_isContinuation hc₁)
      · intro hc₁ hc₂
        have hlt := succ_lt_of_isContinuation h.stop hp hb₀ hc₁
        exact h.byteAt_succ
          (succ_lt_of_isContinuation h.stop hlt (breaksAfter_of_isContinuation hc₁) hc₂)
          (breaksAfter_of_isContinuation hc₂)
    rw [Text.charAt, Text.charAt, h.encoding, h.byteAt hp]
    simp only [hs, hsame]

theorem lineOf {p : Nat} (hp : p ≤ k) : t'.lineOf p = t.lineOf p := by
  induction p with
  | zero => rw [t.lineOf_zero, t'.lineOf_zero]
  | succ p ih => rw [t.lineOf_succ, t'.lineOf_succ, ih (by omega), h.breaksAfter (by omega)]

theorem lineAt {p : Nat} (hp : p ≤ k) : t'.lineAt p = t.lineAt p := by
  cases p with
  | zero => rw [t.lineAt_of_le (Nat.zero_le _), t'.lineAt_of_le (Nat.zero_le _), h.lineOf hp]
  | succ p =>
    have hle := h.stop.le
    have hle' := h.stop'.le
    rw [t.lineAt_succ (by omega), t'.lineAt_succ (by omega), t.lineAt_of_le (by omega),
      t'.lineAt_of_le (by omega), h.lineOf (by omega), h.lineEndsAt (by omega)]

/-- Lines that start in both texts where they are alike start at the same place. -/
theorem lineStart {line : Nat} (hline : line ≤ t.lastLine) (hline' : line ≤ t'.lastLine)
    (hle : t.lineStart line ≤ k) (hle' : t'.lineStart line ≤ k) :
    t'.lineStart line = t.lineStart line := by
  apply Nat.le_antisymm
  · apply (t'.lineStart_le_iff hline' _).2
    exact Nat.le_of_eq (by rw [h.lineOf hle, t.lineOf_lineStart hline])
  · apply (t.lineStart_le_iff hline _).2
    exact Nat.le_of_eq (by rw [← h.lineOf hle', t'.lineOf_lineStart hline'])

theorem lineEnd {p : Nat} (hp : p < k) : t'.lineEnd (t.lineOf p) = t.lineEnd (t.lineOf p) := by
  have hbound : ∀ {q : Nat}, q < k → t'.byteAt q = t.byteAt q := h.byteAt
  have hsame : (t'.lastLine ≤ t.lineOf p ↔ t.lastLine ≤ t.lineOf p)
      ∧ t'.lineStart (t.lineOf p + 1) = t.lineStart (t.lineOf p + 1)
      ∧ t.lineStart (t.lineOf p + 1) ≤ k := by
    rcases h.stop with hk | ⟨hk, hb⟩
    · -- the texts are the same
      have hsize : t'.size = t.size := by
        have hs := h.lt_size_iff (p := t.size) (by omega)
        have hle := h.stop'.le
        omega
      have hlast : t'.lastLine = t.lastLine := by
        rw [lastLine, lastLine, hsize, h.lineOf (by omega)]
      have hle := t.lineStart_le_size (t.lineOf p + 1)
      have hle' := t'.lineStart_le_size (t.lineOf p + 1)
      refine ⟨by rw [hlast], ?_, by omega⟩
      by_cases hline : t.lineOf p + 1 ≤ t.lastLine
      · exact h.lineStart hline (by rw [hlast]; exact hline) (by omega) (by omega)
      · rw [t.lineStart_of_lastLine_lt (by omega), t'.lineStart_of_lastLine_lt (by omega), hsize]
    · have hb' : t'.breaksAfter (k - 1) = true := by rw [h.breaksAfter (by omega)]; exact hb
      have hlt := t.lineOf_lt_of_breaksAfter hk hb hp
      have hlt' := t'.lineOf_lt_of_breaksAfter hk hb' hp
      rw [h.lineOf (Nat.le_of_lt hp)] at hlt'
      have hlast := t.lineOf_le_lastLine k
      have hlast' := t'.lineOf_le_lastLine k
      have hle := (t.lineStart_le_iff (by omega : t.lineOf p + 1 ≤ t.lastLine) k).2 hlt
      have hle' := (t'.lineStart_le_iff (by omega : t.lineOf p + 1 ≤ t'.lastLine) k).2 hlt'
      exact ⟨by omega, h.lineStart (by omega) (by omega) hle hle', hle⟩
  obtain ⟨hlast, hnext, hle⟩ := hsame
  simp only [Text.lineEnd, hnext, hlast]
  by_cases hzero : t.lineStart (t.lineOf p + 1) = 0
  · simp [hzero]
  · rw [hbound (q := t.lineStart (t.lineOf p + 1) - 1) (by omega),
      hbound (q := t.lineStart (t.lineOf p + 1) - 2) (by omega)]

end SameTo

end Text

end Restyle
