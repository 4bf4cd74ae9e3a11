/-
Restyle.Proofs.Scanner.Tandem — scanners that take the same branches.

A lexer asks of a character only which sign it is: which ASCII character
that ends no line. All others come in three kinds, the end of the text,
the characters that end lines and those outside ASCII, and no lexer tells
two of one kind apart (`kind`). So what it takes for two runs to branch
alike is little. `Tandem R Q` says it of a relation `R` between scanners:
they see characters of the same kinds, as far as signs go, and stay
related when they do the same things at a sign. `Q` are the related
scanners whose open spans start at one place, and which may therefore be
painted and relabelled too.

Everything that lexers do within a line follows from that, once for all
relations. Scanners over texts that begin alike are one (`Inside.tandem`).
-/
import Restyle.Proofs.Scanner.Abreast

namespace Restyle.Scanner

/-! ## 1. Kinds of characters -/

/-- All that a lexer can tell of a character: a sign is a kind by itself, the characters that
end lines are one, and so are those outside ASCII. -/
def kind (c : Nat) : Nat := if c = 13 then 10 else if c < 128 then c else 128

theorem isSign_kind (c : Nat) : isSign (kind c) = isSign c := by
  by_cases h : c = 13
  · subst h; rfl
  · by_cases h' : c < 128
    · simp [kind, h, h']
    · simp [kind, h, h', isSign]

theorem isSign_iff {c : Nat} : isSign c = true ↔ c ≠ 0 ∧ c ≠ 10 ∧ c ≠ 13 ∧ c < 128 := by
  simp [isSign, isSolid, and_assoc]

theorem kind_of_isSign {c : Nat} (h : isSign c = true) : kind c = c := by
  obtain ⟨-, -, hr, hlt⟩ := isSign_iff.1 h
  rw [kind, if_neg hr, if_pos hlt]

/-- Characters that are all signs make a class of signs. -/
theorem signs (set : List Char) (hset : set.all (isSign ·.toNat) = true) :
    ∀ c, Ascii.oneOf set c = true → isSign c = true :=
  fun _ => isSign_of_oneOf hset

theorem isSign_of_isDigit {c : Nat} (h : Ascii.isDigit c = true) : isSign c = true := by
  simp [Ascii.isDigit] at h
  exact isSign_iff.2 (by omega)

theorem isSign_of_isUpper {c : Nat} (h : Ascii.isUpper c = true) : isSign c = true := by
  simp [Ascii.isUpper] at h
  exact isSign_iff.2 (by omega)

theorem isSign_of_isLower {c : Nat} (h : Ascii.isLower c = true) : isSign c = true := by
  simp [Ascii.isLower] at h
  exact isSign_iff.2 (by omega)

theorem isSign_of_isAlphanumeric {c : Nat} (h : Ascii.isAlphanumeric c = true) :
    isSign c = true := by
  simp only [Ascii.isAlphanumeric, Bool.or_eq_true] at h
  rcases h with (h | h) | h
  · exact isSign_of_isDigit h
  · exact isSign_of_isUpper h
  · exact isSign_of_isLower h

theorem isSign_of_isHexDigit {c : Nat} (h : Ascii.isHexDigit c = true) : isSign c = true := by
  simp [Ascii.isHexDigit, Ascii.isDigit] at h
  exact isSign_iff.2 (by omega)

/-- What is no sign belongs to no class of signs. -/
theorem class_eq_false {p : Nat → Bool} (hp : ∀ c, p c = true → isSign c = true) {c : Nat}
    (hc : isSign c = false) : p c = false :=
  Bool.eq_false_iff.2 fun h => by rw [hp c h] at hc; cases hc

theorem sees_eq_false {t : Text} {s : Scanner t} (hs : isSign s.ch = false) {c : Char}
    (hc : isSign c.toNat = true) : s.sees c = false :=
  class_eq_false (p := (· == c.toNat)) (fun a ha => by rw [beq_iff_eq.1 ha]; exact hc) hs

section

variable {c c' : Nat} (h : kind c' = kind c)
include h

theorem isSign_of_kind_eq : isSign c' = isSign c := by
  rw [← isSign_kind c', h, isSign_kind]

/-- There is only one sign of its kind. -/
theorem eq_of_kind_eq (hc : isSign c = true) : c' = c := by
  rw [← kind_of_isSign hc, ← h, kind_of_isSign ((isSign_of_kind_eq h).trans hc)]

/-- A class of signs cannot tell characters of one kind apart. -/
theorem class_of_kind_eq {p : Nat → Bool} (hp : ∀ c, p c = true → isSign c = true) :
    p c' = p c := by
  cases hc : isSign c with
  | true => rw [eq_of_kind_eq h hc]
  | false => rw [class_eq_false hp hc, class_eq_false hp ((isSign_of_kind_eq h).trans hc)]

theorem beq_of_kind_eq {a : Nat} (ha : isSign a = true) : (c' == a) = (c == a) :=
  class_of_kind_eq h (p := (· == a)) fun c hc => by
    rw [beq_iff_eq] at hc
    rw [hc]
    exact ha

end

/-- Whether a character ends a line can be told from its kind. -/
theorem kind_eq_lf_iff {c : Nat} : kind c = 10 ↔ c = 10 ∨ c = 13 := by
  simp only [kind]
  split
  · omega
  · split <;> omega

/-- A character is of the kind of its first byte. -/
theorem kind_code (t : Text) (p : Nat) : kind (t.charAt p).code = kind (t.byteAt p) := by
  rcases t.charAt_cases p with h | ⟨hlead, h⟩
  · rw [h]
  · have hcode := (Utf8.decode?_eq_some h).1
    simp only [kind]
    rw [if_neg (by omega), if_neg (by omega), if_neg (by omega), if_neg (by omega)]

section

variable {t : Text} {s : Scanner t} (h : s.InSync) (hc : isSign s.ch = true)
include h hc

theorem byteAt_of_isSign : t.byteAt s.pos = s.ch :=
  (h.byteAt_of_ch_lt (isSign_iff.1 hc).2.2.2).1

theorem width_of_isSign : s.width = 1 :=
  (h.byteAt_of_ch_lt (isSign_iff.1 hc).2.2.2).2

end

/-- Which sign stands here and which comes next can be read off the bytes. -/
theorem class_and_next {t : Text} {s : Scanner t} (h : s.InSync) {p q : Nat → Bool}
    (hp : ∀ c, p c = true → isSign c = true) (hq : ∀ c, q c = true → isSign c = true) :
    (p s.ch && q s.next) = (p (t.byteAt s.pos) && q (t.byteAt (s.pos + 1))) := by
  have hch : p s.ch = p (t.byteAt s.pos) := by rw [h.ch, class_of_kind_eq (kind_code t s.pos) hp]
  rw [hch]
  cases hb : p (t.byteAt s.pos) with
  | false => rfl
  | true =>
    have hwidth := width_of_isSign h (hp _ (hch.trans hb))
    rw [h.next, hwidth, class_of_kind_eq (kind_code t _) hq]

/-- At a byte outside ASCII no sign stands, and no line ends. -/
theorem not_sign_of_le_byteAt {t : Text} {s : Scanner t} (h : s.InSync)
    (hb : 128 ≤ t.byteAt s.pos) : isSign s.ch = false ∧ s.atLineEnd = false := by
  have hsize := t.lt_size_of_byteAt (p := s.pos) (by omega)
  have hlf : t.byteAt s.pos ≠ 10 := by omega
  have hcr : t.byteAt s.pos ≠ 13 := by omega
  have hkind : kind s.ch = 128 := by
    rw [h.ch, kind_code, kind, if_neg hcr, if_neg (Nat.not_lt.2 hb)]
  refine ⟨by rw [← isSign_kind, hkind]; rfl, ?_⟩
  rw [h.atLineEnd]
  simp [Text.lineEndsAt, Text.breaksAfter, hlf, hcr, hsize]

/-! ## 2. The relation -/

/-- Scanners related by `R` see and do the same at signs before `k`, and those related by
`Q` have their open spans start at one place besides. -/
structure Tandem {t t' : Text} (loose : Token → Bool) (k : Nat)
    (R Q : Scanner t → Scanner t' → Prop) : Prop where
  of_marked {s : Scanner t} {s' : Scanner t'} : Q s s' → R s s'
  marked {s : Scanner t} {s' : Scanner t'} : R s s' → loose s.token = true → Q s s'
  sync {s : Scanner t} {s' : Scanner t'} : R s s' → s.InSync
  sync' {s : Scanner t} {s' : Scanner t'} : R s s' → s'.InSync
  lt {s : Scanner t} {s' : Scanner t'} : R s s' → s.pos < k
  stop {s : Scanner t} {s' : Scanner t'} : R s s' → k ≤ s.stop
  room {s : Scanner t} {s' : Scanner t'} : R s s' → k - s.pos ≤ s'.stop - s'.pos
  token {s : Scanner t} {s' : Scanner t'} : R s s' → s'.token = s.token
  atLineStart {s : Scanner t} {s' : Scanner t'} : R s s' → s'.atLineStart = s.atLineStart
  /-- Behind signs the same kind of byte stands. -/
  bytes {s : Scanner t} {s' : Scanner t'} : R s s' → ∀ i,
    (∀ j < i, isSign (t.byteAt (s.pos + j)) = true) →
    kind (t'.byteAt (s'.pos + i)) = kind (t.byteAt (s.pos + i))
  openText {s : Scanner t} {s' : Scanner t'} : Q s s' → s'.openText = s.openText
  forward {s : Scanner t} {s' : Scanner t'} : R s s' → isSign s.ch = true → R s.forward s'.forward
  forward_marked {s : Scanner t} {s' : Scanner t'} : Q s s' → isSign s.ch = true →
    Q s.forward s'.forward
  switch {s : Scanner t} {s' : Scanner t'} (token : Token) : R s s' →
    Q (s.switch token) (s'.switch token)
  paint {s : Scanner t} {s' : Scanner t'} (token : Token) : Q s s' →
    Q (s.paintTo s.pos token) (s'.paintTo s'.pos token)
  relabel {s : Scanner t} {s' : Scanner t'} (token : Token) : Q s s' →
    Q (s.relabel token) (s'.relabel token)
  note {s : Scanner t} {s' : Scanner t'} (state : Int) : R s s' → R (s.noteHere state) s'
  note' {s : Scanner t} {s' : Scanner t'} (state : Int) : R s s' → R s (s'.noteHere state)

namespace Tandem

variable {t t' : Text} {loose : Token → Bool} {k : Nat} {R Q : Scanner t → Scanner t' → Prop}
  (T : Tandem loose k R Q) {s : Scanner t} {s' : Scanner t'}
include T

/-! ### Looking -/

section

variable (h : R s s')
include h

theorem more : s.more = true := by
  have := T.lt h
  have := T.stop h
  rw [Cursor.more_iff]; omega

theorem more' : s'.more = true := by
  have := T.lt h
  have := T.room h
  rw [Cursor.more_iff]; omega

theorem kind_ch : kind s'.ch = kind s.ch := by
  rw [(T.sync h).ch, (T.sync' h).ch, kind_code, kind_code]
  exact T.bytes h 0 (fun j hj => absurd hj (Nat.not_lt_zero j))

/-- Which sign stands here. -/
theorem ch {p : Nat → Bool} (hp : ∀ c, p c = true → isSign c = true) : p s'.ch = p s.ch :=
  class_of_kind_eq (T.kind_ch h) hp

theorem sees {c : Char} (hc : isSign c.toNat = true) : s'.sees c = s.sees c :=
  beq_of_kind_eq (T.kind_ch h) hc

theorem isSign_ch : isSign s'.ch = isSign s.ch := isSign_of_kind_eq (T.kind_ch h)

theorem ch_forward : s.forward.ch = s.next := by
  rw [toCursor_forward, Cursor.forward_of_more (T.more h)]

section

variable (hc : isSign s.ch = true)
include hc

/-- No line ends at a sign. -/
theorem atLineEnd : s.atLineEnd = false :=
  (T.sync h).atLineEnd_eq_false (isSolid_of_isSign hc)

theorem atLineEnd' : s'.atLineEnd = false :=
  (T.sync' h).atLineEnd_eq_false (isSolid_of_isSign ((T.isSign_ch h).trans hc))

theorem kind_next : kind s'.next = kind s.next := by
  have hsync := T.sync h
  have hsync' := T.sync' h
  rw [hsync.next, hsync'.next, kind_code, kind_code, width_of_isSign hsync hc,
    width_of_isSign hsync' ((T.isSign_ch h).trans hc)]
  apply T.bytes h 1
  intro j hj
  obtain rfl : j = 0 := by omega
  rw [Nat.add_zero, byteAt_of_isSign hsync hc]
  exact hc

/-- Which sign comes next. -/
theorem next {p : Nat → Bool} (hp : ∀ c, p c = true → isSign c = true) : p s'.next = p s.next :=
  class_of_kind_eq (T.kind_next h hc) hp

theorem seesNext {c : Char} (hc' : isSign c.toNat = true) : s'.seesNext c = s.seesNext c :=
  beq_of_kind_eq (T.kind_next h hc) hc'

theorem pos_forward : s.forward.pos = s.pos + 1 := by
  rw [toCursor_forward, Cursor.forward_pos (T.more h), width_of_isSign (T.sync h) hc]

theorem byteAt_add_one (hn : isSign s.next = true) : t.byteAt (s.pos + 1) = s.next := by
  rw [← T.pos_forward h hc, ← T.ch_forward h]
  exact byteAt_of_isSign (T.sync (T.forward h hc)) (by rw [T.ch_forward h]; exact hn)

/-- What stands behind two signs. -/
theorem kind_byteAt_add_two (hn : isSign s.next = true) :
    kind (t'.byteAt (s'.pos + 2)) = kind (t.byteAt (s.pos + 2)) := by
  apply T.bytes h 2
  intro j hj
  obtain rfl | rfl : j = 0 ∨ j = 1 := by omega
  · rw [Nat.add_zero, byteAt_of_isSign (T.sync h) hc]; exact hc
  · rw [T.byteAt_add_one h hc hn]; exact hn

theorem forward_forward (hn : isSign s.next = true) :
    R s.forward.forward s'.forward.forward ∧ s.forward.forward.pos = s.pos + 2 := by
  have h₁ := T.forward h hc
  have hc₁ : isSign s.forward.ch = true := by rw [T.ch_forward h]; exact hn
  refine ⟨T.forward h₁ hc₁, ?_⟩
  rw [T.pos_forward h₁ hc₁, T.pos_forward h hc]

end

/-- Whether a sign stands here and one of a class comes next. -/
theorem sees_and_next {c : Char} (hc : isSign c.toNat = true) {p : Nat → Bool}
    (hp : ∀ c, p c = true → isSign c = true) :
    (s'.sees c && p s'.next) = (s.sees c && p s.next) := by
  rw [T.sees h hc]
  cases hs : s.sees c with
  | false => rfl
  | true => rw [T.next h (isSign_of_sees hc hs) hp]

theorem seesPair {a b : Char} (ha : isSign a.toNat = true) (hb : isSign b.toNat = true) :
    s'.seesPair a b = s.seesPair a b :=
  T.sees_and_next h ha (p := (· == b.toNat)) fun c hc => by rw [beq_iff_eq.1 hc]; exact hb

theorem seesText {a b c : Nat} (ha : isSign a = true) (hb : isSign b = true)
    (hc : isSign c = true) : s'.seesText [a, b, c] = s.seesText [a, b, c] := by
  simp only [Cursor.seesText, List.zipIdx, List.all_cons, List.all_nil, Cursor.ahead]
  rw [beq_of_kind_eq (T.kind_ch h) ha]
  cases hca : s.ch == a with
  | false => rfl
  | true =>
    obtain rfl := beq_iff_eq.1 hca
    rw [beq_of_kind_eq (T.kind_next h ha) hb]
    cases hnb : s.next == b with
    | false => rfl
    | true =>
      obtain rfl := beq_iff_eq.1 hnb
      rw [beq_of_kind_eq (T.kind_byteAt_add_two h ha hb) hc]

/-! ### Moving on -/

theorem forward_of_sees {c : Char} (hc : isSign c.toNat = true) (hs : s.sees c = true) :
    R s.forward s'.forward := T.forward h (isSign_of_sees hc hs)

theorem forwardBy_two {a b : Char} (ha : isSign a.toNat = true) (hb : isSign b.toNat = true)
    (hs : s.seesPair a b = true) :
    R (s.forwardBy 2) (s'.forwardBy 2) ∧ (s.forwardBy 2).pos = s.pos + 2 := by
  rw [Cursor.seesPair, Bool.and_eq_true] at hs
  exact T.forward_forward h (isSign_of_sees ha hs.1) (isSign_of_seesNext hb hs.2)

theorem forwardBy_three {a b c : Nat} (ha : isSign a = true) (hb : isSign b = true)
    (hc : isSign c = true) (hsees : s.seesText [a, b, c] = true) :
    R (s.forwardBy 3) (s'.forwardBy 3) := by
  simp only [Cursor.seesText, List.zipIdx, List.all_cons, List.all_nil, Cursor.ahead,
    Bool.and_eq_true, beq_iff_eq, Bool.and_true] at hsees
  obtain ⟨hch, hnext, hbyte⟩ := hsees
  obtain ⟨h₂, hpos⟩ := T.forward_forward h (by rw [hch]; exact ha) (by rw [hnext]; exact hb)
  have hbyte' : t.byteAt (s.pos + 2) = c := hbyte
  have hch₂ : s.forward.forward.ch = c := by
    have hlt := (isSign_iff.1 hc).2.2.2
    rw [(T.sync h₂).ch, hpos, t.charAt_of_byteAt_lt (by omega)]
    exact hbyte'
  exact T.forward h₂ (by rw [hch₂]; exact hc)

theorem pos_lt_forward : s.pos < s.forward.pos :=
  (T.sync h).toMeasured.pos_lt_forward (T.more h)

end

/-- Moving over bytes that are signs. -/
theorem forwardBy (count : Nat) : ∀ {s : Scanner t} {s' : Scanner t'}, R s s' →
    (∀ i < count, isSign (t.byteAt (s.pos + i)) = true) →
    R (s.forwardBy count) (s'.forwardBy count) ∧ (s.forwardBy count).pos = s.pos + count := by
  induction count with
  | zero => intro s s' h _; exact ⟨h, rfl⟩
  | succ count ih =>
    intro s s' h hbytes
    have hch : isSign s.ch = true := by
      have hb := hbytes 0 (Nat.succ_pos _)
      rw [Nat.add_zero] at hb
      rw [(T.sync h).ch, t.charAt_of_byteAt_lt (isSign_iff.1 hb).2.2.2]
      exact hb
    have hpos := T.pos_forward h hch
    obtain ⟨hr, heq⟩ := ih (T.forward h hch) (by
      intro i hi
      rw [hpos, show s.pos + 1 + i = s.pos + (i + 1) by omega]
      exact hbytes (i + 1) (by omega))
    refine ⟨hr, ?_⟩
    rw [Scanner.forwardBy, heq, hpos]
    omega

theorem forwardWhile {p : Nat → Bool} (hp : ∀ c, p c = true → isSign c = true) (fuel : Nat) :
    ∀ (fuel' : Nat) {s : Scanner t} {s' : Scanner t'}, R s s' →
      k - s.pos < fuel → k - s.pos < fuel' →
      R (s.forwardWhile p fuel) (s'.forwardWhile p fuel') := by
  induction fuel with
  | zero => intro _ _ _ _ hf; omega
  | succ fuel ih =>
    intro fuel' s s' h hf hf'
    obtain ⟨fuel', rfl⟩ : ∃ n, fuel' = n + 1 := ⟨fuel' - 1, by omega⟩
    rw [Scanner.forwardWhile, Scanner.forwardWhile, T.ch h hp]
    split
    · rename_i hc
      have hlt := T.pos_lt_forward h
      have := T.lt h
      exact ih fuel' (T.forward h (hp _ hc)) (by omega) (by omega)
    · exact h

/-- Skipping a class of signs. -/
theorem skip {p : Nat → Bool} (hp : ∀ c, p c = true → isSign c = true) (h : R s s') :
    R (s.skip p) (s'.skip p) := by
  have hstop := T.stop h
  have hroom := T.room h
  exact T.forwardWhile hp _ _ h (by omega) (by omega)

end Tandem

/-! ## 3. Scanners over texts that begin alike -/

/-- A sign ends no line, so a walk that stops at `k` goes on behind it. -/
theorem succ_lt_of_isSign {t : Text} {k p : Nat} (hk : t.IsStop k) (hp : p < k)
    (hc : isSign (t.byteAt p) = true) : p + 1 < k := by
  obtain ⟨hzero, hlf, hcr, -⟩ := isSign_iff.1 hc
  have hs := t.lt_size_of_byteAt hzero
  apply Text.succ_lt_of_isStop hk hp
  simp [Text.lineEndsAt, Text.breaksAfter, hlf, hcr, hs]

theorem add_lt_of_isSign {t : Text} {k p : Nat} (hk : t.IsStop k) (hp : p < k) :
    ∀ i, (∀ j < i, isSign (t.byteAt (p + j)) = true) → p + i < k
  | 0, _ => hp
  | i + 1, h =>
    succ_lt_of_isSign hk (add_lt_of_isSign hk hp i fun j hj => h j (by omega)) (h i (by omega))

theorem Inside.tandem (t t' : Text) (loose : Token → Bool) (o k : Nat) :
    Tandem loose k (Inside loose o k)
      (fun (s : Scanner t) (s' : Scanner t') => Inside loose o k s s' ∧ s'.mark = s.mark) where
  of_marked h := h.1
  marked h hl := ⟨h, h.mark hl⟩
  sync h := h.cursor.sync
  sync' h := h.cursor.sync'
  lt h := h.lt
  stop h := h.cursor.stop
  room h := by
    have hstop := h.cursor.stop'
    have hpos := h.cursor.pos
    omega
  token h := h.token
  atLineStart h := h.cursor.atLineStart
  bytes h i hi := by
    rw [h.cursor.pos, h.cursor.same.byteAt (add_lt_of_isSign h.cursor.same.stop h.lt i hi)]
  openText h := h.1.openText h.2
  forward h hc := h.forward_of_solid (isSolid_of_isSign hc)
  forward_marked h hc := ⟨h.1.forward_of_solid (isSolid_of_isSign hc), h.2⟩
  switch token h := h.switch token
  paint token h := h.1.paint h.2 token
  relabel token h := ⟨h.1.relabel h.2 token, h.2⟩
  note {s _} state h := ⟨{ h.toAbreast with
    noted := by
      intro line hline hlt
      have hlt : line < s.line := hlt
      obtain ⟨v, hv, hv'⟩ := h.noted line hline hlt
      exact ⟨v, by rw [noted_noteHere, if_neg (by omega), hv], hv'⟩ }, h.lt⟩
  note' state h := ⟨{ h.toAbreast with
    noted := by
      intro line hline hlt
      obtain ⟨v, hv, hv'⟩ := h.noted line hline hlt
      have hl := h.cursor.line
      exact ⟨v, hv, by rw [noted_noteHere, if_neg (by omega), hv']⟩ }, h.lt⟩

end Restyle.Scanner
