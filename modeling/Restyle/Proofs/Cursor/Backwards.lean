/-
Restyle.Proofs.Cursor.Backwards — going back the way a walk came.

A step forward takes a whole character or, where none is encoded, one
byte. A step back goes by continuation bytes alone, over at most three of
them. So it undoes the step forward exactly if that did not take a
continuation byte by itself: such a `Stray` byte counts as one character on
the way there, and as a part of what stands before it on the way back.

There is one way to make up for that. Behind a character of four bytes the
step back from the stray byte gets to the second of them, and the next one
to the first. So a way can be gone back if every stray byte on it stands
directly behind such a character (`Tame`, `positionBefore_of_tame`). On any
other the steps back, which are monotone, end before the start
(`retreat_advance_lt`).
-/
import Restyle.Proofs.Cursor.Places
import Restyle.Proofs.Text.Decoding

namespace Restyle

namespace Text

variable (t : Text)

/-- A continuation byte at `p` that a step back from behind it would not stop at. -/
def Stray (p : Nat) : Prop :=
  t.encoding = .utf8 ∧ 0 < p ∧ Utf8.isContinuation (t.byteAt p) = true

instance (p : Nat) : Decidable (t.Stray p) := inferInstanceAs (Decidable (_ ∧ _ ∧ _))

/-! ## 1. One step back -/

theorem backOverContinuation_succ (fuel p : Nat) : t.backOverContinuation (fuel + 1) p
    = if p ≠ 0 ∧ Utf8.isContinuation (t.byteAt p) then t.backOverContinuation fuel (p - 1)
      else p := rfl

theorem backOverContinuation_le : ∀ fuel p, t.backOverContinuation fuel p ≤ p
  | 0, _ => Nat.le_refl _
  | fuel + 1, p => by
    rw [backOverContinuation_succ]
    split
    · exact Nat.le_trans (backOverContinuation_le fuel (p - 1)) (Nat.sub_le ..)
    · exact Nat.le_refl _

/-- With more steps left one gets as far back at least. -/
theorem backOverContinuation_succ_le : ∀ fuel p,
    t.backOverContinuation (fuel + 1) p ≤ t.backOverContinuation fuel p
  | 0, p => t.backOverContinuation_le 1 p
  | fuel + 1, p => by
    rw [t.backOverContinuation_succ (fuel + 1) p, t.backOverContinuation_succ fuel p]
    split
    · exact backOverContinuation_succ_le fuel (p - 1)
    · exact Nat.le_refl _

theorem backOverContinuation_mono : ∀ fuel {p q : Nat}, p ≤ q →
    t.backOverContinuation fuel p ≤ t.backOverContinuation fuel q
  | 0, _, _, h => h
  | fuel + 1, p, q, h => by
    rcases Nat.lt_or_eq_of_le h with hlt | rfl
    · rw [t.backOverContinuation_succ fuel q]
      split
      · exact Nat.le_trans (t.backOverContinuation_succ_le fuel p)
          (backOverContinuation_mono fuel (by omega))
      · exact Nat.le_trans (t.backOverContinuation_le _ p) h
    · exact Nat.le_refl _

/-- One gets back over as many continuation bytes as there are steps for. -/
theorem backOverContinuation_add (p : Nat) : ∀ {n fuel : Nat}, n ≤ fuel →
    (∀ i, p < i → i ≤ p + n → Utf8.isContinuation (t.byteAt i) = true) →
    t.backOverContinuation fuel (p + n) = t.backOverContinuation (fuel - n) p
  | 0, _, _, _ => rfl
  | n + 1, fuel, hn, hcont => by
    obtain ⟨fuel, rfl⟩ := Nat.exists_eq_succ_of_ne_zero (n := fuel) (by omega)
    rw [backOverContinuation_succ, if_pos ⟨by omega, hcont _ (by omega) (Nat.le_refl _)⟩,
      Nat.succ_sub_succ]
    exact backOverContinuation_add p (Nat.le_of_succ_le_succ hn)
      fun i hi hle => hcont i hi (by omega)

theorem stepBack_mono {p q : Nat} (h : p ≤ q) : t.stepBack p ≤ t.stepBack q :=
  t.backOverContinuation_mono 3 (Nat.sub_le_sub_right h 1)

theorem stepBack_le (p : Nat) : t.stepBack p ≤ p :=
  Nat.le_trans (t.backOverContinuation_le 3 (p - 1)) (Nat.sub_le ..)

theorem width_le_four (p : Nat) : (t.charAt p).width ≤ 4 := by
  rcases t.charAt_cases p with h | ⟨-, h⟩
  · rw [h]
    exact (by decide : 1 ≤ 4)
  · exact (Utf8.decode?_eq_some h).2.2.1

/-- A character of several bytes starts with no continuation byte. -/
theorem width_of_isContinuation {p : Nat} (h : Utf8.isContinuation (t.byteAt p) = true) :
    (t.charAt p).width = 1 := by
  rcases t.charAt_cases p with hbyte | ⟨-, hdecode⟩
  · rw [hbyte]
  · have hlead := Utf8.le_of_decode? hdecode
    have hpayload := Utf8.eq_add_payload h
    omega

/-- A step back from behind a character gets to its first byte, and goes on from there if
that continues something as well. -/
theorem stepBack_add_width (p : Nat) : t.stepBack (p + (t.charAt p).width)
    = t.backOverContinuation (4 - (t.charAt p).width) p := by
  have hpos := t.width_pos p
  have hwidth := t.width_le_four p
  rw [stepBack, Nat.add_sub_assoc hpos,
    t.backOverContinuation_add p (n := (t.charAt p).width - 1) (by omega)
      fun i hi hle => t.isContinuation_of_inside hi (by omega)]
  congr 1
  omega

variable {t} {p : Nat}

theorem stepBack_lt (h : 0 < p) : t.stepBack p < p := by
  have hle := t.backOverContinuation_le 3 (p - 1)
  rw [stepBack]
  omega

theorem stepBack_add_width_le (p : Nat) : t.stepBack (p + (t.charAt p).width) ≤ p := by
  rw [stepBack_add_width]
  exact t.backOverContinuation_le _ p

theorem stepBack_add_width_of_not (he : t.encoding = .utf8) (h : ¬ t.Stray p) :
    t.stepBack (p + (t.charAt p).width) = p := by
  rw [stepBack_add_width]
  cases 4 - (t.charAt p).width with
  | zero => rfl
  | succ fuel => exact if_neg fun hback => h ⟨he, by omega, hback.2⟩

theorem Stray.stepBack_lt (h : t.Stray p) : t.stepBack (p + 1) < p := by
  obtain ⟨-, hpos, hcont⟩ := h
  rw [stepBack, Nat.add_sub_cancel, backOverContinuation_succ, if_pos ⟨by omega, hcont⟩]
  have hle := t.backOverContinuation_le 2 (p - 1)
  omega

section

variable (h : t.Stray (p + (t.charAt p).width))
include h

/-- Behind a character the step back from a stray byte goes into that character. -/
theorem Stray.isContinuation_of_behind {i : Nat} (hi : p < i) (hle : i ≤ p + (t.charAt p).width) :
    Utf8.isContinuation (t.byteAt i) = true := by
  rcases Nat.lt_or_eq_of_le hle with hlt | rfl
  · exact t.isContinuation_of_inside hi hlt
  · exact h.2.2

/-- It gets at least to the first byte of a character of at most three. -/
theorem Stray.stepBack_le (hwidth : (t.charAt p).width ≠ 4) :
    t.stepBack (p + (t.charAt p).width + 1) ≤ p := by
  have hle := t.width_le_four p
  rw [stepBack, Nat.add_sub_cancel,
    t.backOverContinuation_add p (by omega) fun i => h.isContinuation_of_behind]
  exact t.backOverContinuation_le _ p

/-- Of a character of four bytes it gets to the second, and another one to the first. -/
theorem Stray.stepBack_twice (hwidth : (t.charAt p).width = 4) :
    t.stepBack (p + (t.charAt p).width + 1) = p + 1 ∧ t.stepBack (p + 1) = p := by
  constructor
  · rw [stepBack, Nat.add_sub_cancel, hwidth, show p + 4 = p + 1 + 3 from rfl,
      t.backOverContinuation_add (p + 1) (Nat.le_refl 3) fun i hi hle =>
        h.isContinuation_of_behind (by omega) (by omega)]
    rfl
  · refine if_neg fun hback => ?_
    have hone := t.width_of_isContinuation hback.2
    rw [Nat.add_sub_cancel] at hone
    omega

end

/-! ## 2. Many steps back -/

theorem retreat_succ (n p : Nat) :
    t.retreat (n + 1) p = if p = 0 then 0 else t.retreat n (t.stepBack p) := rfl

theorem retreat_zero_right : ∀ n, t.retreat n 0 = 0
  | 0 => rfl
  | _ + 1 => rfl

theorem retreat_add : ∀ (m n p : Nat), t.retreat (m + n) p = t.retreat n (t.retreat m p)
  | 0, n, p => by rw [Nat.zero_add, retreat]
  | m + 1, n, p => by
    rw [Nat.add_right_comm, retreat_succ, retreat_succ]
    split
    · rw [retreat_zero_right]
    · exact retreat_add m n (t.stepBack p)

theorem retreat_mono : ∀ n {p q : Nat}, p ≤ q → t.retreat n p ≤ t.retreat n q
  | 0, _, _, h => h
  | n + 1, p, q, h => by
    rw [retreat_succ, retreat_succ]
    split
    · exact Nat.zero_le _
    · rw [if_neg (by omega)]
      exact retreat_mono n (t.stepBack_mono h)

theorem retreat_succ_lt {n q : Nat} (hp : 0 < p) (h : t.retreat n q ≤ p) :
    t.retreat (n + 1) q < p := by
  rw [retreat_add, retreat_succ, retreat]
  split
  · exact hp
  · have hlt := stepBack_lt (t := t) (p := t.retreat n q) (by omega)
    omega

theorem advance_add : ∀ (m n p : Nat), t.advance (m + n) p = t.advance n (t.advance m p)
  | m, 0, p => rfl
  | m, n + 1, p => by rw [← Nat.add_assoc, t.advance_succ, t.advance_succ, advance_add m n p]

theorem retreat_advance_le (p : Nat) : ∀ n, t.retreat n (t.advance n p) ≤ p
  | 0 => Nat.le_refl _
  | n + 1 => by
    have hstep : t.stepBack (t.advance (n + 1) p) ≤ t.advance n p := by
      rw [t.advance_succ]
      split
      · exact t.stepBack_le _
      · exact stepBack_add_width_le _
    rw [retreat_succ]
    split
    · exact Nat.zero_le _
    · exact Nat.le_trans (retreat_mono n hstep) (retreat_advance_le p n)

/-- Where the walk through the positions `pos` takes a stray byte among its first `n` characters,
that stands directly behind a character of four bytes. -/
def Tame (t : Text) (pos : Nat → Nat) (n : Nat) : Prop :=
  ∀ i < n, t.Stray (pos i) → 0 < i ∧ (t.charAt (pos (i - 1))).width = 4

instance (pos : Nat → Nat) (n : Nat) : Decidable (t.Tame pos n) :=
  inferInstanceAs (Decidable (∀ i < n, _ → _))

/-- From behind a stray byte that follows no character of four bytes, steps back end before
the start. -/
theorem retreat_advance_succ_lt {i : Nat} (hp : 0 < p) (hin : ∀ j ≤ i, t.advance j p < t.size)
    (hstray : t.Stray (t.advance i p))
    (hwidth : 0 < i → (t.charAt (t.advance (i - 1) p)).width ≠ 4) :
    t.retreat (i + 1) (t.advance (i + 1) p) < p := by
  have hlt := hin i (Nat.le_refl i)
  have hback : t.retreat (i + 1) (t.advance (i + 1) p)
      = t.retreat i (t.stepBack (t.advance i p + 1)) := by
    rw [t.advance_succ, if_neg (by omega), t.width_of_isContinuation hstray.2.2, retreat_succ,
      if_neg (by omega)]
  rw [hback]
  cases i with
  | zero => exact hstray.stepBack_lt
  | succ j =>
    have hlt := hin j (Nat.le_succ j)
    have hnext : t.advance (j + 1) p
        = t.advance j p + (t.charAt (t.advance j p)).width := by
      rw [t.advance_succ, if_neg (by omega)]
    rw [hnext] at hstray ⊢
    have hle := hstray.stepBack_le (hwidth (Nat.succ_pos j))
    exact Nat.lt_of_le_of_lt (retreat_mono (j + 1) hle)
      (retreat_succ_lt hp (retreat_advance_le p j))

theorem retreat_advance_lt {n : Nat} (hp : 0 < p) (hin : ∀ i < n, t.advance i p < t.size)
    (h : ¬ t.Tame (fun i => t.advance i p) n) : t.retreat n (t.advance n p) < p := by
  simp only [Tame, not_forall, not_and] at h
  obtain ⟨i, hi, hstray, hwidth⟩ := h
  obtain ⟨k, rfl⟩ := Nat.exists_eq_add_of_le (show i + 1 ≤ n from hi)
  have hlt := retreat_advance_succ_lt hp (fun j hj => hin j (by omega)) hstray hwidth
  rw [advance_add, Nat.add_comm (i + 1) k, retreat_add]
  exact Nat.lt_of_le_of_lt (retreat_mono (i + 1) (retreat_advance_le _ k)) hlt

/-! ## 3. Moves in either encoding -/

theorem move_natCast (he : t.encoding = .utf8) (n p : Nat) : t.move p n = t.advance n p := by
  simp [move, he]

theorem move_neg_natCast (he : t.encoding = .utf8) (n p : Nat) :
    t.move p (-n) = t.retreat n p := by
  cases n with
  | zero => simp [move, he, advance, retreat]
  | succ n =>
    simp only [move, he]
    rw [if_neg (by omega), Int.natAbs_neg, Int.natAbs_natCast]

theorem move_neg_one (he : t.encoding = .utf8) (hp : 0 < p) : t.move p (-1) = t.stepBack p := by
  rw [show (-1 : Int) = -(1 : Nat) from rfl, move_neg_natCast he, retreat_succ, if_neg (by omega),
    retreat]

theorem move_neg_one_add_width (hp : p ≤ t.size) (h : ¬ t.Stray p) :
    t.move (p + (t.charAt p).width) (-1) = p := by
  have hwidth := t.width_pos p
  cases he : t.encoding with
  | eightBit =>
    simp only [move, he, t.charAt_of_eightBit he]
    omega
  | utf8 => rw [move_neg_one he (by omega), stepBack_add_width_of_not he h]

theorem advance_of_eightBit (he : t.encoding = .eightBit) : ∀ {n : Nat},
    (∀ i < n, t.advance i p < t.size) → t.advance n p = p + n
  | 0, _ => rfl
  | n + 1, hin => by
    have hlt := hin n (Nat.lt_succ_self n)
    rw [t.advance_succ, if_neg (by omega), t.charAt_of_eightBit he,
      advance_of_eightBit he fun i hi => hin i (by omega), Nat.add_assoc]

/-- The positions `pos` are those of a walk over `n` characters. -/
def Steps (t : Text) (pos : Nat → Nat) (n : Nat) : Prop :=
  ∀ i < n, pos i ≤ t.size ∧ pos (i + 1) = pos i + (t.charAt (pos i)).width

theorem Steps.mono {pos : Nat → Nat} {m n : Nat} (h : t.Steps pos n) (hle : m ≤ n) :
    t.Steps pos m := fun i hi => h i (Nat.lt_of_lt_of_le hi hle)

theorem Tame.mono {pos : Nat → Nat} {m n : Nat} (h : t.Tame pos n) (hle : m ≤ n) :
    t.Tame pos m := fun i hi => h i (Nat.lt_of_lt_of_le hi hle)

theorem positionBefore_succ (n : Nat) (hp : 0 < p) :
    Cursor.positionBefore t (n + 1) p = Cursor.positionBefore t n (t.move p (-1)) :=
  if_neg (by omega)

/-- A walk whose stray bytes all stand behind characters of four bytes can be gone back, one
character at a time. -/
theorem positionBefore_of_tame {pos : Nat → Nat} : ∀ {n : Nat}, t.Steps pos n → t.Tame pos n →
    Cursor.positionBefore t n (pos n) = some (pos 0)
  | 0, _, _ => rfl
  | n + 1, hsteps, htame => by
    obtain ⟨hle, hnext⟩ := hsteps n (Nat.lt_succ_self n)
    have hwidth := t.width_pos (pos n)
    by_cases hstray : t.Stray (pos n)
    · -- two steps go back over the stray byte and the character before it
      obtain ⟨hpos, hfour⟩ := htame n (Nat.lt_succ_self n) hstray
      obtain ⟨j, rfl⟩ := Nat.exists_eq_add_one.2 hpos
      rw [Nat.add_sub_cancel] at hfour
      have hbefore := (hsteps j (by omega)).2
      have hone := t.width_of_isContinuation hstray.2.2
      rw [hbefore] at hstray hone
      obtain ⟨hfirst, hsecond⟩ := hstray.stepBack_twice hfour
      have he := hstray.1
      rw [hnext, hbefore, hone, positionBefore_succ _ (by omega), move_neg_one he (by omega),
        hfirst, positionBefore_succ _ (by omega), move_neg_one he (by omega), hsecond]
      exact positionBefore_of_tame (hsteps.mono (by omega)) (htame.mono (by omega))
    · rw [hnext, positionBefore_succ _ (by omega), move_neg_one_add_width hle hstray]
      exact positionBefore_of_tame (hsteps.mono (Nat.le_succ n)) (htame.mono (Nat.le_succ n))

theorem retreat_of_positionBefore (he : t.encoding = .utf8) : ∀ {n p q : Nat},
    Cursor.positionBefore t n p = some q → t.retreat n p = q
  | 0, _, _, h => Option.some.inj h
  | n + 1, p, q, h => by
    rcases Nat.eq_zero_or_pos p with rfl | hp
    · cases h
    · rw [positionBefore_succ n hp, move_neg_one he hp] at h
      rw [retreat_succ, if_neg (by omega), retreat_of_positionBefore he h]

theorem steps_advance {n : Nat} (hin : ∀ i < n, t.advance i p < t.size) :
    t.Steps (fun i => t.advance i p) n := by
  intro i hi
  have hlt := hin i hi
  exact ⟨Nat.le_of_lt hlt, by dsimp only; rw [t.advance_succ, if_neg (by omega)]⟩

variable (t) in
/-- Moving back never ends behind where the way forward started. -/
theorem move_move_neg_le (p n : Nat) : t.move (t.move p n) (-n) ≤ p := by
  cases he : t.encoding with
  | eightBit =>
    simp only [move, he]
    omega
  | utf8 =>
    rw [move_natCast he, move_neg_natCast he]
    exact retreat_advance_le p n

/-- Moving back undoes moving forward from the start of the text, and otherwise if all stray
bytes on the way stand behind characters of four bytes. -/
theorem move_move_neg_iff {n : Nat} (hp : p ≤ t.size) (hin : ∀ i < n, t.advance i p < t.size) :
    t.move (t.move p n) (-n) = p ↔ p = 0 ∨ t.Tame (fun i => t.advance i p) n := by
  cases he : t.encoding with
  | eightBit =>
    have hle := t.advance_le_size hp n
    rw [advance_of_eightBit he hin] at hle
    refine iff_of_true ?_ (Or.inr fun i _ hstray => ?_)
    · simp only [move, he]
      omega
    · cases he.symm.trans hstray.1
  | utf8 =>
    rw [move_natCast he, move_neg_natCast he]
    constructor
    · intro hback
      rcases Nat.eq_zero_or_pos p with hzero | hpos
      · exact Or.inl hzero
      · by_contra htame
        have hlt := retreat_advance_lt hpos hin (mt Or.inr htame)
        omega
    · rintro (rfl | htame)
      · exact Nat.le_zero.1 (retreat_advance_le 0 n)
      · exact retreat_of_positionBefore he (positionBefore_of_tame (steps_advance hin) htame)

end Text

namespace Cursor

variable {t : Text}

/-! ## 4. What a cursor sees behind itself -/

theorem InSync.steps {c : Cursor t} (h : c.InSync) {n : Nat}
    (hmore : ∀ i < n, (Cursor.forward^[i] c).more = true) :
    t.Steps (fun i => (Cursor.forward^[i] c).pos) n := by
  intro i hi
  have hsync := h.iterate i fun j hj => hmore j (Nat.lt_trans hj hi)
  refine ⟨hsync.pos_le_size (hmore i hi), ?_⟩
  dsimp only
  rw [Function.iterate_succ_apply', hsync.pos_forward (hmore i hi)]

theorem charBeside_iterate {c : Cursor t} (h : c.InSync) {n : Nat}
    (hmore : ∀ i < n, (Cursor.forward^[i] c).more = true)
    (htame : t.Tame (fun i => (Cursor.forward^[i] c).pos) n) :
    (Cursor.forward^[n] c).charBeside (-n) = c.ch := by
  cases n with
  | zero => rfl
  | succ n =>
    have hback := Text.positionBefore_of_tame (h.steps hmore) htame
    rw [charBeside, if_neg (by omega), if_neg (by omega), Int.natAbs_neg, Int.natAbs_natCast, hback]
    exact h.ch.symm

/-! ## 5. Back and forth -/

/-- Moving back by as many characters as one has moved forward never ends behind where one
started. It ends there if one started at the start of the text, or if every stray byte on the
way stood directly behind a character of four bytes, and only then. What a cursor sees that many
characters before itself is then what it saw there. -/
theorem back_undoes_forward (t : Text) :
    (∀ p n, p ≤ t.size → (∀ i < n, t.advance i p < t.size) →
      t.move (t.move p n) (-n) ≤ p
      ∧ (t.move (t.move p n) (-n) = p ↔ p = 0 ∨ t.Tame (fun i => t.advance i p) n))
    ∧ ∀ start length m n, start + length ≤ t.size →
      let c i := Cursor.forward^[i] (Cursor.start t start length)
      (∀ i < m + n, (c i).more = true) → t.Tame (fun i => (c (m + i)).pos) n →
      (c (m + n)).charBeside (-n) = (c m).ch := by
  refine ⟨fun p n hp hin => ⟨t.move_move_neg_le p n, Text.move_move_neg_iff hp hin⟩, ?_⟩
  intro start length m n hrange c hmore htame
  have hadd (i : Nat) : c (m + i) = Cursor.forward^[i] (c m) := by
    show Cursor.forward^[m + i] _ = _
    rw [Nat.add_comm, Function.iterate_add_apply]
  have hsync : (c m).InSync := (inSync_start hrange).iterate m fun i hi => hmore i (by omega)
  simp only [hadd] at htame ⊢
  refine charBeside_iterate hsync (fun i hi => ?_) htame
  rw [← hadd]
  exact hmore (m + i) (by omega)

/-- Back over a character of two bytes and the one before it. -/
theorem back_undoes_forward_of_two_bytes :
    let t := Text.ofBytes #[0x61, 0xC3, 0xA9, 0x62] .utf8
    t.move (t.move 1 2) (-2) = 1
    ∧ (Cursor.forward^[3] (Cursor.start t 0 4)).charBeside (-2)
      = (Cursor.forward^[1] (Cursor.start t 0 4)).ch := by
  obtain ⟨hmove, hcursor⟩ := back_undoes_forward (Text.ofBytes #[0x61, 0xC3, 0xA9, 0x62] .utf8)
  exact ⟨(hmove 1 2 (by decide) (by decide)).2.2 (by decide),
    hcursor 0 4 1 2 (by decide) (by decide) (by decide)⟩

/-- A continuation byte that continues nothing is a character on the way forward. The way back
goes on over it, past where the walk set out. -/
theorem back_over_stray_byte :
    let t := Text.ofBytes #[0x61, 0x80, 0x62] .utf8
    t.advance 1 0 = 1 ∧ t.move 1 1 = 2 ∧ 2 < t.size ∧ t.move 2 (-1) ≠ 1
    ∧ (Cursor.forward^[2] (Cursor.start t 0 3)).charBeside (-1)
      ≠ (Cursor.forward^[1] (Cursor.start t 0 3)).ch := by
  decide

end Cursor

end Restyle
