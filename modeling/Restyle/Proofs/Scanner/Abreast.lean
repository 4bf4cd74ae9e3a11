/-
Restyle.Proofs.Scanner.Abreast — two scanners that come to the same.

`Abreast loose o k` relates scanners over texts that begin alike up to
`k`, which may have started at different places: they stand at the same
position, and say the same of every byte and line between `o` and there.
Where their open spans start does not matter, unless these may still be
relabelled: `loose` are the tokens for which that can happen.

`Inside` adds that they have not come to `k`. They see the same then, and
as long as the character they stand on is solid, whatever they do leaves
them `Inside`. Only a move over a line end can take them to `k`
(`Inside.forward`).
-/
import Restyle.Proofs.Scanner.Coverage

namespace Restyle.Scanner

/-! ## 1. The relation -/

/-- Scanners at one position at or before `k` that say the same from `o` on. -/
structure Abreast {t t' : Text} (loose : Token → Bool) (o k : Nat) (s : Scanner t)
    (s' : Scanner t') : Prop where
  cursor : Cursor.Abreast k s.toCursor s'.toCursor
  le_pos : o ≤ s.pos
  token : s'.token = s.token
  mark_le : s.mark ≤ min s.pos t.size
  mark_le' : s'.mark ≤ min s'.pos t'.size
  mark : loose s.token = true → s'.mark = s.mark
  look : ∀ p, o ≤ p → p < s.pos → p < t.size → s'.look p = s.look p
  noted : ∀ line, t.lineOf o ≤ line → line < s.line →
    ∃ state, s.noted line = some state ∧ s'.noted line = some state

/-- Scanners abreast that have not come to `k`. -/
structure Inside {t t' : Text} (loose : Token → Bool) (o k : Nat) (s : Scanner t)
    (s' : Scanner t') : Prop extends Abreast loose o k s s' where
  lt : s.pos < k

variable {t t' : Text} {loose : Token → Bool} {o k : Nat} {s : Scanner t} {s' : Scanner t'}

/-! ## 2. What keeps scanners abreast -/

namespace Abreast

section

variable (h : Abreast loose o k s s')
include h

theorem min_size : min s'.pos t'.size = min s.pos t.size := by
  have hle := h.cursor.pos_le
  have hpos := h.cursor.pos
  have hsize (p : Nat) (hp : p < k) := h.cursor.same.lt_size_iff hp
  have hs := hsize t.size
  have hs' := hsize t'.size
  have hk := h.cursor.same.stop.le
  have hk' := h.cursor.same.stop'.le
  omega

theorem size_iff {p : Nat} (hp : p < s.pos) : p < t'.size ↔ p < t.size :=
  h.cursor.same.lt_size_iff (Nat.lt_of_lt_of_le hp h.cursor.pos_le)

/-- What is said of two scanners can be said of the second alone. -/
theorem right : Abreast loose o k s' s' where
  cursor :=
    { same := Text.SameTo.refl h.cursor.same.stop'
      sync := h.cursor.sync'
      sync' := h.cursor.sync'
      pos := rfl
      pos_le := h.cursor.pos ▸ h.cursor.pos_le
      stop := h.cursor.stop'
      stop' := h.cursor.stop' }
  le_pos := h.cursor.pos ▸ h.le_pos
  token := rfl
  mark_le := h.mark_le'
  mark_le' := h.mark_le'
  mark := fun _ => rfl
  look := fun _ _ _ _ => rfl
  noted := by
    intro line hline hlt
    rw [h.cursor.line] at hlt
    rw [h.cursor.same.lineOf (Nat.le_trans h.le_pos h.cursor.pos_le)] at hline
    obtain ⟨state, -, hs'⟩ := h.noted line hline hlt
    exact ⟨state, hs', hs'⟩

/-- Painting the open spans keeps scanners abreast if they look the same afterwards. -/
theorem paint_of_look (token : Token)
    (hlook : ∀ p, o ≤ p → p < s.pos → p < t.size →
      (s'.paintTo s'.pos token).look p = (s.paintTo s.pos token).look p) :
    Abreast loose o k (s.paintTo s.pos token) (s'.paintTo s'.pos token)
      ∧ (s'.paintTo s'.pos token).mark = (s.paintTo s.pos token).mark := by
  have hmin := h.min_size
  have hmark := h.mark_le
  have hmark' := h.mark_le'
  have heq : (s'.paintTo s'.pos token).mark = (s.paintTo s.pos token).mark := by
    rw [mark_paintTo, mark_paintTo]; omega
  refine ⟨{ cursor := ?_, le_pos := ?_, token := ?_, mark_le := ?_, mark_le' := ?_,
            mark := fun _ => heq, look := ?_, noted := ?_ }, heq⟩
  · simpa using h.cursor
  · simpa using h.le_pos
  · simpa using h.token
  · rw [mark_paintTo, toCursor_paintTo]; omega
  · rw [mark_paintTo, toCursor_paintTo]; omega
  · simpa using hlook
  · simpa using h.noted

theorem finish : Abreast loose o k s.finish s'.finish ∧ s'.finish.mark = s.finish.mark := by
  have hp := h.paint_of_look s.token (by
    intro p hp hlt hs
    have hown := look_finish s' (h.cursor.pos ▸ hlt) ((h.size_iff hlt).2 hs)
    rw [Scanner.finish, h.token] at hown
    rw [hown, h.look p hp hlt hs]
    exact (look_finish s hlt hs).symm)
  rw [Scanner.finish, Scanner.finish, h.token]
  exact hp

theorem paint (hm : s'.mark = s.mark) (token : Token) :
    Abreast loose o k (s.paintTo s.pos token) (s'.paintTo s'.pos token)
      ∧ (s'.paintTo s'.pos token).mark = (s.paintTo s.pos token).mark := by
  apply h.paint_of_look
  intro p hp hlt hs
  rw [look_paintTo_pos _ _ hlt hs,
    look_paintTo_pos _ _ (h.cursor.pos ▸ hlt) ((h.size_iff hlt).2 hs), hm, h.look p hp hlt hs]

theorem relabel (hm : s'.mark = s.mark) (token : Token) :
    Abreast loose o k (s.relabel token) (s'.relabel token) :=
  { h with
    token := rfl
    mark := fun _ => hm
    look := by
      intro p hp hlt hs
      rw [look_relabel, look_relabel, hm, h.look p hp hlt hs] }

theorem switch (token : Token) :
    Abreast loose o k (s.switch token) (s'.switch token)
      ∧ (s'.switch token).mark = (s.switch token).mark := by
  obtain ⟨hf, hm⟩ := h.finish
  exact ⟨hf.relabel hm token, hm⟩

theorem note (state : Int) : Abreast loose o k (s.noteHere state) (s'.noteHere state) :=
  { h with
    noted := by
      intro line hline hlt
      have hlt : line < s.line := hlt
      have hl := h.cursor.line
      obtain ⟨v, hv, hv'⟩ := h.noted line hline hlt
      refine ⟨v, ?_, ?_⟩
      · rw [noted_noteHere, if_neg (by omega), hv]
      · rw [noted_noteHere, if_neg (by omega), hv'] }

end

/-! ### Where scanners start -/

/-- Scanners that start at one place are abreast. -/
theorem start {start length length' : Nat} (token : Token) (hsame : Text.SameTo k t t')
    (hlt : start < k) (h : start + length ≤ t.size) (h' : start + length' ≤ t'.size)
    (hstop : k ≤ (Scanner.start t start length token).stop)
    (hstop' : k ≤ (Scanner.start t' start length' token).stop) :
    Abreast loose start k (Scanner.start t start length token)
      (Scanner.start t' start length' token) where
  cursor :=
    { same := hsame
      sync := Cursor.inSync_start h
      sync' := Cursor.inSync_start h'
      pos := rfl
      pos_le := Nat.le_of_lt hlt
      stop := hstop
      stop' := hstop' }
  le_pos := Nat.le_refl _
  token := rfl
  mark_le := by show start ≤ min start _; omega
  mark_le' := by show start ≤ min start _; omega
  mark := fun _ => rfl
  look := by intro p hp hlt; exact absurd hp (Nat.not_le_of_lt hlt)
  noted := by intro line hline hlt; exact absurd hline (Nat.not_le_of_lt hlt)

/-- A scanner with no loose token is abreast of one that starts in that token where it
stands. -/
theorem restart {length : Nat} (h : Abreast loose o k s s') (hl : loose s.token = false)
    {k' : Nat} (hk : t.IsStop k') (hlt : s.pos < k') (hlen : s.pos + length ≤ t.size)
    (hstop : k' ≤ s.stop) (hstop' : k' ≤ (Scanner.start t s.pos length s.token).stop) :
    Abreast loose s.pos k' s (Scanner.start t s.pos length s.token) where
  cursor :=
    { same := Text.SameTo.refl hk
      sync := h.cursor.sync
      sync' := Cursor.inSync_start hlen
      pos := rfl
      pos_le := Nat.le_of_lt hlt
      stop := hstop
      stop' := hstop' }
  le_pos := Nat.le_refl _
  token := rfl
  mark_le := h.mark_le
  mark_le' := by show s.pos ≤ min s.pos _; omega
  mark := by rw [hl]; intro hl; cases hl
  look := by intro p hp hlt; exact absurd hp (Nat.not_le_of_lt hlt)
  noted := by
    intro line hline hlt
    rw [h.cursor.sync.line, t.lineAt_of_le (by omega)] at hlt
    omega

/-- A scanner with no loose token is abreast of itself with the open span painted. -/
theorem self_finish (h : Abreast loose o k s s') (hl : loose s.token = false) {k' : Nat}
    (hk : t.IsStop k') (hle : s.pos ≤ k') (hstop : k' ≤ s.stop) :
    Abreast loose o k' s s.finish where
  cursor :=
    { same := Text.SameTo.refl hk
      sync := h.cursor.sync
      sync' := by simpa [Scanner.finish] using h.cursor.sync
      pos := by simp [Scanner.finish]
      pos_le := hle
      stop := hstop
      stop' := by simpa [Scanner.finish] using hstop }
  le_pos := h.le_pos
  token := by simp [Scanner.finish]
  mark_le := h.mark_le
  mark_le' := h.finish.1.mark_le
  mark := by rw [hl]; intro hl; cases hl
  look := by intro p _ hlt hs; exact look_finish s hlt hs
  noted := by
    intro line hline hlt
    obtain ⟨state, hs, -⟩ := h.noted line hline hlt
    exact ⟨state, hs, by simpa [Scanner.finish] using hs⟩

end Abreast

/-! ## 3. Before the end of what is alike -/

/-- An ASCII character that ends no line. -/
def isSign (c : Nat) : Bool := isSolid c && c < 128

theorem isSolid_of_isSign {c : Nat} (hc : isSign c = true) : isSolid c = true := by
  simp only [isSign, Bool.and_eq_true] at hc
  exact hc.1

theorem isSign_of_oneOf {set : List Char} (hset : set.all (isSign ·.toNat) = true) {c : Nat}
    (h : Ascii.oneOf set c = true) : isSign c = true := by
  simp only [Ascii.oneOf, List.any_eq_true, beq_iff_eq] at h
  obtain ⟨x, hx, rfl⟩ := h
  exact List.all_eq_true.1 hset x hx

theorem isSign_of_sees {c : Char} (hc : isSign c.toNat = true) (h : s.sees c = true) :
    isSign s.ch = true := by
  rw [Cursor.sees, beq_iff_eq] at h
  rw [h]
  exact hc

theorem isSign_of_seesNext {c : Char} (hc : isSign c.toNat = true)
    (h : s.seesNext c = true) : isSign s.next = true := by
  rw [Cursor.seesNext, beq_iff_eq] at h
  rw [h]
  exact hc

theorem isSolid_of_sees {c : Char} (hc : isSign c.toNat = true) (h : s.sees c = true) :
    isSolid s.ch = true :=
  isSolid_of_isSign (isSign_of_sees hc h)

theorem cutBack_le (t : Text) (mark pos : Nat) : ∀ stop, cutBack t mark pos stop ≤ stop
  | 0 => Nat.le_refl _
  | stop + 1 => by
    rw [cutBack]
    split
    · exact Nat.le_succ_of_le (cutBack_le t mark pos stop)
    · exact Nat.le_refl _

namespace Inside

section

variable (h : Inside loose o k s s')
include h

theorem ch : s'.ch = s.ch := h.cursor.ch h.lt

theorem atLineEnd : s'.atLineEnd = s.atLineEnd := h.cursor.atLineEnd h.lt

theorem sees (c : Char) : s'.sees c = s.sees c := by rw [Cursor.sees, Cursor.sees, h.ch]

theorem atLineEnd_eq_false (hc : isSolid s.ch = true) : s.atLineEnd = false :=
  h.cursor.sync.atLineEnd_eq_false hc

theorem next_of_atLineEnd (hend : s.atLineEnd = false) : s'.next = s.next :=
  h.cursor.next h.lt hend

theorem atTerminator : s'.atTerminator = s.atTerminator := by
  have hline : s.line = t.lineOf s.pos := by
    have hle := h.cursor.same.stop.le
    have hlt := h.lt
    rw [h.cursor.sync.line, t.lineAt_of_le (by omega)]
  rw [Cursor.atTerminator, Cursor.atTerminator, h.cursor.pos, h.cursor.line, hline,
    h.cursor.same.lineEnd h.lt]

/-- Behind a carriage return both see a line feed, or neither does. -/
theorem seesNext_of_return (hc : s.ch = 13) : s'.seesNext '\n' = s.seesNext '\n' := by
  cases hend : s.atLineEnd with
  | false => rw [Cursor.seesNext, Cursor.seesNext, h.next_of_atLineEnd hend]
  | true =>
    have hno {t : Text} {s : Scanner t} (hsync : s.InSync) (hc : s.ch = 13)
        (hend : s.atLineEnd = true) : s.seesNext '\n' = false := by
      rw [Cursor.seesNext, beq_eq_false_iff_ne]
      intro hn
      rw [hsync.atLineEnd_of_pair hc hn] at hend
      cases hend
    rw [hno h.cursor.sync hc hend, hno h.cursor.sync' (h.ch.trans hc) (h.atLineEnd.trans hend)]

/-! ### Steps that stay before it -/

theorem paint (hm : s'.mark = s.mark) (token : Token) :
    Inside loose o k (s.paintTo s.pos token) (s'.paintTo s'.pos token)
      ∧ (s'.paintTo s'.pos token).mark = (s.paintTo s.pos token).mark :=
  ⟨⟨(h.toAbreast.paint hm token).1, by simpa using h.lt⟩, (h.toAbreast.paint hm token).2⟩

theorem relabel (hm : s'.mark = s.mark) (token : Token) :
    Inside loose o k (s.relabel token) (s'.relabel token) :=
  ⟨h.toAbreast.relabel hm token, h.lt⟩

theorem switch (token : Token) :
    Inside loose o k (s.switch token) (s'.switch token)
      ∧ (s'.switch token).mark = (s.switch token).mark :=
  ⟨⟨(h.toAbreast.switch token).1, by simpa using h.lt⟩, (h.toAbreast.switch token).2⟩

theorem note (state : Int) : Inside loose o k (s.noteHere state) (s'.noteHere state) :=
  ⟨h.toAbreast.note state, h.lt⟩

/-! ### Moving on -/

/-- A move keeps scanners abreast if the states of a line that it leaves are noted. -/
theorem forward (hend : s.atLineEnd = true →
      ∃ state, s.noted s.line = some state ∧ s'.noted s.line = some state) :
    Abreast loose o k s.forward s'.forward := by
  have hmore := h.cursor.more h.lt
  have hlt : s.pos < s.forward.pos := h.cursor.sync.toMeasured.pos_lt_forward hmore
  have hlt' : s'.pos < s'.forward.pos :=
    h.cursor.sync'.toMeasured.pos_lt_forward (h.cursor.more' h.lt)
  have ho := h.le_pos
  have hmark := h.mark_le
  have hmark' := h.mark_le'
  have hpos := h.cursor.pos
  refine { cursor := h.cursor.forward h.lt, le_pos := by omega, token := h.token,
           mark_le := by rw [mark_forward]; omega, mark_le' := by rw [mark_forward]; omega,
           mark := h.mark, look := ?_, noted := ?_ }
  · intro p hp _ hs
    by_cases hpast : p < s.pos
    · exact h.look p hp hpast hs
    · rw [look_forward, look_forward, look_of_le (by omega), look_of_le (by omega), h.token]
  · intro line hline hltl
    rw [toCursor_forward, Cursor.forward_of_more hmore] at hltl
    cases he : s.atLineEnd with
    | false =>
      simp only [he] at hltl
      exact h.noted line hline hltl
    | true =>
      simp only [he, if_true] at hltl
      by_cases heq : line = s.line
      · subst heq
        exact hend he
      · exact h.noted line hline (by omega)

/-- A move inside a line stays before the end of what is alike. -/
theorem forward_of_atLineEnd (hend : s.atLineEnd = false) :
    Inside loose o k s.forward s'.forward :=
  ⟨h.forward (by rw [hend]; intro he; cases he), h.cursor.forward_lt h.lt hend⟩

/-- A move that comes to `k` is made at the end of a line, on its last byte. -/
theorem pos_of_forward (hk : s.forward.pos = k) : s.pos + 1 = k ∧ s.atLineEnd = true := by
  have hend : s.atLineEnd = true := by
    cases he : s.atLineEnd with
    | true => rfl
    | false => exact absurd hk (Nat.ne_of_lt (h.forward_of_atLineEnd he).lt)
  have hwidth : s.width = 1 := by
    rw [h.cursor.sync.width]
    exact (t.charAt_of_lineEndsAt (by rw [← h.cursor.sync.atLineEnd]; exact hend)).2
  rw [toCursor_forward, Cursor.forward_pos (h.cursor.more h.lt), hwidth] at hk
  exact ⟨hk, hend⟩

theorem forward_of_solid (hc : isSolid s.ch = true) : Inside loose o k s.forward s'.forward :=
  h.forward_of_atLineEnd (h.atLineEnd_eq_false hc)

end

theorem forward_of_sees (h : Inside loose o k s s') {c : Char} (hc : isSign c.toNat = true)
    (hs : s.sees c = true) : Inside loose o k s.forward s'.forward :=
  h.forward_of_solid (isSolid_of_sees hc hs)

/-! ### The open span -/

theorem openText (h : Inside loose o k s s') (hm : s'.mark = s.mark) :
    s'.openText = s.openText := by
  have hmin := h.min_size
  have hpos := h.cursor.pos
  have hle := h.cursor.pos_le
  have hcut : ∀ stop, cutBack t' s.mark s.pos stop = cutBack t s.mark s.pos stop := by
    intro stop
    induction stop with
    | zero => rfl
    | succ stop ih =>
      rw [cutBack, cutBack, ih]
      by_cases hlt : stop + 1 < s.pos
      · rw [h.cursor.same.byteAt (by omega)]
      · simp [hlt]
  rw [Scanner.openText, Scanner.openText, hm, hpos, hcut,
    show min (min s.pos (s.mark + maxWordSize)) t'.size
      = min (min s.pos (s.mark + maxWordSize)) t.size by omega]
  apply h.cursor.same.slice
  have hstop := cutBack_le t s.mark s.pos (min (min s.pos (s.mark + maxWordSize)) t.size)
  omega

end Inside

end Restyle.Scanner
