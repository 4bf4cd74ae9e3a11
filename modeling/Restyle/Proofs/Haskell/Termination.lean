/-
Restyle.Proofs.Haskell.Termination — no loop of the Haskell lexer goes on
for ever.

Rounds that stay where they are lower the rank of their state, which is
at most 2, so one of three rounds moves on (`exists_move`). Inside a
round there are two loops whose length is not known before: over the
signs of an operator and over the parts of a name. Each of their steps
moves on as long as there is something left of the range, and behind its
end spaces are seen, which are neither (`exits_forwardWhile`,
`exits_nameRest`).
-/
import Restyle.Proofs.Haskell.Rounds

namespace Restyle.Haskell

open Ascii

namespace Machine

variable {t : Text}

/-! ## 1. Rounds that move on -/

theorem exists_move_of_rank (g : Settings) (rank : Nat) : ∀ {m : Machine t}, m.rank ≤ rank →
    m.scan.Measured → m.scan.more = true →
    ∃ j ≤ rank, ((step g)^[j] m).scan.pos < ((step g)^[j + 1] m).scan.pos := by
  induction rank with
  | zero =>
    intro m hrank hm hmore
    rcases m.moves_step g with hadv | ⟨-, -, hlow⟩
    · exact ⟨0, Nat.le_refl 0, hadv.pos_lt hm hmore⟩
    · omega
  | succ rank ih =>
    intro m hrank hm hmore
    rcases m.moves_step g with hadv | ⟨hreach, hpos, hlow⟩
    · exact ⟨0, Nat.zero_le _, hadv.pos_lt hm hmore⟩
    · have hmore' : (m.step g).scan.more = true := by
        rw [Cursor.more_iff] at hmore ⊢
        rw [hpos, hreach.stop]
        exact hmore
      obtain ⟨j, hj, hlt⟩ := ih (by omega) (hreach.measured hm) hmore'
      exact ⟨j + 1, by omega, hlt⟩

/-- Among any three rounds one moves on. -/
theorem exists_move (g : Settings) {m : Machine t} (hm : m.scan.Measured)
    (hmore : m.scan.more = true) :
    ∃ j < 3, ((step g)^[j] m).scan.pos < ((step g)^[j + 1] m).scan.pos := by
  obtain ⟨j, hj, hlt⟩ := exists_move_of_rank g 2 m.rank_le hm hmore
  exact ⟨j, by omega, hlt⟩

/-! ## 2. Loops inside a round -/

/-- One step over the characters of class `p`. -/
def passOver (p : Nat → Bool) (s : Scanner t) : Scanner t ⊕ Scanner t :=
  if p s.ch then .inl s.forward else .inr s

/-- A step comes closer to the end of the range, or to the spaces behind it. -/
theorem exits_forwardWhile {p : Nat → Bool} (hp : p 0x20 = false) (fuel : Nat) :
    ∀ {s : Scanner t}, s.Measured → s.stop - s.pos < fuel ∨ p s.ch = false →
      Exits (passOver p) s (s.forwardWhile p fuel) := by
  induction fuel with
  | zero =>
    intro s _ h
    have hch : p s.ch = false := h.resolve_left (Nat.not_lt_zero _)
    exact .leave (by rw [passOver, hch]; rfl)
  | succ fuel ih =>
    intro s hm h
    cases hch : p s.ch with
    | false =>
      rw [Scanner.forwardWhile, hch]
      exact .leave (by rw [passOver, hch]; rfl)
    | true =>
      rw [Scanner.forwardWhile, if_pos hch]
      refine .again (by rw [passOver, if_pos hch]) (ih hm.forward ?_)
      rw [hch] at h
      cases hmore : s.more with
      | true =>
        have hlt := hm.pos_lt_forward hmore
        have hstop := s.toCursor.forward_stop
        have hbefore := Cursor.more_iff.1 hmore
        have hfuel := h.resolve_right (by decide)
        left
        rw [Scanner.toCursor_forward]
        omega
      | false =>
        right
        rw [Scanner.toCursor_forward, Cursor.forward_of_not_more hmore]
        exact hp

theorem exits_skip {s : Scanner t} (hm : s.Measured) :
    Exits (passOver isOperatorChar) s (s.skip isOperatorChar) :=
  exits_forwardWhile (by decide) _ hm (Or.inl (Nat.lt_succ_self _))

/-- What stands at the cursor in a name whose spelling so far makes it some token: a part of it to
pass, or its end. -/
def nameStep (o : Options) :
    Token × Scanner t → (Token × Scanner t) ⊕ (Token × Scanner t)
  | (token, s) =>
    if !s.more then .inr (token, s)
    else if isWordChar s.ch then .inl (token, s.forward)
    else if s.sees '#' && o.magicHash then .inr (token, s.forward)
    else if token == .capital && s.sees '.' then
      if isUpper s.next then .inl (.capital, s.forward)
      else if isWordStart s.next then .inl (.identifier, s.forward)
      else if isOperatorChar s.next then
        let s := s.forward
        .inr (if s.sees ':' then .capital else .operator, s.skip isOperatorChar)
      else .inr (token, s)
    else .inr (token, s)

theorem nameRest_succ (o : Options) (fuel : Nat) (token : Token) (s : Scanner t) :
    nameRest o (fuel + 1) token s = match nameStep o (token, s) with
      | .inl (token, s) => nameRest o fuel token s
      | .inr x => x := by
  rw [nameRest, nameStep]
  repeat' split
  all_goals first | rfl | simp_all

theorem nameStep_of_not_more (o : Options) (token : Token) {s : Scanner t}
    (hmore : s.more = false) : nameStep o (token, s) = .inr (token, s) := by
  rw [nameStep, hmore]
  rfl

/-- A name goes on with one character more. -/
theorem nameStep_inl {o : Options} {token token' : Token} {s r : Scanner t}
    (h : nameStep o (token, s) = .inl (token', r)) : s.more = true ∧ r = s.forward := by
  cases hmore : s.more with
  | false =>
    rw [nameStep_of_not_more o token hmore] at h
    cases h
  | true =>
    rw [nameStep] at h
    dsimp only at h
    refine ⟨rfl, ?_⟩
    repeat' split at h
    all_goals cases h
    all_goals rfl

theorem exits_nameRest (o : Options) (fuel : Nat) : ∀ (token : Token) {s : Scanner t},
    s.Measured → s.stop - s.pos ≤ fuel →
      Exits (nameStep o) (token, s) (nameRest o fuel token s) := by
  induction fuel with
  | zero =>
    intro token s _ h
    exact .leave (nameStep_of_not_more o token (decide_eq_false (by omega)))
  | succ fuel ih =>
    intro token s hm h
    rw [nameRest_succ]
    cases hstep : nameStep o (token, s) with
    | inr x => exact .leave hstep
    | inl x =>
      obtain ⟨token', r⟩ := x
      obtain ⟨hmore, rfl⟩ := nameStep_inl hstep
      refine .again hstep (ih token' hm.forward ?_)
      have hlt := hm.pos_lt_forward hmore
      have hstop := s.toCursor.forward_stop
      rw [Scanner.toCursor_forward]
      omega

end Machine

end Restyle.Haskell
