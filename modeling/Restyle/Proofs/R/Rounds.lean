/-
Restyle.Proofs.R.Rounds — the R lexer is a sound machine.

A round ends with a move, so every round moves on, and one round per
position suffices.
-/
import Restyle.Proofs.Engine.Rounds
import Restyle.R.Styling

namespace Restyle.R

/-- The lexer as a machine. -/
def engine (g : Settings) : Engine where
  State := Machine
  scan m := m.scan
  round m := m.step g
  start t start length token raw := Machine.start t start length token (LineState.unpack raw)
  rounds length := length + 1

namespace Machine

open Scanner

variable {t : Text}

theorem run_eq (g : Settings) : ∀ (fuel : Nat) (m : Machine t), m.run g fuel = (engine g).run fuel m
  | 0, _ => rfl
  | fuel + 1, m => by
    rw [run, run_eq g fuel]
    rfl

/-! ## 1. What each round does to the scanner -/

theorem reach_saveLine (m : Machine t) : m.scan.Reach m.saveLine.scan := Reach.refl.note _

theorem reach_numeral (s : Scanner t) : s.Reach (numeral s) := by
  rw [numeral]
  split
  · exact Reach.refl.forward
  · split
    · exact .refl
    · split
      · exact Reach.refl.forward.switch _
      · exact Reach.refl.switch _

theorem reach_word (g : Settings) (s : Scanner t) : s.Reach (word g s) := by
  rw [word]
  split
  · exact .refl
  · exact (Reach.refl.relabel _).switch _

theorem reach_quoted (quote : Char) (s : Scanner t) : s.Reach (quoted quote s) := by
  rw [quoted]
  split
  · split
    · exact Reach.refl.forward
    · exact .refl
  · split
    · exact Reach.refl.forwardSwitch _
    · exact .refl

theorem reach_passDashes : ∀ (count : Nat) (s : Scanner t), s.Reach (passDashes count s).2
  | 0, _ => .refl
  | count + 1, s => by
    rw [passDashes]
    split
    · exact Reach.refl.forward.trans (reach_passDashes count _)
    · exact .refl

theorem moved_passDashes (count : Nat) : ∀ s : Scanner t, Moved s (passDashes count s).2 := by
  induction count with
  | zero => exact Moved.refl
  | succ count ih =>
    intro s
    rw [passDashes]
    split
    · exact (Moved.refl s).forward.trans (ih s.forward)
    · exact .refl s

theorem advances_tryClose (d : Delimiter) (quote : Char) (s : Scanner t) :
    s.Advances (d.tryClose quote s).2 := by
  have hdashes : s.forward.Reach (passDashes d.dashes s.forward).2 := reach_passDashes ..
  rw [Delimiter.tryClose]
  dsimp only
  split
  · exact .of_forward (hdashes.forwardSwitch _)
  · exact .of_forward hdashes

section

variable {d : Delimiter} {quote : Char} {s r : Scanner t}

theorem moved_tryClose (h : d.tryClose quote s = (false, r)) : Moved s r := by
  rw [Delimiter.tryClose] at h
  dsimp only at h
  split at h
  · cases h
  · obtain rfl := congrArg Prod.snd h
    exact (Moved.refl s).forward.trans (moved_passDashes ..)

theorem closeRaw_of_closed (h : d.tryClose quote s = (true, r)) :
    d.closeRaw quote s = some (true, r) := by
  rw [Delimiter.closeRaw, h]

theorem closeRaw_of_failed (h : d.tryClose quote s = (false, r)) (hch : r.ch ≠ d.close) :
    d.closeRaw quote s = some (false, r) := by
  rw [Delimiter.closeRaw, h]
  exact if_neg hch

theorem closeRaw_of_again (h : d.tryClose quote s = (false, r)) (hch : r.ch = d.close) :
    d.closeRaw quote s = d.closeRaw quote r := by
  rw [Delimiter.closeRaw, h]
  exact if_pos hch

end

/-- What holds of one attempt to close a raw string, and goes back from the next one, holds of
all that end. -/
theorem closeRaw_induction {d : Delimiter} {quote : Char}
    {P : Scanner t → Bool × Scanner t → Prop}
    (closed : ∀ s r, d.tryClose quote s = (true, r) → P s (true, r))
    (failed : ∀ s r, d.tryClose quote s = (false, r) → r.ch ≠ d.close → P s (false, r))
    (again : ∀ s r x, d.tryClose quote s = (false, r) → r.ch = d.close → P r x → P s x)
    {s : Scanner t} {x : Bool × Scanner t} (h : d.closeRaw quote s = some x) : P s x := by
  refine Delimiter.closeRaw.partial_correctness d quote P (fun rest ih s x h => ?_) s x h
  cases htry : d.tryClose quote s with
  | mk done r =>
    cases done with
    | true =>
      rw [htry] at h
      obtain rfl := Option.some.inj h
      exact closed s r htry
    | false =>
      rw [htry] at h
      dsimp only at h
      split at h
      · rename_i hch
        exact again s r x htry hch (ih r x h)
      · rename_i hch
        obtain rfl := Option.some.inj h
        exact failed s r htry hch

/-- Attempts to close a raw string that fail leave it open as it was. -/
theorem moved_closeRaw {d : Delimiter} {quote : Char} {s r : Scanner t}
    (h : d.closeRaw quote s = some (false, r)) : Moved s r := by
  refine closeRaw_induction (P := fun s x => x.1 = false → Moved s x.2) ?_ ?_ ?_ h rfl
  · intro s r _ h
    cases h
  · exact fun s r h _ _ => moved_tryClose h
  · exact fun s r x h _ hx hopen => (moved_tryClose h).trans (hx hopen)

theorem advances_closeRaw {d : Delimiter} {quote : Char} {s : Scanner t} {x : Bool × Scanner t}
    (h : d.closeRaw quote s = some x) : s.Advances x.2 := by
  have htry {s r : Scanner t} {done : Bool} (h : d.tryClose quote s = (done, r)) :
      s.Advances r := by
    have hadv := advances_tryClose d quote s
    rw [h] at hadv
    exact hadv
  refine closeRaw_induction (P := fun s x => s.Advances x.2) ?_ ?_ ?_ h
  · exact fun s r h => htry h
  · exact fun s r h _ => htry h
  · exact fun s r x h _ hx => (htry h).trans hx.reach

theorem reach_rawString (quote : Char) (m : Machine t) :
    m.scan.Reach (m.rawString quote).scan := by
  rw [rawString]
  split
  · exact .refl
  · split
    · split
      · rename_i heq
        exact (advances_closeRaw heq).reach
      · exact .refl
    · exact .refl

theorem reach_percentOperator (m : Machine t) : m.scan.Reach m.percentOperator.scan := by
  rw [percentOperator]
  split
  · exact Reach.refl.forwardSwitch _
  · split
    · exact ((Reach.refl.note _).relabel _).forwardSwitch _
    · exact .refl

theorem reach_endToken (g : Settings) (m : Machine t) : m.scan.Reach (m.endToken g).scan := by
  rw [endToken]
  split
  · exact Reach.refl.switch _
  · exact reach_numeral _
  · exact reach_word g _
  · split
    · exact Reach.refl.switch _
    · exact .refl
  · exact reach_quoted ..
  · exact reach_quoted ..
  · exact reach_quoted ..
  · exact reach_rawString ..
  · exact reach_rawString ..
  · exact reach_percentOperator m
  · exact .refl

theorem reach_startRaw (m : Machine t) : m.scan.Reach m.startRaw.scan := by
  rw [startRaw]
  split
  · exact (Reach.refl.switch _).forwardBy _
  · exact (Reach.refl.switch _).forwardSwitch _

/-- What starts, starts with a move of the scanner only if it is taken two characters at a time. -/
theorem startToken_cases (m : Machine t) :
    m.startToken = m ∨ (∃ token, m.startToken = m.map (·.switch token))
      ∨ ((m.scan.sees '0' && Ascii.oneOf ['x', 'X'] m.scan.next) = true
        ∧ m.startToken = m.map fun s => (s.switch .number).forward)
      ∨ ((Ascii.oneOf ['r', 'R'] m.scan.ch
          && Ascii.oneOf [Ascii.doubleQuote, Ascii.singleQuote] m.scan.next) = true
        ∧ m.startToken = m.startRaw) := by
  rw [startToken]
  split
  · by_cases hzero : (m.scan.sees '0' && Ascii.oneOf ['x', 'X'] m.scan.next) = true
    · refine Or.inr (Or.inr (Or.inl ⟨hzero, ?_⟩))
      simp only [map, Scanner.toCursor_switch, if_pos hzero]
    · refine Or.inr (Or.inl ⟨.number, ?_⟩)
      simp only [map, Scanner.toCursor_switch, if_neg hzero]
  · split
    · rename_i hraw
      exact Or.inr (Or.inr (Or.inr ⟨hraw, rfl⟩))
    · repeat' split
      all_goals first | exact Or.inr (Or.inl ⟨_, rfl⟩) | exact Or.inl rfl

theorem reach_startToken (m : Machine t) : m.scan.Reach m.startToken.scan := by
  rcases m.startToken_cases with heq | ⟨token, heq⟩ | ⟨-, heq⟩ | ⟨-, heq⟩ <;> rw [heq]
  · exact .refl
  · exact Reach.refl.switch token
  · exact (Reach.refl.switch .number).forward
  · exact reach_startRaw m

theorem advances_step (g : Settings) (m : Machine t) : m.scan.Advances (m.step g).scan := by
  have hstart (m : Machine t) :
      m.scan.Reach (if m.scan.token = .plain then m.startToken else m).scan := by
    split
    · exact reach_startToken m
    · exact .refl
  have hsave (m : Machine t) : m.scan.Reach (if m.scan.atLineEnd then m.saveLine else m).scan := by
    split
    · exact reach_saveLine m
    · exact .refl
  exact ⟨_, ((reach_endToken g m).trans (hstart _)).trans (hsave _), .refl⟩

end Machine

/-! ## 2. The machine is sound -/

theorem ends_run (g : Settings) {t : Text} (fuel : Nat) (m : Machine t) (hm : m.scan.Measured)
    (h : m.scan.stop ≤ m.scan.pos + fuel) : (engine g).Ends m ((engine g).run fuel m) := by
  apply Engine.ends_run (E := engine g) (P := fun m : Machine t => m.scan.Measured)
    (f := fun m : Machine t => m.scan.stop - m.scan.pos)
  · intro m hm
    exact (m.advances_step g).reach.measured hm
  · intro m hm hmore
    have hlt : m.scan.pos < m.scan.stop := Cursor.more_iff.1 hmore
    have hadv := m.advances_step g
    have hstop : (m.step g).scan.stop = m.scan.stop := hadv.reach.stop
    have := hadv.pos_lt hm hmore
    show (m.step g).scan.stop - (m.step g).scan.pos < _
    omega
  · exact hm
  · omega

theorem sound (g : Settings) : (engine g).Sound where
  scan_start _ _ _ _ _ := ⟨_, rfl⟩
  reach m := (m.advances_step g).reach
  ends length m := ends_run g (length + 1) m

theorem style_eq (g : Settings) (t : Text) (start length : Nat) (token : Token) (raw : Int) :
    style g t start length token raw = (engine g).style t start length token raw := by
  rw [style, Engine.style, Engine.last, Machine.run_eq]
  rfl

end Restyle.R
