/-
Restyle.Proofs.Haskell.Rounds — the Haskell lexer is a sound machine.

Each round moves on, or it stays where it is and changes to a state of
lower `rank`; no state has a rank above 2. So among any three rounds one
moves on, and three rounds per position suffice (`ends_run`).
-/
import Restyle.Haskell.Styling
import Restyle.Proofs.Engine.Rounds

namespace Restyle.Haskell

/-- The lexer as a machine. -/
def engine (g : Settings) : Engine where
  State := Machine
  scan m := m.scan
  round m := m.step g
  start t start length token raw := Machine.start t start length token (LineState.unpack raw)
  rounds := roundsFor

namespace Machine

open Scanner

variable {t : Text}

theorem run_eq (g : Settings) : ∀ (fuel : Nat) (m : Machine t), m.run g fuel = (engine g).run fuel m
  | 0, _ => rfl
  | fuel + 1, m => by
    rw [run, run_eq g fuel]
    rfl

/-! ## 1. What each round does to the scanner -/

theorem reach_saveLine (m : Machine t) : m.scan.Reach m.saveLine.scan := Reach.refl.note _

theorem advances_skip (p : Nat → Bool) (s : Scanner t) (h : p s.ch = true) :
    s.Advances (s.skip p) := by
  rw [Scanner.skip, forwardWhile, if_pos h]
  exact .of_forward (Reach.refl.forwardWhile p _)

theorem reach_operatorRun (s : Scanner t) : s.Reach (operatorRun s) :=
  ((Reach.refl.skip _).paint _).relabel _

theorem advances_operatorRun (s : Scanner t) (h : isOperatorChar s.ch = true) :
    s.Advances (operatorRun s) :=
  (advances_skip _ s h).trans ((Reach.refl.paint _).relabel _)

theorem reach_skipHash (o : Options) (two : Bool) (s : Scanner t) :
    s.Reach (skipHash o two s) := by
  rw [skipHash]
  split
  · dsimp only
    split
    · exact Reach.refl.forward.forward
    · exact Reach.refl.forward
  · exact .refl

theorem advances_quoted (o : Options) (quote : Char) (m : Machine t) :
    m.scan.Advances (m.quoted o quote).scan := by
  rw [quoted]
  dsimp only
  split
  · exact .of_forward ((reach_skipHash o false _).switch _)
  · split
    · refine .of_forward ?_
      split
      · exact (Reach.refl.note _).forward
      · exact Reach.refl.forward
    · split
      · exact .of_switch_forward .refl
      · exact .of_forward .refl

theorem numeral_cases (o : Options) (radix : Radix) (s : Scanner t) :
    s.Advances (numeral o radix s) ∨ numeral o radix s = (skipHash o true s).switch .plain := by
  rw [numeral]
  split
  · exact Or.inl (.of_forward .refl)
  · split
    · left
      dsimp only
      split
      · exact .of_forward Reach.refl.forward
      · exact .of_forward .refl
    · exact Or.inr rfl

theorem reach_nameRest (o : Options) : ∀ (fuel : Nat) (token : Token) (s : Scanner t),
    s.Reach (nameRest o fuel token s).2
  | 0, _, _ => .refl
  | fuel + 1, token, s => by
    have step (token : Token) : s.Reach (nameRest o fuel token s.forward).2 :=
      Reach.refl.forward.trans (reach_nameRest o fuel token _)
    rw [nameRest]
    split
    · exact .refl
    · split
      · exact step token
      · split
        · exact Reach.refl.forward
        · split
          · split
            · exact step _
            · split
              · exact step _
              · split
                · exact Reach.refl.forward.skip _
                · exact .refl
          · exact .refl

theorem advances_word (g : Settings) (m : Machine t) : m.scan.Advances (m.word g).scan :=
  .of_forward (((reach_nameRest g.options _ _ _).paint _).relabel _)

theorem advances_blockComment (m : Machine t) : m.scan.Advances m.blockComment.scan := by
  rw [blockComment]
  split
  · exact .of_forward (Reach.refl.forwardBy 1)
  · split
    · dsimp only
      split
      · exact .of_forward ((Reach.refl.forwardBy 1).switch _)
      · exact .of_forward (Reach.refl.forwardBy 1)
    · exact .of_forward .refl

theorem advances_pragma (s : Scanner t) : s.Advances (pragma s) := by
  rw [pragma]
  split
  · exact .of_forward ((Reach.refl.forwardBy 2).switch _)
  · exact .of_forward .refl

theorem directive_cases (o : Options) (s : Scanner t) :
    s.Advances (directive o s) ∨ directive o s = s.switch .plain := by
  rw [directive]
  split
  · exact Or.inr rfl
  · split
    · exact Or.inl (.of_switch_forward .refl)
    · exact Or.inl (.of_forward .refl)

theorem advances_startNumeral (m : Machine t) : m.scan.Advances m.startNumeral.scan := by
  rw [startNumeral]
  split
  · exact .of_switch_forward (Reach.refl.forwardBy 1)
  · split
    · exact .of_switch_forward (Reach.refl.forwardBy 1)
    · exact .of_switch_forward .refl

theorem advances_startQuote (o : Options) (s : Scanner t) : s.Advances (startQuote o s) := by
  refine .of_switch_forward (?_ : Reach (s.switch .char).forward _)
  rw [startQuote]
  split
  · exact Reach.refl.relabel _
  · split
    · exact Reach.refl.forward.relabel _
    · split
      · exact Reach.refl.relabel _
      · split
        · exact Reach.refl.relabel _
        · split
          · exact Reach.refl.relabel _
          · split
            · exact (Reach.refl.paint _).relabel _
            · exact Reach.refl.relabel _

theorem advances_passLineEnd (s : Scanner t) : s.Advances (passLineEnd s) := by
  rw [passLineEnd]
  refine .of_forward ?_
  split
  · exact Reach.refl.forward.forward
  · exact Reach.refl.forward

/-- Outside every token a round moves on, or opens an operator or a name where one stands. -/
theorem plain_cases (o : Options) (m : Machine t) :
    m.scan.Advances (m.plain o).scan
      ∨ (isOperatorChar m.scan.ch = true ∧ (m.plain o).scan = m.scan.switch .operator)
      ∨ (m.plain o).scan = m.scan.switch .identifier := by
  rw [plain]
  dsimp only
  split
  · exact Or.inl (advances_startNumeral m)
  · split
    · exact Or.inl (.of_switch_forward (Reach.refl.forwardBy 2))
    · split
      · exact Or.inl (.of_switch_forward (Reach.refl.forwardBy 1))
      · split
        · exact Or.inl (.of_switch_forward (Reach.refl.forwardBy 1))
        · split
          · exact Or.inl (.of_switch_forward .refl)
          · split
            · exact Or.inl (advances_startQuote o _)
            · split
              · exact Or.inl (.of_switch_forward .refl)
              · split
                · rename_i hop
                  exact Or.inr (Or.inl ⟨hop, rfl⟩)
                · split
                  · exact Or.inl (.of_switch_forward (Reach.refl.switch _))
                  · split
                    · exact Or.inr (Or.inr rfl)
                    · exact Or.inl (.of_forward .refl)

/-! ## 2. Progress -/

/-- How many rounds in a row may stay where they are. -/
def rank (m : Machine t) : Nat :=
  match m.scan.token with
  | .number => 2
  | .directive => 2
  | .operator => if isOperatorChar m.scan.ch then 0 else 2
  | .identifier => 0
  | .string => 0
  | .char => 0
  | .blockComment => 0
  | .pragma => 0
  | .lineComment => if m.inDashes then 1 else 0
  | _ => 1

theorem rank_le (m : Machine t) : m.rank ≤ 2 := by
  rw [rank]
  split <;> try omega
  · split <;> omega
  · split <;> omega

theorem rank_of_plain {m : Machine t} (h : m.scan.token = .plain) : m.rank = 1 := by
  rw [rank, h]

theorem rank_of_operator {m : Machine t} (h : m.scan.token = .operator) :
    m.rank = if isOperatorChar m.scan.ch then 0 else 2 := by
  rw [rank, h]

theorem rank_of_lineComment {m : Machine t} (h : m.scan.token = .lineComment) :
    m.rank = if m.inDashes then 1 else 0 := by
  rw [rank, h]

/-- What a round may be: a move, or a change to a state of lower rank. -/
def Moves (m n : Machine t) : Prop :=
  m.scan.Advances n.scan
    ∨ (m.scan.Reach n.scan ∧ n.scan.pos = m.scan.pos ∧ n.rank < m.rank)

theorem Moves.reach {m n : Machine t} (h : Moves m n) : m.scan.Reach n.scan := by
  rcases h with h | h
  · exact h.reach
  · exact h.1

theorem moves_plain (o : Options) (m : Machine t) (h : m.rank = 1) : Moves m (m.plain o) := by
  rcases m.plain_cases o with hadv | ⟨hop, heq⟩ | heq
  · exact Or.inl hadv
  · refine Or.inr ⟨heq ▸ Reach.refl.switch _, ?_, ?_⟩
    · rw [heq, toCursor_switch]
    · have hop' : isOperatorChar (m.plain o).scan.ch = true := by
        rw [heq, toCursor_switch]
        exact hop
      rw [h, rank_of_operator (by rw [heq]; rfl), hop']
      exact Nat.one_pos
  · refine Or.inr ⟨heq ▸ Reach.refl.switch _, ?_, ?_⟩
    · rw [heq, toCursor_switch]
    · have hlow : (m.plain o).rank = 0 := by rw [rank, heq]; rfl
      rw [h, hlow]
      exact Nat.one_pos

theorem moves_lineComment (m : Machine t) (h : m.scan.token = .lineComment) :
    Moves m m.lineComment := by
  rw [lineComment]
  split
  · rename_i hdash
    rw [Bool.and_eq_true] at hdash
    have hm : m.rank = 1 := by rw [rank_of_lineComment h, if_pos hdash.1]
    cases hop : isOperatorChar m.scan.ch with
    | true =>
      refine Or.inr ⟨Reach.refl.relabel _, rfl, ?_⟩
      have hlow := rank_of_operator
        (m := { m with inDashes := false, scan := m.scan.relabel .operator }) rfl
      rw [toCursor_relabel, if_pos hop] at hlow
      rw [hm]
      exact hlow ▸ Nat.one_pos
    | false =>
      refine Or.inr ⟨.refl, rfl, ?_⟩
      rw [hm, rank_of_lineComment (by exact h)]
      exact Nat.one_pos
  · split
    · exact Or.inl (.of_switch_forward .refl)
    · exact Or.inl (.of_forward .refl)

/-- Behind its last sign an operator ends without a move. -/
theorem moves_operatorRun (m : Machine t) (h : m.scan.token = .operator) :
    Moves m (m.map operatorRun) := by
  cases hop : isOperatorChar m.scan.ch with
  | true => exact Or.inl (advances_operatorRun m.scan hop)
  | false =>
    have hskip : m.scan.skip isOperatorChar = m.scan := by
      rw [Scanner.skip, forwardWhile, hop]
      rfl
    refine Or.inr ⟨reach_operatorRun m.scan, ?_, ?_⟩
    · show (operatorRun m.scan).pos = _
      rw [operatorRun]
      rw [toCursor_relabel, toCursor_paintTo, hskip]
    · rw [rank_of_plain (by rfl), rank_of_operator h, hop]
      decide

/-- Behind its last digit a number ends without a move. -/
theorem moves_numeral (o : Options) (m : Machine t) (h : m.scan.token = .number) :
    Moves m (m.map (numeral o m.radix)) := by
  rcases numeral_cases o m.radix m.scan with hadv | heq
  · exact Or.inl hadv
  · by_cases hhash : (o.magicHash && m.scan.sees '#') = true
    · left
      show m.scan.Advances (numeral o m.radix m.scan)
      rw [heq, skipHash, if_pos hhash]
      refine .of_forward (Reach.switch _ ?_)
      dsimp only
      split
      · exact Reach.refl.forward
      · exact .refl
    · refine Or.inr ⟨?_, ?_, ?_⟩
      · show m.scan.Reach (numeral o m.radix m.scan)
        rw [heq]
        exact (reach_skipHash _ _ _).switch _
      · show (numeral o m.radix m.scan).pos = _
        rw [heq, toCursor_switch, skipHash, if_neg hhash]
      · have hlow : (m.map (numeral o m.radix)).rank = 1 :=
          rank_of_plain (by show (numeral o m.radix m.scan).token = _; rw [heq]; rfl)
        have hm : m.rank = 2 := by rw [rank, h]
        omega

/-- Where only its command word is styled, a directive ends behind that without a move. -/
theorem moves_directive (o : Options) (m : Machine t) (h : m.scan.token = .directive) :
    Moves m (m.map (directive o)) := by
  rcases directive_cases o m.scan with hadv | heq
  · exact Or.inl hadv
  · refine Or.inr ⟨?_, ?_, ?_⟩
    · show m.scan.Reach (directive o m.scan)
      rw [heq]
      exact Reach.refl.switch _
    · show (directive o m.scan).pos = _
      rw [heq, toCursor_switch]
    · have hlow : (m.map (directive o)).rank = 1 :=
        rank_of_plain (by show (directive o m.scan).token = _; rw [heq]; rfl)
      have hm : m.rank = 2 := by rw [rank, h]
      omega

theorem moves_stepToken (g : Settings) (m : Machine t) : Moves m (m.stepToken g) := by
  rw [stepToken]
  split
  case h_1 h => exact moves_operatorRun m h
  case h_2 => exact Or.inl (advances_quoted ..)
  case h_3 => exact Or.inl (advances_quoted ..)
  case h_4 h => exact moves_numeral g.options m h
  case h_5 => exact Or.inl (advances_word g m)
  case h_6 h => exact moves_lineComment m h
  case h_7 => exact Or.inl (advances_blockComment m)
  case h_8 => exact Or.inl (advances_pragma m.scan)
  case h_9 h => exact moves_directive g.options m h
  case h_10 h => exact moves_plain _ m (rank_of_plain h)
  case h_11 =>
    -- a token that this lexer never leaves open counts as plain
    have hm : m.rank = 1 := by
      rw [rank]
      split <;> first | rfl | (exfalso; simp_all)
    rcases moves_plain g.options (m.map (·.switch .plain)) (rank_of_plain rfl) with hadv | hstay
    · exact Or.inl (.of_reach (Reach.refl.switch _) hadv)
    · obtain ⟨hr, hpos, hrank⟩ := hstay
      refine Or.inr ⟨(Reach.refl.switch _).trans hr, ?_, ?_⟩
      · rw [hpos]
        exact congrArg Cursor.pos (toCursor_switch ..)
      · rw [rank_of_plain (m := m.map (·.switch .plain)) rfl] at hrank
        rw [hm]
        exact hrank

theorem moves_step (g : Settings) (m : Machine t) : Moves m (m.step g) := by
  have hsave {n : Machine t} (h : Moves m.saveLine n) : Moves m n := by
    rcases h with hadv | ⟨hr, hpos, hrank⟩
    · exact Or.inl (.of_reach (reach_saveLine m) hadv)
    · exact Or.inr ⟨(reach_saveLine m).trans hr, hpos, hrank⟩
  have hrest (m : Machine t) :
      Moves m (if continues m.scan then m.saveLine.map passLineEnd else m.stepToken g) := by
    split
    · exact Or.inl (.of_reach (reach_saveLine m) (advances_passLineEnd _))
    · exact moves_stepToken g m
  rw [step]
  split
  · exact hsave (hrest m.saveLine)
  · exact hrest m

end Machine

/-! ## 3. The machine is sound -/

theorem ends_run (g : Settings) {t : Text} (length : Nat) (m : Machine t) (hm : m.scan.Measured)
    (h : m.scan.stop ≤ m.scan.pos + (length + 1)) :
    (engine g).Ends m ((engine g).run (roundsFor length) m) := by
  apply Engine.ends_run (E := engine g) (P := fun m : Machine t => m.scan.Measured)
    (f := fun m : Machine t => 3 * (m.scan.stop - m.scan.pos) + m.rank - 2)
  · intro m hm
    exact (m.moves_step g).reach.measured hm
  · intro m hm hmore
    have hlt : m.scan.pos < m.scan.stop := Cursor.more_iff.1 hmore
    have hmoves := m.moves_step g
    have hstop : (m.step g).scan.stop = m.scan.stop := hmoves.reach.stop
    have hrank := (m.step g).rank_le
    show 3 * ((m.step g).scan.stop - (m.step g).scan.pos) + (m.step g).rank - 2 < _
    rw [hstop]
    rcases hmoves with hadv | ⟨-, hpos, hlow⟩
    · have := hadv.pos_lt hm hmore
      omega
    · rw [hpos]
      omega
  · exact hm
  · have := m.rank_le
    rw [roundsFor]
    omega

theorem sound (g : Settings) : (engine g).Sound where
  scan_start _ _ _ token _ := ⟨token, rfl⟩
  reach m := (m.moves_step g).reach
  ends length m := ends_run g length m

theorem style_eq (g : Settings) (t : Text) (start length : Nat) (token : Token) (raw : Int) :
    style g t start length token raw = (engine g).style t start length token raw := by
  rw [style, Engine.style, Engine.last, Machine.run_eq]
  rfl

end Restyle.Haskell
