/-
Restyle.Proofs.Lexer.Notes — whose line states a call changes.

A call notes states for the lines of its range. The Haskell lexer notes
none for other lines. The R lexer may note one more, for the line that
starts where the range ends (`LooksPast`): its last round goes on there
when it has ended a percent operator that the line before leaves open.
-/
import Restyle.Proofs.Haskell.Notes
import Restyle.Proofs.Lexer.Resume
import Restyle.Proofs.R.Notes

namespace Restyle

namespace Engine

variable {E : Engine} {t : Text} {start length : Nat}

/-- A run to a line start begins with a scanner bound for it. -/
theorem Sound.spares_start (hE : E.Sound) (token : Token) (raw : Int)
    (hk : start + length ∈ t.starts) (h : start + length < t.size) :
    (E.scan (E.start t start length token raw)).Spares (start + length) := by
  obtain ⟨opened, hstart⟩ := hE.scan_start t start length token raw
  rw [hstart]
  exact ⟨Scanner.bound_start hk h opened, rfl⟩

/-- Nothing is noted for the lines behind the one where the range ends. -/
theorem Sound.stateOf?_eq_none_of_lt (hE : E.Sound) (token : Token) (raw : Int)
    (hk : start + length ∈ t.starts) (h : start + length < t.size) {line : Nat}
    (hline : t.lineOf (start + length) < line) :
    (E.style t start length token raw).stateOf? line = none := by
  obtain ⟨opened, hstart⟩ := hE.scan_start t start length token raw
  have hbound := (hE.spares_start token raw hk h).toBound
  rw [Resumable.stateOf?_style, hbound.noted_of_reach (hE.reach_ends (hE.ends_start ..)) hline,
    hstart]
  rfl

end Engine

namespace Lexer

variable {b : Buffer} {start length : Nat}

/-- What may make a call note a state for the line that starts where its range ends: a raw string
of the line before that closes with a line end, or a percent operator left open on the last line,
if the line behind spills. -/
def LooksPast (l : Lexer) (b : Buffer) (start length : Nat) (token : Token) : Prop :=
  match l with
  | haskell .. => False
  | r g =>
    (∃ d ∈ R.LineState.unpack (savedBefore b start), d.close = 10 ∨ d.close = 13)
      ∨ ((r g).lex b start length token).tokenAt (start + length - 1) = .openPercentOperator
        ∧ R.spills b.text (start + length) = true

/-- Where a range ends at a line start nothing is noted for the line there, unless the lexer looks
past it. -/
theorem stateOf?_styling_eq_none_or (l : Lexer) (hb : b.WellFormed) (token : Token)
    (hk : start + length ∈ b.text.starts) (h : start + length < b.size) :
    (l.styling b start length token).stateOf? (b.text.lineOf (start + length)) = none
      ∨ l.LooksPast b start length token := by
  have hsize : start + length < b.text.size := h
  have hspares := l.sound.spares_start token (savedBefore b start) hk hsize
  have hends := l.sound.ends_start b.text start length token (savedBefore b start)
  rw [styling_eq, Engine.Resumable.stateOf?_style]
  cases l with
  | haskell g first =>
    refine Or.inl (Scanner.Spares.spared (k := start + length) ?_)
    exact hends.invariant (P := fun m : Haskell.Machine b.text => m.scan.Spares (start + length))
      (fun m hm hmore => Haskell.Machine.spares_step hm hmore g) hspares
  | r g =>
    by_cases hclose : ∃ d ∈ R.LineState.unpack (savedBefore b start), d.close = 10 ∨ d.close = 13
    · exact Or.inr (Or.inl hclose)
    · have hraw : (R.Machine.start b.text start length token
          (R.LineState.unpack (savedBefore b start))).ClosesInLine := by
        intro d hd
        exact not_or.1 fun hno => hclose ⟨d, hd, hno⟩
      have hpainted := Scanner.painted_start (show start ≤ b.text.size by omega) length
        (if token = .openPercentOperator then .plain else token)
      rcases R.Machine.ends_cases hsize hends hspares hpainted hraw with hlast | hover
      · exact Or.inl hlast.spared
      · refine Or.inr (Or.inr ⟨?_, hover.spills⟩)
        have hpos := hover.pos
        have hlook := Engine.Resumable.tokenAt?_style (r g).sound token (savedBefore b start)
          (Nat.le_of_lt hsize) (p := start + length - 1) (by omega)
        have hopen : ((r g).engine.scan ((r g).engine.last b.text start length token
            (savedBefore b start))).look (start + length - 1) = some .openPercentOperator :=
          hover.look
        rw [lex, Buffer.tokenAt_restyle _ _ (by rw [hb.styles_size]; omega), styling_eq, hlook,
          hopen, Option.getD_some]

/-- A call changes the states of the lines of its range and of no others, but that the R lexer may
look past the end of the range. -/
theorem lex_lineStates (l : Lexer) (hb : b.WellFormed) (token : Token)
    (hstop : start + length ∈ b.text.starts ∨ start + length = b.size) :
    let lexed := l.lex b start length token
    (∀ line < b.text.lineOf start, lexed.lineState line = b.lineState line)
      ∧ (start + length < b.size → ∀ line, b.text.lineOf (start + length) ≤ line →
        lexed.lineState line = b.lineState line
          ∨ line = b.text.lineOf (start + length) ∧ l.LooksPast b start length token) := by
  refine ⟨fun line hline => ?_, fun hlt line hline => ?_⟩
  · exact Buffer.lineState_restyle_of_none hb (l.stateOf?_styling_eq_none length token hline)
  · have hk := hstop.resolve_right (Nat.ne_of_lt hlt)
    rcases Nat.lt_or_eq_of_le hline with hbehind | rfl
    · left
      apply Buffer.lineState_restyle_of_none hb
      rw [styling_eq]
      exact l.sound.stateOf?_eq_none_of_lt token (savedBefore b start) hk hlt hbehind
    · rcases l.stateOf?_styling_eq_none_or hb token hk hlt with hnone | hpast
      · exact Or.inl (Buffer.lineState_restyle_of_none hb hnone)
      · exact Or.inr ⟨rfl, hpast⟩

/-- A percent operator that is left open before a line with a raw string. -/
def openBeforeRaw : Buffer :=
  .ofText (.ofBytes #[0x25, 0x0A, 0x72, 0x22, 0x28, 0x78, 0x29, 0x22, 0x0A] .utf8)

theorem lex_lineStates_of_open_operator :
    let b := openBeforeRaw
    let lexed := (r {}).lex b 0 2 .plain
    b.WellFormed ∧ (0 + 2 ∈ b.text.starts ∨ 0 + 2 = b.size)
      ∧ (∀ line < b.text.lineOf 0, lexed.lineState line = b.lineState line)
      ∧ (0 + 2 < b.size → ∀ line, b.text.lineOf (0 + 2) ≤ line →
        lexed.lineState line = b.lineState line
          ∨ line = b.text.lineOf (0 + 2) ∧ (r {}).LooksPast b 0 2 .plain) :=
  have hb : openBeforeRaw.WellFormed := Buffer.wellFormed_ofText _
  ⟨hb, by decide +kernel, lex_lineStates (r {}) hb .plain (by decide +kernel)⟩

/-- The raw string is noted for its line by a call that ends before it. -/
theorem lex_notes_next_line :
    let b := openBeforeRaw
    let lexed := (r {}).lex b 0 2 .plain
    0 ∈ b.text.starts ∧ 2 ∈ b.text.starts ∧ 2 < b.size ∧ b.text.lineStart 1 = 2
      ∧ b.lineState 1 = 0 ∧ lexed.lineState 1 = ')'.toNat := by
  decide +kernel

end Lexer

end Restyle
