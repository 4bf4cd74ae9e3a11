/-
Restyle.Proofs.Engine.Rounds — what the lexers have in common: a state
with a scanner in it, and rounds on that state until the scanner's range
is done.

* `Engine` — a machine of that kind; `Engine.run` and `Engine.style` are
  what both lexers do with theirs.
* `Engine.Ends` — a run to the end of the range, told without counting
  rounds. `ends_run` gets one from a measure that every round lowers.
* `Engine.Sound` — every round does to its scanner what scanners are for,
  and the rounds allowed suffice. That is all it takes for the spans
  painted to tile the text from the start of the range to where the walk
  ends (`Sound.exists_tile`).
* `Sound.last_eq_iterate` — the same run with its rounds counted.
* `Exits` — a loop inside a round that ends.
-/
import Mathlib.Logic.Function.Iterate
import Restyle.Proofs.Scanner.Coverage

namespace Restyle

/-- A machine that styles a range round by round. -/
structure Engine where
  State : Text → Type
  scan : {t : Text} → State t → Scanner t
  round : {t : Text} → State t → State t
  /-- The state at the start of a range, which stands in a token, after a line that saved
  a number. -/
  start : (t : Text) → (start length : Nat) → Token → Int → State t
  /-- The rounds allowed for a range of some length. -/
  rounds : Nat → Nat

namespace Engine

variable {E : Engine} {t : Text}

/-- Rounds until the range is done, at most `fuel` of them. -/
def run (E : Engine) : Nat → E.State t → E.State t
  | 0, m => m
  | fuel + 1, m => if (E.scan m).more then E.run fuel (E.round m) else m

/-- The state at the end of a range. -/
def last (E : Engine) (t : Text) (start length : Nat) (token : Token) (raw : Int) : E.State t :=
  E.run (E.rounds length) (E.start t start length token raw)

/-- How the machine styles a range. -/
def style (E : Engine) (t : Text) (start length : Nat) (token : Token) (raw : Int) : Styling :=
  (E.scan (E.last t start length token raw)).finish.styling

/-! ## 1. Whole runs -/

/-- Rounds on `m` come to the end of its range in `e`. -/
inductive Ends (E : Engine) : E.State t → E.State t → Prop
  | done {m : E.State t} : (E.scan m).more = false → Ends E m m
  | round {m e : E.State t} : (E.scan m).more = true → Ends E (E.round m) e → Ends E m e

namespace Ends

variable {m e : E.State t}

theorem more (h : E.Ends m e) : (E.scan e).more = false := by
  induction h with
  | done hmore => exact hmore
  | round _ _ ih => exact ih

theorem stop_le (h : E.Ends m e) : (E.scan e).stop ≤ (E.scan e).pos := by
  have hmore := h.more
  rw [Cursor.more, decide_eq_false_iff_not] at hmore
  omega

theorem round_of_more (h : E.Ends m e) (hmore : (E.scan m).more = true) :
    E.Ends (E.round m) e := by
  cases h with
  | done hdone => rw [hmore] at hdone; cases hdone
  | round _ hrest => exact hrest

theorem eq_of_not_more (h : E.Ends m e) (hmore : (E.scan m).more = false) : e = m := by
  cases h with
  | done _ => rfl
  | round hm _ => rw [hmore] at hm; cases hm

/-- What every round keeps, a run keeps. -/
theorem invariant {P : E.State t → Prop}
    (hround : ∀ m, P m → (E.scan m).more = true → P (E.round m))
    (h : E.Ends m e) (hm : P m) : P e := by
  induction h with
  | done _ => exact hm
  | round hmore _ ih => exact ih (hround _ hm hmore)

end Ends

/-- Rounds that lower a measure come to the end before it is used up. -/
theorem ends_run {P : E.State t → Prop} (hkeep : ∀ m, P m → P (E.round m))
    {f : E.State t → Nat}
    (hlower : ∀ m, P m → (E.scan m).more = true → f (E.round m) < f m) :
    ∀ (fuel : Nat) (m : E.State t), P m → f m ≤ fuel → E.Ends m (E.run fuel m)
  | 0, m, hm, hle => by
    cases hmore : (E.scan m).more with
    | false => exact .done hmore
    | true =>
      have := hlower m hm hmore
      omega
  | fuel + 1, m, hm, hle => by
    rw [run]
    cases hmore : (E.scan m).more with
    | false => exact .done hmore
    | true =>
      have := hlower m hm hmore
      exact .round hmore (ends_run hkeep hlower fuel _ (hkeep m hm) (by omega))

/-! ## 2. Sound machines -/

/-- The machine uses its scanner as scanners are used, and comes to the end of every
range. -/
structure Sound (E : Engine) : Prop where
  scan_start (t : Text) (start length : Nat) (token : Token) (raw : Int) :
    ∃ opened, E.scan (E.start t start length token raw) = Scanner.start t start length opened
  reach {t : Text} (m : E.State t) : (E.scan m).Reach (E.scan (E.round m))
  ends {t : Text} (length : Nat) (m : E.State t) : (E.scan m).Measured →
    (E.scan m).stop ≤ (E.scan m).pos + (length + 1) → E.Ends m (E.run (E.rounds length) m)

namespace Sound

variable (hE : E.Sound)
include hE

theorem reach_ends {m e : E.State t} (h : E.Ends m e) : (E.scan m).Reach (E.scan e) :=
  h.invariant (P := fun r => (E.scan m).Reach (E.scan r)) (fun r hr _ => hr.trans (hE.reach r))
    .refl

/-- Every run comes to an end. -/
theorem exists_ends {m : E.State t} (hm : (E.scan m).Measured) : ∃ e, E.Ends m e :=
  ⟨_, hE.ends (E.scan m).stop m hm (by omega)⟩

section

variable {start length : Nat} {token : Token} {raw : Int}

theorem pos_start : (E.scan (E.start t start length token raw)).pos = start := by
  obtain ⟨_, h⟩ := hE.scan_start t start length token raw
  rw [h]
  rfl

theorem stop_start : (E.scan (E.start t start length token raw)).stop
    = if start + length = t.size then start + length + 1 else start + length := by
  obtain ⟨_, h⟩ := hE.scan_start t start length token raw
  rw [h]
  rfl

variable (t start length token raw) in
theorem ends_start :
    E.Ends (E.start t start length token raw) (E.last t start length token raw) := by
  apply hE.ends
  · obtain ⟨_, h⟩ := hE.scan_start t start length token raw
    rw [h]
    exact Cursor.measured_start t start length
  · rw [hE.pos_start, hE.stop_start]
    split <;> omega

variable (t token raw) in
/-- The spans painted reach from the start of the range to where the walk ends. -/
theorem exists_tile (h : start + length ≤ t.size) : ∃ stop,
    t.WalksTo start (start + length) stop
      ∧ Span.Tile start (E.style t start length token raw).spans.toList stop := by
  obtain ⟨opened, hstart⟩ := hE.scan_start t start length token raw
  have hends := hE.ends_start t start length token raw
  have hreach := hE.reach_ends hends
  rw [hstart] at hreach
  have hpainted := (Scanner.painted_start (t := t) (by omega) length opened).reach hreach
  refine ⟨_, ((Scanner.strides_start h opened).reach hreach).walksTo h hreach.stop hends.more, ?_⟩
  rw [← hpainted.mark_finish]
  exact (hpainted.reach (Scanner.Reach.refl.finish)).tile

/-- Nothing is noted for the lines before the range. -/
theorem stateOf?_eq_none {line : Nat} (hline : line < t.lineOf start) :
    (E.style t start length token raw).stateOf? line = none := by
  obtain ⟨opened, hstart⟩ := hE.scan_start t start length token raw
  have hreach := (hE.reach_ends (hE.ends_start t start length token raw)).finish
  rw [hstart] at hreach
  exact hreach.noted (s := Scanner.start t start length opened) hline

end

end Sound

/-! ## 3. Counting rounds -/

/-- A run is a number of rounds, each with more to do before it. -/
theorem run_eq_iterate : ∀ (fuel : Nat) (m : E.State t), ∃ n ≤ fuel,
    E.run fuel m = E.round^[n] m ∧ ∀ i < n, (E.scan (E.round^[i] m)).more = true
  | 0, _ => ⟨0, Nat.le_refl 0, rfl, fun i hi => absurd hi (Nat.not_lt_zero i)⟩
  | fuel + 1, m => by
    rw [run]
    cases hmore : (E.scan m).more with
    | false => exact ⟨0, Nat.zero_le _, rfl, fun i hi => absurd hi (Nat.not_lt_zero i)⟩
    | true =>
      obtain ⟨n, hn, heq, hbefore⟩ := run_eq_iterate fuel (E.round m)
      refine ⟨n + 1, by omega, heq, fun i hi => ?_⟩
      cases i with
      | zero => exact hmore
      | succ i => exact hbefore i (by omega)

namespace Sound

variable (hE : E.Sound)
include hE

theorem reach_iterate (i : Nat) (m : E.State t) : (E.scan m).Reach (E.scan (E.round^[i] m)) := by
  induction i with
  | zero => exact .refl
  | succ i ih =>
    rw [Function.iterate_succ_apply']
    exact ih.trans (hE.reach _)

/-- A range is done after some number of rounds, at most as many as are allowed. -/
theorem last_eq_iterate (start length : Nat) (token : Token) (raw : Int) :
    ∃ n ≤ E.rounds length,
      E.last t start length token raw = E.round^[n] (E.start t start length token raw)
        ∧ (∀ i < n, (E.scan (E.round^[i] (E.start t start length token raw))).more = true)
        ∧ (E.scan (E.round^[n] (E.start t start length token raw))).more = false := by
  obtain ⟨n, hn, heq, hbefore⟩ :=
    run_eq_iterate (E.rounds length) (E.start t start length token raw)
  have hmore := (hE.ends_start t start length token raw).more
  rw [last, heq] at hmore
  exact ⟨n, hn, heq, hbefore, hmore⟩

end Sound

end Engine

/-! ## 4. Loops inside a round -/

/-- A loop that is entered in `a` leaves in `b`. Its body says with what it goes on, on the
left, or with what it leaves, on the right. -/
inductive Exits {α β : Type} (body : α → α ⊕ β) : α → β → Prop
  | leave {a : α} {b : β} : body a = .inr b → Exits body a b
  | again {a a' : α} {b : β} : body a = .inl a' → Exits body a' b → Exits body a b

end Restyle
