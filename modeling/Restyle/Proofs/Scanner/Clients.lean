/-
Restyle.Proofs.Scanner.Clients — what is painted by any client of a scanner.

A client moves on, switches, relabels, finishes and paints up to positions
of its own choice, ahead of the cursor or behind it, in any order (`Op`).
Whatever it does, what is painted tiles the text from the start of the walk
to the mark, and the mark is at least where explicit painting has reached
and at most there or at the cursor (`Inked`). Each operation keeps that
(`Inked.apply`), so it holds behind any number of them; and one that paints
up to the cursor brings the mark to the further of both (`mark_apply`).

So the spans that a buffer logs follow from the operations alone, and the
buffer shows them and nothing else (`spans_of_clients`).
-/
import Restyle.Proofs.Scanner.Coverage

namespace Restyle

namespace Span

/-- A tiling ends where its last span does. -/
theorem Tile.stop_of_getLast? {last : Span} : ∀ {spans : List Span} {start stop : Nat},
    Tile start spans stop → spans.getLast? = some last → last.stop = stop
  | [s], _, _, ⟨_, _, hstop⟩, hlast => by
    obtain rfl : s = last := by simpa using hlast
    exact hstop
  | _ :: s :: rest, _, _, ⟨_, _, hrest⟩, hlast =>
    hrest.stop_of_getLast? (by rwa [List.getLast?_cons_cons] at hlast)

end Span

namespace Scanner

variable {t : Text} {s : Scanner t}

/-! ## 1. Operations -/

/-- What a client can ask of a scanner. -/
inductive Op where
  | forward
  | forwardBy (count : Nat)
  | forwardBytes (count : Nat)
  | switch (token : Token)
  | forwardSwitch (token : Token)
  | relabel (token : Token)
  | paintTo (stop : Nat) (token : Token)
  | finish
  deriving DecidableEq, Repr

/-- The scanner behind an operation. -/
def Op.apply : Op → Scanner t → Scanner t
  | forward, s => s.forward
  | forwardBy count, s => s.forwardBy count
  | forwardBytes count, s => s.forwardBytes count
  | switch token, s => s.switch token
  | forwardSwitch token, s => s.forwardSwitch token
  | relabel token, s => s.relabel token
  | paintTo stop token, s => s.paintTo stop token
  | finish, s => s.finish

/-- The scanner behind operations. -/
def applyAll (ops : List Op) (s : Scanner t) : Scanner t := ops.foldl (fun s op => op.apply s) s

/-- Where an operation asks to paint to by itself. -/
def Op.goal : Op → Nat
  | paintTo stop _ => stop
  | _ => 0

/-- The furthest that operations ask to paint to by themselves. -/
def furthest (ops : List Op) : Nat := ops.foldl (fun goal op => max goal op.goal) 0

/-- Whether an operation ends with painting the open span up to the cursor. -/
def Op.commits : Op → Bool
  | switch _ | forwardSwitch _ | finish => true
  | _ => false

theorem furthest_concat (ops : List Op) (op : Op) :
    furthest (ops ++ [op]) = max (furthest ops) op.goal := by
  simp [furthest]

theorem applyAll_concat (ops : List Op) (op : Op) (s : Scanner t) :
    applyAll (ops ++ [op]) s = op.apply (applyAll ops s) := by
  simp [applyAll]

/-! ## 2. One operation -/

/-- What is painted tiles the text from `start` to the mark. The mark is at or behind `goal`, as
far as the text goes, and no further than there and the cursor. -/
structure Inked (start goal : Nat) (s : Scanner t) : Prop where
  start_le : start ≤ s.pos
  tile : Span.Tile start s.spans.toList s.mark
  le_mark : min goal t.size ≤ s.mark
  mark_le : s.mark ≤ max start (min (max s.pos goal) t.size)

theorem inked_start (start length : Nat) (token : Token) :
    Inked start 0 (Scanner.start t start length token) :=
  ⟨Nat.le_refl start, rfl, by omega, Nat.le_max_left ..⟩

namespace Inked

variable {start goal : Nat}

theorem forward (h : Inked start goal s) : Inked start goal s.forward := by
  have hpos : s.pos ≤ s.forward.pos := s.toCursor.pos_le_forward
  have hmark := h.mark_le
  refine ⟨Nat.le_trans h.start_le hpos, h.tile, h.le_mark, ?_⟩
  rw [mark_forward]
  omega

theorem forwardBy (count : Nat) (h : Inked start goal s) : Inked start goal (s.forwardBy count) := by
  induction count generalizing s with
  | zero => exact h
  | succ count ih => exact ih h.forward

theorem forwardTo (target fuel : Nat) (h : Inked start goal s) :
    Inked start goal (s.forwardTo target fuel) := by
  induction fuel generalizing s with
  | zero => exact h
  | succ fuel ih =>
    rw [Scanner.forwardTo]
    split
    · exact ih h.forward
    · exact h

theorem relabel (token : Token) (h : Inked start goal s) : Inked start goal (s.relabel token) :=
  ⟨h.start_le, h.tile, h.le_mark, h.mark_le⟩

/-- Painting to a position of the client's choice. -/
theorem paintTo (stop : Nat) (token : Token) (h : Inked start goal s) :
    Inked start (max goal stop) (s.paintTo stop token) := by
  have hmark := h.mark_le
  have hle := h.le_mark
  refine ⟨by simpa using h.start_le, tile_paintTo h.tile stop token, ?_, ?_⟩
  · rw [mark_paintTo]
    omega
  · rw [mark_paintTo, toCursor_paintTo]
    omega

/-- Painting to the cursor. -/
theorem finish (h : Inked start goal s) : Inked start goal s.finish := by
  obtain ⟨hpos, htile, hle, hmark⟩ := h.paintTo s.pos s.token
  unfold Scanner.finish
  rw [toCursor_paintTo] at hmark
  refine ⟨hpos, htile, by omega, ?_⟩
  rw [toCursor_paintTo]
  omega

theorem switch (token : Token) (h : Inked start goal s) : Inked start goal (s.switch token) :=
  h.finish.relabel token

theorem apply (op : Op) (h : Inked start goal s) :
    Inked start (max goal op.goal) (op.apply s) := by
  cases op with
  | paintTo stop token => exact h.paintTo stop token
  | forward => simpa only [Op.goal, Op.apply, Nat.max_zero] using h.forward
  | forwardBy count => simpa only [Op.goal, Op.apply, Nat.max_zero] using h.forwardBy count
  | forwardBytes count =>
    simpa only [Op.goal, Op.apply, Scanner.forwardBytes, Nat.max_zero] using h.forwardTo _ _
  | switch token => simpa only [Op.goal, Op.apply, Nat.max_zero] using h.switch token
  | forwardSwitch token =>
    simpa only [Op.goal, Op.apply, Scanner.forwardSwitch, Nat.max_zero] using h.forward.switch token
  | relabel token => simpa only [Op.goal, Op.apply, Nat.max_zero] using h.relabel token
  | finish => simpa only [Op.goal, Op.apply, Nat.max_zero] using h.finish

/-- Painting up to the cursor leaves nothing open that was walked over or painted. -/
theorem mark_finish (h : Inked start goal s) :
    s.finish.mark = max start (min (max s.pos goal) t.size) := by
  have hmark := h.mark_le
  have hle := h.le_mark
  have hstart := h.tile.le
  rw [Scanner.finish, mark_paintTo]
  omega

theorem mark_apply {op : Op} (hop : op.commits = true) (h : Inked start goal s) :
    (op.apply s).mark = max start (min (max (op.apply s).pos goal) t.size) := by
  cases op with
  | switch token =>
    rw [Op.apply, toCursor_switch]
    exact h.mark_finish
  | forwardSwitch token =>
    rw [Op.apply, Scanner.forwardSwitch, toCursor_switch]
    exact h.forward.mark_finish
  | finish =>
    rw [Op.apply, Scanner.finish, toCursor_paintTo]
    exact h.mark_finish
  | _ => cases hop

end Inked

/-! ## 3. Any number of operations -/

/-- Whatever a client did, what is painted tiles the text up to the mark. -/
theorem inked_applyAll (t : Text) (start length : Nat) (token : Token) (ops : List Op) :
    Inked start (furthest ops) (applyAll ops (Scanner.start t start length token)) := by
  induction ops using List.reverseRecOn with
  | nil => exact inked_start start length token
  | append_singleton ops op ih =>
    rw [furthest_concat, applyAll_concat]
    exact ih.apply op

/-- If the last operation paints up to the cursor, the mark is where the cursor stands or where
explicit painting has reached, whichever is further. -/
theorem mark_applyAll (t : Text) (start length : Nat) (token : Token) {ops : List Op} {op : Op}
    (hlast : ops.getLast? = some op) (hop : op.commits = true) :
    let s := applyAll ops (Scanner.start t start length token)
    s.mark = max start (min (max s.pos (furthest ops)) t.size) := by
  obtain ⟨before, rfl⟩ := List.getLast?_eq_some_iff.1 hlast
  have hbefore := inked_applyAll t start length token before
  have hgoal : op.goal = 0 := by
    cases op with
    | paintTo stop token => cases hop
    | _ => rfl
  simp only [applyAll_concat, furthest_concat, hgoal, Nat.max_zero]
  exact hbefore.mark_apply hop

/-- Whatever a client asks of a scanner, in any order, the spans that a buffer logs then are not
empty, follow one another from the start of the walk, and stay inside the text. The bytes of a span
have its token, and all other bytes keep theirs. Behind an operation that paints up to the cursor,
the last span ends where the cursor stands or where the furthest painting asked for ends, as far as
the text goes, whichever is further; if that is not behind the start of the walk, there is none. -/
theorem spans_of_clients {b : Buffer} (hb : b.WellFormed) (start length : Nat) (token : Token)
    (ops : List Op) :
    let s := applyAll ops (Scanner.start b.text start length token)
    let spans := s.spans.toList
    let painted := b.restyle s.styling
    let reached := max (min s.pos b.size) (min (furthest ops) b.size)
    painted.log.toList = b.log.toList ++ spans
      ∧ (∃ stop, Span.Tile start spans stop)
      ∧ (∀ span ∈ spans, span.stop ≤ b.size)
      ∧ (∀ span ∈ spans, ∀ pos, span.contains pos = true → painted.tokenAt pos = span.token)
      ∧ (∀ pos, (∀ span ∈ spans, span.contains pos = false) →
        painted.tokenAt pos = b.tokenAt pos)
      ∧ (start ≤ b.size → start ≤ reached)
      ∧ ∀ op, ops.getLast? = some op → op.commits = true →
        (spans = [] ↔ reached ≤ start) ∧ ∀ last, spans.getLast? = some last → last.stop = reached := by
  intro s spans painted reached
  obtain ⟨hpos, htile, -, hmark⟩ : Inked start (furthest ops) s :=
    inked_applyAll b.text start length token ops
  have hin : ∀ span ∈ spans, span.start < span.stop ∧ span.stop ≤ b.size := by
    intro span hspan
    obtain ⟨hle, hlt, hstop⟩ := htile.bounds hspan
    have hinside := Nat.le_trans hstop hmark
    have hsize : b.text.size = b.size := rfl
    exact ⟨hlt, by omega⟩
  refine ⟨?_, ⟨s.mark, htile⟩, fun span hspan => (hin span hspan).2, fun span hspan pos hcover => ?_,
    fun pos hnone => ?_, fun hle => by omega, fun op hlast hop => ?_⟩
  · apply Buffer.log_restyle
    rw [hb.styles_size]
    exact hin
  · have hlt := (hin span hspan).2
    have hcover' := hcover
    simp only [Span.contains, Bool.and_eq_true, decide_eq_true_eq] at hcover'
    rw [Buffer.tokenAt_restyle b _ (by rw [hb.styles_size]; exact Nat.lt_of_lt_of_le hcover'.2 hlt),
      Styling.tokenAt?_of_mem htile (Array.mem_toList_iff.1 hspan) hcover, Option.getD_some]
  · apply Buffer.tokenAt_restyle_of_none
    rw [← Option.not_isSome_iff_eq_none, Styling.isSome_tokenAt?_iff htile,
      ← htile.any_contains_iff pos, List.any_eq_true]
    rintro ⟨span, hspan, hcover⟩
    rw [hnone span hspan] at hcover
    cases hcover
  · have hend : s.mark = max start (min (max s.pos (furthest ops)) b.size) :=
      mark_applyAll b.text start length token hlast hop
    refine ⟨htile.eq_nil_iff.trans (by omega), fun last hlast => ?_⟩
    have hstop : last.stop = s.mark := htile.stop_of_getLast? hlast
    obtain ⟨hle, hlt, -⟩ := htile.bounds (List.mem_of_getLast? hlast)
    omega

/-- A client of `aéb` that paints ahead of its cursor, relabels what is open and switches, and then
moves on over the end of the text. -/
theorem spans_of_clients_ahead :
    let b := Buffer.ofText (.ofBytes #[0x61, 0xC3, 0xA9, 0x62] .utf8)
    let ops := [Op.forward, .paintTo 3 .keyword, .relabel .string, .switch .operator,
      .forwardBytes 9, .finish]
    let s := applyAll ops (Scanner.start b.text 0 4 .plain)
    let spans := s.spans.toList
    let painted := b.restyle s.styling
    let reached := max (min s.pos b.size) (min (furthest ops) b.size)
    (b.WellFormed ∧ spans = [⟨0, 3, .keyword⟩, ⟨3, 4, .operator⟩])
      ∧ painted.log.toList = b.log.toList ++ spans
      ∧ (∃ stop, Span.Tile 0 spans stop)
      ∧ (∀ span ∈ spans, span.stop ≤ b.size)
      ∧ (∀ span ∈ spans, ∀ pos, span.contains pos = true → painted.tokenAt pos = span.token)
      ∧ (∀ pos, (∀ span ∈ spans, span.contains pos = false) →
        painted.tokenAt pos = b.tokenAt pos)
      ∧ (0 ≤ b.size → 0 ≤ reached)
      ∧ ∀ op, ops.getLast? = some op → op.commits = true →
        (spans = [] ↔ reached ≤ 0) ∧ ∀ last, spans.getLast? = some last → last.stop = reached :=
  ⟨⟨Buffer.wellFormed_ofText _, by decide +kernel⟩,
    spans_of_clients (Buffer.wellFormed_ofText _) 0 4 .plain _⟩

end Scanner

end Restyle
