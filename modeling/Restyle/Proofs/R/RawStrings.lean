/-
Restyle.Proofs.R.RawStrings — raw strings end where their closing first
stands.

A closing is a bracket, some dashes and a quote (`Closes`). An attempt to
close a raw string takes the bracket and as many of the dashes as there
are, and never goes back. None of what it takes can start a closing but
the bracket itself, so no closing is passed over (`tryClose_cases`,
`closeRaw_cases`).

While a raw string is open, nothing from its opening bracket on has
closed it (`RawOpen`). A round keeps that, or closes the raw string at the
first closing, or never ends; the last only if a space is the bracket and
an attempt runs over the end of the range, behind which nothing but spaces
is seen (`RawOpen.step_cases`). So the run paints a raw string that was
opened in the text as one span (`RawOpen.exists_end`).
-/
import Restyle.Proofs.R.LineEnds

namespace Restyle

namespace R

/-! ## 1. Closings in a text -/

/-- What closes a raw string stands at `x`: its bracket, its dashes and its quote. -/
structure Closes (see : Nat → Nat) (quote : Char) (d : Delimiter) (x : Nat) : Prop where
  bracket : see x = d.close
  dashes : ∀ i < d.dashes, see (x + 1 + i) = '-'.toNat
  quote : see (x + 1 + d.dashes) = quote.toNat

/-- The closing bracket at `x` and the dashes behind it take an attempt to close a raw string
over the end of the walk at `stop`, or to one more bracket there. -/
structure RunsOver (t : Text) (d : Delimiter) (stop x : Nat) : Prop where
  bracket : t.byteAt x = d.close
  lt : x < stop
  le : stop ≤ x + 1 + d.dashes
  dashes : ∀ y, x < y → y < stop → t.byteAt y = '-'.toNat
  last : t.byteAt stop = d.close ∨ t.byteAt stop = '-'.toNat ∧ stop < x + 1 + d.dashes

/-- The quote is one around raw strings, and the bracket one that closes them or a space, as
only a number that no line has saved says. -/
structure Apt (quote : Char) (d : Delimiter) : Prop where
  quote : quote.toNat = 34 ∨ quote.toNat = 39
  close : d.close = 41 ∨ d.close = 93 ∨ d.close = 125 ∨ d.close = 32

theorem apt_quoteOf (token : Token) {d : Delimiter}
    (hclose : d.close = 41 ∨ d.close = 93 ∨ d.close = 125 ∨ d.close = 32) :
    Apt (quoteOf token) d := by
  refine ⟨?_, hclose⟩
  rw [quoteOf]
  split
  · exact Or.inl rfl
  · exact Or.inr rfl

/-- What a walk over ASCII characters sees at `x` if it ends at `stop`: behind its end, spaces. -/
def seenAt (t : Text) (stop x : Nat) : Nat := if x ≤ stop then t.byteAt x else 0x20

namespace Machine

open Scanner

variable {t : Text} {s r : Scanner t} {stop v : Nat}

/-! ## 2. Where a scanner stands -/

/-- The scanner stands at `v`, or has gone over the end of its walk so often that it would stand
there. -/
structure Stands (stop : Nat) (s : Scanner t) (v : Nat) : Prop where
  stop_eq : s.stop = stop
  place : (v ≤ stop ∧ s.pos = v ∧ s.InSync) ∨ (stop < v ∧ s.pos = stop ∧ s.ch = 0x20)

namespace Stands

variable (h : Stands stop s v)
include h

theorem ch_eq_iff {c : Nat} (hc : c < 128) : s.ch = c ↔ seenAt t stop v = c := by
  rcases h.place with ⟨hle, rfl, hsync⟩ | ⟨hlt, -, hch⟩
  · rw [seenAt, if_pos hle, hsync.ch, t.code_eq_iff hc]
  · rw [seenAt, if_neg (by omega), hch]

theorem sees_iff {c : Char} (hc : c.toNat < 128) :
    s.sees c = true ↔ seenAt t stop v = c.toNat := by
  rw [Cursor.sees, beq_iff_eq, h.ch_eq_iff hc]

/-- An ASCII character is passed with one byte, and so is the end of the walk. -/
theorem forward (hc : s.ch < 128) : Stands stop s.forward (v + 1) := by
  refine ⟨by rw [toCursor_forward, Cursor.forward_stop, h.stop_eq], ?_⟩
  have hstop := h.stop_eq
  rcases h.place with ⟨hle, rfl, hsync⟩ | ⟨hlt, hpos, -⟩
  · cases hmore : s.more with
    | true =>
      have hlt := Cursor.more_iff.1 hmore
      have hone : s.forward.pos = s.pos + 1 := by
        rw [toCursor_forward, Cursor.forward_pos hmore, (hsync.byteAt_of_ch_lt hc).2]
      exact Or.inl ⟨by omega, hone, hsync.forward hmore⟩
    | false =>
      rw [Cursor.more, decide_eq_false_iff_not] at hmore
      rw [toCursor_forward, Cursor.forward_of_not_more (by simpa [Cursor.more] using hmore)]
      exact Or.inr ⟨by omega, by dsimp only; omega, rfl⟩
  · have hmore : s.more = false := by
      rw [Cursor.more, decide_eq_false_iff_not]
      omega
    rw [toCursor_forward, Cursor.forward_of_not_more hmore]
    exact Or.inr ⟨by omega, hpos, rfl⟩

/-- Within its walk the scanner is where it stands. -/
theorem inSync (hle : v ≤ stop) : s.pos = v ∧ s.InSync := by
  rcases h.place with ⟨-, hplace⟩ | ⟨hlt, -⟩
  · exact hplace
  · omega

end Stands

/-! ## 3. Attempts to close a raw string -/

theorem stands_passDashes (count : Nat) : ∀ {s : Scanner t} {v : Nat}, Stands stop s v →
    ∃ k ≤ count, (passDashes count s).1 = count - k ∧ Stands stop (passDashes count s).2 (v + k)
      ∧ (∀ i < k, seenAt t stop (v + i) = '-'.toNat)
      ∧ (k < count → seenAt t stop (v + k) ≠ '-'.toNat) := by
  induction count with
  | zero => exact fun h => ⟨0, Nat.le_refl _, rfl, h, by omega, by omega⟩
  | succ count ih =>
    intro s v h
    rw [passDashes]
    split
    · rename_i hsees
      have hch : s.ch = '-'.toNat := beq_iff_eq.1 hsees
      obtain ⟨k, hk, hmissing, hstands, hdashes, hlast⟩ :=
        ih (h.forward (by rw [hch]; decide))
      rw [Nat.add_right_comm] at hstands hlast
      refine ⟨k + 1, by omega, by omega, hstands, ?_, fun hlt => hlast (by omega)⟩
      intro i hi
      cases i with
      | zero => exact (h.sees_iff (by decide)).1 hsees
      | succ i =>
        have hdash := hdashes i (by omega)
        rwa [Nat.add_right_comm] at hdash
    · rename_i hno
      exact ⟨0, Nat.zero_le _, rfl, h, by omega, fun _ hdash => hno ((h.sees_iff (by decide)).2 hdash)⟩

section

variable {d : Delimiter} {quote : Char} (hapt : Apt quote d)
include hapt

theorem tryClose_cases (h : Stands stop s v) (hch : s.ch = d.close) :
    (∃ r, d.tryClose quote s = (true, r.forwardSwitch .plain) ∧ Moved s r
      ∧ Stands stop r (v + 1 + d.dashes) ∧ Closes (seenAt t stop) quote d v)
    ∨ ∃ r v', d.tryClose quote s = (false, r) ∧ Moved s r ∧ Stands stop r v'
      ∧ ¬Closes (seenAt t stop) quote d v ∧ v < v' ∧ v' ≤ v + 1 + d.dashes
      ∧ (∀ y, v < y → y < v' → seenAt t stop y = '-'.toNat)
      ∧ (v' < v + 1 + d.dashes → seenAt t stop v' ≠ '-'.toNat) := by
  have hquote := hapt.quote
  have hclose := hapt.close
  have hbracket := (h.ch_eq_iff (by omega)).1 hch
  obtain ⟨k, hk, hmissing, hstands, hdashes, hlast⟩ :=
    stands_passDashes d.dashes (h.forward (by omega))
  have hmoved := (Moved.refl s).forward.trans (moved_passDashes d.dashes s.forward)
  have hsees := hstands.sees_iff (c := quote) (by omega)
  rw [Delimiter.tryClose]
  generalize passDashes d.dashes s.forward = x at hmissing hstands hmoved hsees
  obtain ⟨missing, r⟩ := x
  dsimp only at hmissing hstands hmoved hsees ⊢
  split
  · rename_i hclosed
    obtain rfl : k = d.dashes := by omega
    exact Or.inl ⟨r, rfl, hmoved, hstands, hbracket, hdashes, hsees.1 hclosed.2⟩
  · rename_i hopen
    refine Or.inr ⟨r, v + 1 + k, rfl, hmoved, hstands, ?_, by omega, by omega, ?_,
      fun hlt => hlast (by omega)⟩
    · intro hcloses
      by_cases hshort : k < d.dashes
      · exact hlast hshort (hcloses.dashes k hshort)
      · obtain rfl : k = d.dashes := by omega
        exact hopen ⟨by omega, hsees.2 hcloses.quote⟩
    · intro y hy hlt
      obtain ⟨i, rfl⟩ := Nat.exists_eq_add_of_le (show v + 1 ≤ y by omega)
      exact hdashes i (by omega)

theorem tryClose_behind (h : Stands stop s v) (hle : stop ≤ v) (hch : s.ch = 0x20)
    (hclose : d.close = 0x20) :
    ∃ r v', d.tryClose quote s = (false, r) ∧ Stands stop r v' ∧ stop ≤ v' ∧ r.ch = 0x20 := by
  have hquote := hapt.quote
  have hbehind {v : Nat} (hlt : stop < v) : seenAt t stop v = 0x20 := if_neg (by omega)
  rcases tryClose_cases hapt h (by omega) with ⟨r, -, -, -, hcloses⟩ | ⟨r, v', heq, -, h', -, hlt, -⟩
  · have hlast := hcloses.quote
    rw [hbehind (by omega)] at hlast
    omega
  · exact ⟨r, v', heq, h', by omega, (h'.ch_eq_iff (by decide)).2 (hbehind (by omega))⟩

/-- Behind the end of the walk no attempt closes a raw string, and each leads to the next one if
a space is the bracket. -/
theorem closeRaw_eq_none (h : Stands stop s v) (hle : stop ≤ v) (hch : s.ch = 0x20)
    (hclose : d.close = 0x20) : d.closeRaw quote s = none := by
  cases hx : d.closeRaw quote s with
  | none => rfl
  | some x =>
    refine absurd ⟨v, h, hle, hch⟩ (closeRaw_induction
      (P := fun s _ => ¬∃ v, Stands stop s v ∧ stop ≤ v ∧ s.ch = 0x20) ?_ ?_ ?_ hx)
    all_goals rintro s r
    · rintro htry ⟨v, h, hle, hch⟩
      obtain ⟨r', v', heq, -⟩ := tryClose_behind hapt h hle hch hclose
      rw [htry] at heq
      cases heq
    · rintro htry hno ⟨v, h, hle, hch⟩
      obtain ⟨r', v', heq, -, -, hch'⟩ := tryClose_behind hapt h hle hch hclose
      rw [htry] at heq
      cases heq
      exact hno (hch'.trans hclose.symm)
    · rintro x htry - hrest ⟨v, h, hle, hch⟩
      obtain ⟨r', v', heq, hbehind⟩ := tryClose_behind hapt h hle hch hclose
      rw [htry] at heq
      cases heq
      exact hrest ⟨v', hbehind⟩

omit hapt in
/-- No closing stands between `o` and `x`, and if a space is the bracket no attempt from there
runs over the end. -/
def Clear (t : Text) (stop : Nat) (quote : Char) (d : Delimiter) (o x : Nat) : Prop :=
  ∀ y, o ≤ y → y < x → ¬Closes (seenAt t stop) quote d y ∧ (d.close = 0x20 → ¬RunsOver t d stop y)

omit hapt in
theorem Clear.trans {o x y : Nat} (h : Clear t stop quote d o x) (h' : Clear t stop quote d x y) :
    Clear t stop quote d o y := by
  intro z hle hlt
  by_cases hz : z < x
  · exact h z hle hz
  · exact h' z (by omega) hlt

theorem clear_of_ne {o x : Nat} (h : ∀ y, o ≤ y → y < x → y ≤ stop → t.byteAt y ≠ d.close) :
    Clear t stop quote d o x := by
  have hquote := hapt.quote
  intro y hle hlt
  refine ⟨fun hcloses => ?_, fun _ hover => h y hle hlt (Nat.le_of_lt hover.lt) hover.bracket⟩
  by_cases hy : y ≤ stop
  · have hbracket := hcloses.bracket
    rw [seenAt, if_pos hy] at hbracket
    exact h y hle hlt hy hbracket
  · -- a quote is not seen behind the end of the walk
    have hlast := hcloses.quote
    rw [seenAt, if_neg (by omega)] at hlast
    omega

/-- An attempt that fails runs over the end if it comes to a place behind it, or to a bracket
there. -/
theorem runsOver_iff {v' : Nat} (hbracket : seenAt t stop v = d.close) (hlt : v < stop)
    (hv : v < v') (hle : v' ≤ v + 1 + d.dashes)
    (hdashes : ∀ y, v < y → y < v' → seenAt t stop y = '-'.toNat)
    (hlast : v' < v + 1 + d.dashes → seenAt t stop v' ≠ '-'.toNat) :
    RunsOver t d stop v ↔ stop < v' ∨ v' = stop ∧ t.byteAt stop = d.close := by
  have hclose := hapt.close
  have hdash : '-'.toNat = 45 := rfl
  have hseen {y : Nat} (hy : y ≤ stop) : seenAt t stop y = t.byteAt y := if_pos hy
  rw [hseen (by omega)] at hbracket
  constructor
  · intro h
    have hle' := h.le
    have hge : stop ≤ v' := by
      by_contra hshort
      have hno := hlast (by omega)
      rw [hseen (by omega)] at hno
      exact hno (h.dashes v' hv (by omega))
    rcases Nat.lt_or_eq_of_le hge with hover | rfl
    · exact Or.inl hover
    · rcases h.last with hlast' | ⟨hlast', hroom⟩
      · exact Or.inr ⟨rfl, hlast'⟩
      · have hno := hlast hroom
        rw [hseen (Nat.le_refl _)] at hno
        exact absurd hlast' hno
  · intro h
    refine ⟨hbracket, hlt, by omega, ?_, ?_⟩
    · intro y hy hys
      have hdash := hdashes y hy (by omega)
      rwa [hseen (by omega)] at hdash
    · rcases h with hover | ⟨-, hlast'⟩
      · have hdash := hdashes stop hlt hover
        rw [hseen (Nat.le_refl _)] at hdash
        exact Or.inr ⟨hdash, by omega⟩
      · exact Or.inl hlast'

/-- One attempt, at a bracket: it finds the closing; or it comes to a place up to which there is
none; or, with a space for the bracket, it runs over the end. -/
theorem attempt_cases (h : Stands stop s v) (hch : s.ch = d.close)
    (hv : d.close = 0x20 → v < stop) :
    (∃ r, d.tryClose quote s = (true, r.forwardSwitch .plain) ∧ Moved s r
      ∧ Stands stop r (v + 1 + d.dashes) ∧ Closes (seenAt t stop) quote d v)
    ∨ ∃ r v', d.tryClose quote s = (false, r) ∧ Moved s r ∧ Stands stop r v' ∧ v < v' ∧ v ≤ stop
      ∧ ((Clear t stop quote d v v' ∧ (r.ch = d.close → d.close = 0x20 → v' < stop))
        ∨ (d.close = 0x20 ∧ r.ch = 0x20 ∧ stop ≤ v' ∧ RunsOver t d stop v)) := by
  have hclose := hapt.close
  have hdash : '-'.toNat = 45 := rfl
  have hbehind {v : Nat} (hlt : stop < v) : seenAt t stop v = 0x20 := if_neg (by omega)
  have hbracket := (h.ch_eq_iff (by omega)).1 hch
  have hle : v ≤ stop := by
    by_contra hlt
    rw [hbehind (by omega)] at hbracket
    have := hv hbracket.symm
    omega
  rcases tryClose_cases hapt h hch with hclosed
    | ⟨r, v', htry, hmoved, hstands, hno, hlt, hle', hdashes, hlast⟩
  · exact Or.inl hclosed
  refine Or.inr ⟨r, v', htry, hmoved, hstands, hlt, hle, ?_⟩
  have hch' := hstands.ch_eq_iff (c := d.close) (by omega)
  by_cases hruns : d.close = 0x20 ∧ RunsOver t d stop v
  · obtain ⟨hspace, hr⟩ := hruns
    refine Or.inr ⟨hspace, ?_, ?_, hr⟩
    all_goals
      rcases (runsOver_iff hapt hbracket hr.lt hlt hle' hdashes hlast).1 hr with hover | ⟨rfl, hlast'⟩
    · exact (hstands.ch_eq_iff (by decide)).2 (hbehind hover)
    · rw [← hspace, hch', seenAt, if_pos (Nat.le_refl _)]
      exact hlast'
    · omega
    · exact Nat.le_refl _
  · refine Or.inl ⟨?_, ?_⟩
    · have hfirst : Clear t stop quote d v (v + 1) := by
        intro y hy hlt
        obtain rfl : y = v := by omega
        exact ⟨hno, fun hspace hr => hruns ⟨hspace, hr⟩⟩
      refine hfirst.trans (clear_of_ne hapt fun y hy hlt hys => ?_)
      have hseen := hdashes y (by omega) hlt
      rw [seenAt, if_pos hys] at hseen
      omega
    · intro hagain hspace
      by_contra hge
      refine hruns ⟨hspace, (runsOver_iff hapt hbracket (hv hspace) hlt hle' hdashes hlast).2 ?_⟩
      rcases Nat.lt_or_eq_of_le (Nat.le_of_not_lt hge) with hover | rfl
      · exact Or.inl hover
      · have hseen := hch'.1 hagain
        rw [seenAt, if_pos (Nat.le_refl _)] at hseen
        exact Or.inr ⟨rfl, hseen⟩

/-- From a bracket on, the first closing closes the raw string; or it stays open where there is
no more bracket to try; or, with a space for the bracket, it is tried for ever. -/
theorem closeRaw_cases (h : Stands stop s v) (hch : s.ch = d.close)
    (hv : d.close = 0x20 → v < stop) :
    (∃ x r, v ≤ x ∧ d.closeRaw quote s = some (true, r.forwardSwitch .plain) ∧ Moved s r
      ∧ Stands stop r (x + 1 + d.dashes) ∧ Closes (seenAt t stop) quote d x
      ∧ Clear t stop quote d v x)
    ∨ (∃ x r, v < x ∧ d.closeRaw quote s = some (false, r) ∧ Moved s r ∧ Stands stop r x
      ∧ r.ch ≠ d.close ∧ Clear t stop quote d v x)
    ∨ (d.closeRaw quote s = none ∧ d.close = 0x20
      ∧ ∃ x, v ≤ x ∧ RunsOver t d stop x ∧ Clear t stop quote d v x) := by
  -- each attempt that fails leads to a bracket behind its own
  induction hn : stop + 1 - v using Nat.strongRecOn generalizing s v with
  | _ n ih =>
    have hnone : Clear t stop quote d v v := fun y hy hlt => absurd hlt (by omega)
    rcases attempt_cases hapt h hch hv with ⟨r, htry, hmoved, hstands, hcloses⟩
      | ⟨r, v', htry, hmoved, hstands, hlt, hle, ⟨hclear, hv'⟩ | ⟨hspace, hch', hge, hover⟩⟩
    · exact Or.inl ⟨v, r, Nat.le_refl v, closeRaw_of_closed htry, hmoved, hstands, hcloses, hnone⟩
    · by_cases hagain : r.ch = d.close
      · rw [closeRaw_of_again htry hagain]
        rcases ih (stop + 1 - v') (by omega) hstands hagain (hv' hagain) rfl with
          ⟨x, q, hx, heq, hq, hst, hcloses, hrest⟩ | ⟨x, q, hx, heq, hq, hst, hne, hrest⟩
            | ⟨heq, hspace, x, hx, hover, hrest⟩
        · exact Or.inl ⟨x, q, by omega, heq, hmoved.trans hq, hst, hcloses, hclear.trans hrest⟩
        · exact Or.inr (Or.inl ⟨x, q, by omega, heq, hmoved.trans hq, hst, hne,
            hclear.trans hrest⟩)
        · exact Or.inr (Or.inr ⟨heq, hspace, x, by omega, hover, hclear.trans hrest⟩)
      · exact Or.inr (Or.inl ⟨v', r, hlt, closeRaw_of_failed htry hagain, hmoved, hstands, hagain,
          hclear⟩)
    · rw [closeRaw_of_again htry (hch'.trans hspace.symm)]
      exact Or.inr (Or.inr ⟨closeRaw_eq_none hapt hstands hge hch' hspace, hspace, v,
        Nat.le_refl v, hover, hnone⟩)

/-- A character that is no bracket has no closing in it. -/
theorem Stands.clear_forward (h : Stands stop s v) (hch : s.ch ≠ d.close) :
    (s.forward.more = true → s.forward.InSync) ∧ Clear t stop quote d v s.forward.pos := by
  have hclose := hapt.close
  have hnone {x : Nat} (hx : x ≤ v) : Clear t stop quote d v x :=
    fun y hy hlt => absurd hlt (by omega)
  have hstop := h.stop_eq
  cases hmore : s.more with
  | false =>
    have heq : s.forward.pos = s.pos := by
      rw [toCursor_forward, Cursor.forward_of_not_more hmore]
    refine ⟨fun hmore' => ?_, hnone ?_⟩
    · rw [Cursor.more, decide_eq_false_iff_not] at hmore
      have hlt := Cursor.more_iff.1 hmore'
      rw [heq, toCursor_forward, Cursor.forward_stop] at hlt
      exact absurd hlt hmore
    · rcases h.place with ⟨-, hpos, -⟩ | ⟨hlt, hpos, -⟩ <;> omega
  | true =>
    have hlt := Cursor.more_iff.1 hmore
    obtain ⟨rfl, hsync⟩ := h.inSync (by rcases h.place with ⟨hle, -⟩ | ⟨-, hpos, -⟩ <;> omega)
    refine ⟨fun _ => hsync.forward hmore, clear_of_ne hapt fun y hy hlt' _ hbyte => ?_⟩
    rw [toCursor_forward, hsync.pos_forward hmore] at hlt'
    by_cases hfirst : y = s.pos
    · subst hfirst
      exact hch (by rw [hsync.ch, t.code_eq_iff (by omega)]; exact hbyte)
    · have hinside := t.le_byteAt_of_inside (p := s.pos) (q := y) (by omega) hlt'
      omega

end

/-! ## 4. Rounds in a raw string -/

/-- One attempt to close a raw string: it leads to the next one, or it is the last. -/
def closeStep (d : Delimiter) (quote : Char) (s : Scanner t) : Scanner t ⊕ (Bool × Scanner t) :=
  match d.tryClose quote s with
  | (true, s) => .inr (true, s)
  | (false, s) => if s.ch = d.close then .inl s else .inr (false, s)

/-- Attempts to close a raw string have a result if they end. -/
theorem exits_closeStep_iff {d : Delimiter} {quote : Char} {x : Bool × Scanner t} :
    Exits (closeStep d quote) s x ↔ d.closeRaw quote s = some x := by
  constructor
  · intro h
    induction h with
    | @leave s x hleave =>
      rw [closeStep] at hleave
      rcases htry : d.tryClose quote s with ⟨_ | _, r⟩ <;> rw [htry] at hleave <;>
        dsimp only at hleave
      · split at hleave
        · cases hleave
        · rename_i hch
          obtain rfl := Sum.inr.inj hleave
          exact closeRaw_of_failed htry hch
      · obtain rfl := Sum.inr.inj hleave
        exact closeRaw_of_closed htry
    | @again s r x hagain _ ih =>
      rw [closeStep] at hagain
      rcases htry : d.tryClose quote s with ⟨_ | _, r'⟩ <;> rw [htry] at hagain <;>
        dsimp only at hagain
      · split at hagain
        · rename_i hch
          obtain rfl := Sum.inl.inj hagain
          rw [closeRaw_of_again htry hch, ih]
        · cases hagain
      · cases hagain
  · intro h
    refine closeRaw_induction (P := fun s x => Exits (closeStep d quote) s x) ?_ ?_ ?_ h
    · exact fun s r htry => .leave (by rw [closeStep, htry])
    · exact fun s r htry hch => .leave (by rw [closeStep, htry]; exact if_neg hch)
    · exact fun s r x htry hch hx => .again (by rw [closeStep, htry]; exact if_pos hch) hx

/-- The round comes to an end: if it tries to close a raw string, that does. -/
def RoundEnds (m : Machine t) : Prop :=
  ∀ d ∈ m.raw, isRaw m.scan.token = true → m.scan.ch = d.close →
    ∃ x, Exits (closeStep d (quoteOf m.scan.token)) m.scan x

theorem roundEnds_iff {m : Machine t} {d : Delimiter} (hraw : m.raw = some d)
    (htoken : isRaw m.scan.token = true) (hch : m.scan.ch = d.close) :
    m.RoundEnds ↔ (d.closeRaw (quoteOf m.scan.token) m.scan).isSome = true := by
  constructor
  · intro h
    obtain ⟨x, hx⟩ := h d hraw htoken hch
    rw [exits_closeStep_iff.1 hx]
    rfl
  · intro h d' hd' _ _
    rw [hraw] at hd'
    obtain rfl := Option.some.inj hd'
    obtain ⟨x, hx⟩ := Option.isSome_iff_exists.1 h
    exact ⟨x, exits_closeStep_iff.2 hx⟩

/-- A raw string that was opened at `mark` is open, and from `o` up to the cursor nothing has
closed it. -/
structure RawOpen (stop o mark : Nat) (token : Token) (d : Delimiter) (m : Machine t) :
    Prop where
  stop_eq : m.scan.stop = stop
  sync : m.scan.more = true → m.scan.InSync
  token_eq : m.scan.token = token
  raw_eq : m.raw = some d
  mark_eq : m.scan.mark = mark
  le_pos : o ≤ m.scan.pos
  clear : Clear t stop (quoteOf token) d o m.scan.pos

section

variable {m : Machine t} {o mark : Nat} {token : Token} {d : Delimiter}

theorem endToken_of_raw (g : Settings) (h : isRaw m.scan.token = true) :
    m.endToken g = m.rawString (quoteOf m.scan.token) := by
  rw [endToken]
  cases ht : m.scan.token <;> rw [ht] at h <;> first | rfl | cases h

theorem settle_of_raw (h : isRaw m.scan.token = true) : m.settle = m := by
  rw [settle]
  refine if_neg fun hplain => ?_
  rw [hplain] at h
  cases h

/-- A round that leaves the raw string open goes on from where the attempts to close it have
come to. -/
theorem RawOpen.finishRound (hapt : Apt (quoteOf token) d) (htoken : isRaw token = true)
    (h : RawOpen stop o mark token d m) (hmoved : Moved m.scan r) (hstands : Stands stop r v)
    (hch : r.ch ≠ d.close) (hclear : Clear t stop (quoteOf token) d m.scan.pos v)
    (hreach : m.scan.Reach r) :
    RawOpen stop o mark token d (Machine.finishRound ⟨r, some d⟩) := by
  obtain ⟨hsync, hpassed⟩ := hstands.clear_forward hapt hch
  have htoken' : isRaw (⟨r, some d⟩ : Machine t).scan.token = true := by
    rw [show (⟨r, some d⟩ : Machine t).scan.token = token from hmoved.token.trans h.token_eq]
    exact htoken
  rw [Machine.finishRound, settle_of_raw htoken']
  have hcursor : ((⟨r, some d⟩ : Machine t).noteEnd.map (·.forward)).scan.toCursor
      = r.toCursor.forward := by
    show (⟨r, some d⟩ : Machine t).noteEnd.scan.toCursor.forward = _
    rw [toCursor_noteEnd]
  have hle := r.toCursor.pos_le_forward
  have hle' := hreach.pos_le
  refine { stop_eq := ?_, sync := ?_, token_eq := ?_, raw_eq := ?_, mark_eq := ?_, le_pos := ?_
           clear := ?_ }
  · rw [hcursor, Cursor.forward_stop]
    exact hstands.stop_eq
  · rw [hcursor]
    exact hsync
  · show (⟨r, some d⟩ : Machine t).noteEnd.scan.token = _
    rw [token_noteEnd]
    exact hmoved.token.trans h.token_eq
  · show (⟨r, some d⟩ : Machine t).noteEnd.raw = _
    rw [raw_noteEnd]
  · show (⟨r, some d⟩ : Machine t).noteEnd.scan.mark = _
    rw [mark_noteEnd]
    exact hmoved.mark.trans h.mark_eq
  · rw [hcursor]
    exact Nat.le_trans h.le_pos (Nat.le_trans hle' hle)
  · rw [hcursor]
    exact h.clear.trans (hclear.trans hpassed)

/-- A round in a raw string leaves it open, or closes it at the first closing; or, with a space
for its bracket, it comes to no end, at the first bracket from which it runs over the end. -/
theorem RawOpen.step_cases (g : Settings) (hapt : Apt (quoteOf token) d)
    (htoken : isRaw token = true) (h : RawOpen stop o mark token d m)
    (hmore : m.scan.more = true) :
    (m.RoundEnds ∧ RawOpen stop o mark token d (m.step g))
    ∨ (∃ x r, m.RoundEnds ∧ o ≤ x ∧ m.endToken g = ⟨r.forwardSwitch .plain, none⟩
      ∧ Moved m.scan r ∧ Stands stop r (x + 1 + d.dashes)
      ∧ Closes (seenAt t stop) (quoteOf token) d x ∧ Clear t stop (quoteOf token) d o x)
    ∨ (¬m.RoundEnds ∧ d.close = 0x20
      ∧ ∃ x, o ≤ x ∧ RunsOver t d stop x ∧ Clear t stop (quoteOf token) d o x) := by
  have hlt : m.scan.pos < stop := by
    rw [← h.stop_eq]
    exact Cursor.more_iff.1 hmore
  have hstands : Stands stop m.scan m.scan.pos :=
    ⟨h.stop_eq, Or.inl ⟨Nat.le_of_lt hlt, rfl, h.sync hmore⟩⟩
  have hle := h.le_pos
  have hend : m.endToken g = m.rawString (quoteOf token) := by
    rw [endToken_of_raw g (by rw [h.token_eq]; exact htoken), h.token_eq]
  have hends (hch : m.scan.ch = d.close) :
      m.RoundEnds ↔ (d.closeRaw (quoteOf token) m.scan).isSome = true := by
    have hiff := roundEnds_iff h.raw_eq (by rw [h.token_eq]; exact htoken) hch
    rwa [h.token_eq] at hiff
  rw [step_eq, hend]
  by_cases hch : m.scan.ch = d.close
  · rw [hends hch]
    rcases closeRaw_cases hapt hstands hch (fun _ => hlt) with
      ⟨x, r, hx, heq, hmoved, hst, hcloses, hclear⟩ | ⟨x, r, hx, heq, hmoved, hst, hne, hclear⟩
        | ⟨heq, hspace, x, hx, hover, hclear⟩
    · refine Or.inr (Or.inl ⟨x, r, by rw [heq]; rfl, by omega, ?_, hmoved, hst, hcloses,
        h.clear.trans hclear⟩)
      rw [rawString_of_closeRaw h.raw_eq hch heq]
      rfl
    · rw [rawString_of_closeRaw h.raw_eq hch heq]
      exact Or.inl ⟨by rw [heq]; rfl,
        h.finishRound hapt htoken hmoved hst hne hclear (advances_closeRaw heq).reach⟩
    · exact Or.inr (Or.inr ⟨by rw [heq]; simp, hspace, x, by omega, hover, h.clear.trans hclear⟩)
  · have hround : m.RoundEnds := by
      intro d' hd' _ hch'
      rw [h.raw_eq] at hd'
      obtain rfl := Option.some.inj hd'
      exact absurd hch' hch
    have heq : (⟨m.scan, some d⟩ : Machine t) = m := by rw [← h.raw_eq]
    have hopen := h.finishRound hapt htoken (Moved.refl m.scan) hstands hch
      (fun y hy hlt => absurd hlt (by omega)) .refl
    rw [heq] at hopen
    rw [rawString_of_ne h.raw_eq hch]
    exact Or.inl ⟨hround, hopen⟩

end

/-! ## 5. Where a raw string starts -/

end Machine

theorem raw_cases {token : Token} (h : isRaw token = true) :
    token = .rawString ∨ token = .rawSingleQuoted := by
  simpa [isRaw] using h

/-- The letters that open raw strings. -/
theorem letter_cases {c : Nat} (h : Ascii.oneOf ['r', 'R'] c = true) : c = 114 ∨ c = 82 := by
  simp only [Ascii.oneOf, List.any_cons, List.any_nil, Bool.or_false, Bool.or_eq_true,
    beq_iff_eq] at h
  exact h.imp Eq.symm Eq.symm

theorem closingOf?_cases {bracket close : Nat} (h : closingOf? bracket = some close) :
    (bracket = 40 ∧ close = 41) ∨ (bracket = 91 ∧ close = 93) ∨ (bracket = 123 ∧ close = 125) := by
  simp only [closingOf?, Char.reduceToNat] at h
  split at h
  · cases h; omega
  · split at h
    · cases h; omega
    · split at h
      · cases h; omega
      · cases h

namespace Opens

variable {t : Text} {p : Nat} {token : Token} {d : Delimiter}

section

variable {quote : Char} (h : Opens t p quote d)
include h

theorem mark_cases : t.byteAt p = 114 ∨ t.byteAt p = 82 := letter_cases h.mark

/-- The opening bracket stands in the text and is not the closing one. -/
theorem bracket_spec : p + 2 + d.dashes < t.size ∧ t.byteAt (p + 2 + d.dashes) < 128
    ∧ t.byteAt (p + 2 + d.dashes) ≠ d.close ∧ t.byteAt (p + 2 + d.dashes) ≠ '-'.toNat := by
  have hcases := closingOf?_cases h.bracket
  have hdash : '-'.toNat = 45 := rfl
  exact ⟨t.lt_size_of_byteAt (by omega), by omega, by omega, by omega⟩

/-- What opens a raw string is found there. -/
theorem delimiterAt? : R.delimiterAt? t (p + 2) = some d := by
  have hbracket := h.bracket_spec.2.2.2
  have hdashes : dashesFrom t (t.size - (p + 2)) (p + 2) = d.dashes := by
    have hcounted := byteAt_of_lt_dashesFrom t (t.size - (p + 2)) (p + 2)
    have hnext := byteAt_dashesFrom_ne t (t.size - (p + 2)) (p + 2) (by omega)
    rcases Nat.lt_trichotomy (dashesFrom t (t.size - (p + 2)) (p + 2)) d.dashes with hlt | heq | hgt
    · exact absurd (h.dashes _ hlt) hnext
    · exact heq
    · exact absurd (hcounted _ hgt) hbracket
  rw [R.delimiterAt?, hdashes, h.bracket]
  rfl

end

/-- All that stands before the opening bracket is ASCII. -/
theorem byteAt_lt (h : Opens t p (quoteOf token) d) (htoken : isRaw token = true) {i : Nat}
    (hi : i < d.dashes + 2) : t.byteAt (p + i) < 128 := by
  match i with
  | 0 =>
    have hmark := h.mark_cases
    rw [Nat.add_zero]
    omega
  | 1 =>
    rw [h.quote]
    rcases raw_cases htoken with rfl | rfl <;> decide
  | i + 2 =>
    have hdash := h.dashes i (by omega)
    rw [Nat.add_right_comm] at hdash
    rw [← Nat.add_assoc, hdash]
    decide

end Opens

namespace Machine

open Scanner

variable {t : Text} {m n : Machine t} {token : Token} {d : Delimiter} {p : Nat}

theorem apt_of_opens {quote : Char} (h : Opens t p quote d) : Apt (quoteOf token) d := by
  have hcases := closingOf?_cases h.bracket
  exact apt_quoteOf token (by omega)

section

variable (hsync : m.scan.InSync) (hopens : Opens t m.scan.pos (quoteOf token) d)
  (htoken : isRaw token = true)
include hsync hopens htoken

/-- Where a raw string is opened the machine goes to its bracket. -/
theorem startToken_of_opens : m.startToken
    = ⟨(m.scan.switch token).forwardBy (d.dashes + 2), some d⟩ := by
  have hmark := hopens.mark_cases
  have hpoint : t.charAt m.scan.pos = ⟨t.byteAt m.scan.pos, 1⟩ := t.charAt_of_byteAt_lt (by omega)
  have hch : m.scan.ch = t.byteAt m.scan.pos := by rw [hsync.ch, hpoint]
  have hwidth : m.scan.width = 1 := by rw [hsync.width, hpoint]
  have hnext : m.scan.next = (quoteOf token).toNat := by
    rw [hsync.next, hwidth, t.code_eq_iff (by rcases raw_cases htoken with rfl | rfl <;> decide)]
    exact hopens.quote
  have hdigit : (Ascii.isDigit m.scan.ch || (m.scan.sees '.' && Ascii.isDigit m.scan.next))
      = false := by
    rw [Cursor.sees, hch]
    rcases hmark with hmark | hmark <;> rw [hmark] <;> rfl
  have hstarts : (Ascii.oneOf ['r', 'R'] m.scan.ch
      && Ascii.oneOf [Ascii.doubleQuote, Ascii.singleQuote] m.scan.next) = true := by
    rw [hch, hopens.mark, hnext]
    rcases raw_cases htoken with rfl | rfl <;> rfl
  have hquote : (if m.scan.seesNext Ascii.doubleQuote = true then Token.rawString
      else .rawSingleQuoted) = token := by
    rw [Cursor.seesNext, hnext]
    rcases raw_cases htoken with rfl | rfl <;> rfl
  rw [startToken]
  dsimp only
  rw [hdigit, if_neg Bool.false_ne_true, hstarts, if_pos rfl, startRaw, hopens.delimiterAt?]
  dsimp only
  rw [hquote]

/-- A machine that comes outside every token to where a raw string is opened opens it. -/
theorem rawOpen_finishRound (hstop : m.scan.stop = t.size + 1) (hmark : m.scan.mark ≤ m.scan.pos)
    (hplain : m.scan.token = .plain) :
    RawOpen (t.size + 1) (m.scan.pos + 2 + d.dashes) m.scan.pos token d m.finishRound := by
  have hapt : Apt (quoteOf token) d := apt_of_opens hopens
  obtain ⟨hsize, hbracket, hne, -⟩ := hopens.bracket_spec
  have hsettle : m.settle = ⟨(m.scan.switch token).forwardBy (d.dashes + 2), some d⟩ := by
    rw [settle, if_pos hplain]
    exact startToken_of_opens hsync hopens htoken
  obtain ⟨hsync', hover⟩ := forwardBy_of_byteAt_lt (d.dashes + 2) (s := m.scan.switch token)
    (by simpa using hsync) (by simp only [toCursor_switch]; omega)
    (by simpa using fun i hi => hopens.byteAt_lt htoken hi)
  have hpos : ((m.scan.switch token).forwardBy (d.dashes + 2)).pos = m.scan.pos + 2 + d.dashes := by
    rw [hover, toCursor_switch]
    omega
  have hreach : m.scan.Reach ((m.scan.switch token).forwardBy (d.dashes + 2)) :=
    (Reach.refl.switch token).forwardBy _
  have hstands : Stands (t.size + 1) ((m.scan.switch token).forwardBy (d.dashes + 2))
      (m.scan.pos + 2 + d.dashes) :=
    ⟨hreach.stop.trans hstop, Or.inl ⟨by omega, hpos, hsync'⟩⟩
  have hopen : RawOpen (t.size + 1) (m.scan.pos + 2 + d.dashes) m.scan.pos token d
      ⟨(m.scan.switch token).forwardBy (d.dashes + 2), some d⟩ :=
    { stop_eq := hstands.stop_eq
      sync := fun _ => hsync'
      token_eq := token_forwardBy ..
      raw_eq := rfl
      mark_eq := by
        rw [mark_forwardBy, mark_switch]
        omega
      le_pos := Nat.le_of_eq hpos.symm
      clear := fun y hy hlt => absurd hlt (by dsimp only; omega) }
  have hround := hopen.finishRound hapt htoken (Moved.refl _) hstands ?_ ?_ .refl
  · rw [Machine.finishRound, hsettle]
    rw [Machine.finishRound, settle_of_raw (by rw [hopen.token_eq]; exact htoken)] at hround
    exact hround
  · rw [Ne, hstands.ch_eq_iff (by have := closingOf?_cases hopens.bracket; omega), seenAt,
      if_pos (by omega)]
    exact hne
  · exact fun y hy hlt => absurd hlt (by dsimp only at hy; omega)

end

end Machine

/-! ## 6. The whole run -/

/-- The raw string whose opening bracket stands before `start` ends at `stop`: behind the first
closing, or at the end of the text if there is none. -/
def EndsRawString (t : Text) (quote : Char) (d : Delimiter) (start stop : Nat) : Prop :=
  (∃ x, start ≤ x ∧ Closes t.byteAt quote d x
      ∧ (∀ y, start ≤ y → y < x → ¬Closes t.byteAt quote d y) ∧ stop = x + 2 + d.dashes)
    ∨ (∀ y, start ≤ y → ¬Closes t.byteAt quote d y) ∧ stop = t.size

/-- The lexer, on its way through the whole text, comes to `p` outside every token. -/
def Meets (g : Settings) (t : Text) (p : Nat) : Prop :=
  ∃ q : Machine t, (engine g).Comes (Machine.start t 0 t.size .plain (LineState.unpack 0)) q
    ∧ q.scan.more = true ∧ (q.endToken g).scan.token = .plain ∧ (q.endToken g).scan.pos = p

section

variable {t : Text} {quote : Char} {d : Delimiter} {start stop x : Nat}

theorem Closes.congr {see see' : Nat → Nat} (h : Closes see quote d x)
    (heq : ∀ y, y ≤ x + 1 + d.dashes → see' y = see y) : Closes see' quote d x where
  bracket := (heq x (by omega)).trans h.bracket
  dashes i hi := (heq _ (by omega)).trans (h.dashes i hi)
  quote := (heq _ (Nat.le_refl _)).trans h.quote

/-- A walk sees the closings that it does not go over. -/
theorem closes_seenAt_iff (hapt : Apt quote d) : Closes (seenAt t stop) quote d x
    ↔ Closes t.byteAt quote d x ∧ x + 1 + d.dashes ≤ stop := by
  have hquote := hapt.quote
  constructor
  · intro h
    have hle : x + 1 + d.dashes ≤ stop := by
      by_contra hlt
      have hlast := h.quote
      rw [seenAt, if_neg hlt] at hlast
      omega
    exact ⟨h.congr fun y hy => (if_pos (by omega)).symm, hle⟩
  · exact fun ⟨h, hle⟩ => h.congr fun y hy => if_pos (by omega)

theorem Closes.lt_size (hapt : Apt quote d) (h : Closes t.byteAt quote d x) :
    x + 1 + d.dashes < t.size := by
  have hquote := hapt.quote
  have hlast := h.quote
  exact t.lt_size_of_byteAt (by omega)

/-- It makes no difference to skip a character that is no closing bracket. -/
theorem EndsRawString.succ (h : EndsRawString t quote d start stop)
    (hne : t.byteAt start ≠ d.close) : EndsRawString t quote d (start + 1) stop := by
  rcases h with ⟨x, hle, hcloses, hfirst, hstop⟩ | ⟨hnone, hstop⟩
  · have hx : x ≠ start := by
      rintro rfl
      exact hne hcloses.bracket
    exact Or.inl ⟨x, by omega, hcloses, fun y hy hlt => hfirst y (by omega) hlt, hstop⟩
  · exact Or.inr ⟨fun y hy => hnone y (by omega), hstop⟩

end

namespace Machine

variable {t : Text} {m e : Machine t} {o mark : Nat} {token : Token} {d : Delimiter}

/-- The run paints an open raw string as one span, up to where it ends. -/
theorem RawOpen.exists_end (g : Settings) (hapt : Apt (quoteOf token) d)
    (htoken : isRaw token = true) (hclose : d.close ≠ 0x20)
    (h : RawOpen (t.size + 1) o mark token d m) (hmark : mark < o) (hsize : mark < t.size)
    (hends : (engine g).Ends m e) : ∃ stop, EndsRawString t (quoteOf token) d o stop
      ∧ ⟨mark, stop, token⟩ ∈ e.scan.finish.spans := by
  rcases hends.exists_last (P := RawOpen (t.size + 1) o mark token d) h with
    h | ⟨r, -, hmore, h, hlast, hrest⟩
  · have hdone : e.scan.stop ≤ e.scan.pos := hends.stop_le
    rw [h.stop_eq] at hdone
    refine ⟨t.size, Or.inr ⟨fun y hy hcloses => ?_, rfl⟩, ?_⟩
    · have hlt := hcloses.lt_size hapt
      exact (h.clear y hy (by omega)).1 ((closes_seenAt_iff hapt).2 ⟨hcloses, by omega⟩)
    · have hmem := Scanner.mem_spans_finish (s := e.scan) (by
        rw [h.mark_eq]
        omega)
      rwa [h.mark_eq, h.token_eq, Nat.min_eq_right (by omega)] at hmem
  · rcases h.step_cases g hapt htoken hmore with ⟨-, hopen⟩
      | ⟨x, s, -, hle, hend, hmoved, hstands, hcloses, hclear⟩ | ⟨-, hspace, -⟩
    · exact absurd hopen hlast
    · have hcloses' := ((closes_seenAt_iff hapt).1 hcloses).1
      have hlt := hcloses'.lt_size hapt
      have hquote := hapt.quote
      have hch := (hstands.ch_eq_iff (c := (quoteOf token).toNat) (by omega)).2 hcloses.quote
      have hpos := ((hstands.forward (by omega)).inSync (by omega)).1
      refine ⟨x + 2 + d.dashes, Or.inl ⟨x, hle, hcloses', ?_, rfl⟩, ?_⟩
      · intro y hy hyx hother
        have hyl := hother.lt_size hapt
        exact (hclear y hy hyx).1 ((closes_seenAt_iff hapt).2 ⟨hother, by omega⟩)
      · have hmem := Scanner.mem_spans_switch (s := s.forward) .plain (by
          rw [Scanner.mark_forward, hmoved.mark, h.mark_eq, hpos]
          omega)
        rw [Scanner.mark_forward, hmoved.mark, h.mark_eq, hpos, Scanner.token_forward,
          hmoved.token, h.token_eq, Nat.min_eq_left (by omega)] at hmem
        have hreach : (s.forwardSwitch .plain).Reach (r.step g).scan := by
          have hround : (endToken g r).scan.Reach (step g r).scan := reach_finishRound _
          rw [hend] at hround
          exact hround
        have hrest : (r.step g).scan.Reach e.scan := (sound g).reach_ends hrest
        have hspans := (hreach.trans hrest).finish.mem_spans hmem
        rwa [show x + 1 + d.dashes + 1 = x + 2 + d.dashes by omega] at hspans
    · exact absurd hspace hclose

/-- Where a run over a whole text ends a token inside it, it is in sync. -/
theorem inSync_endToken (g : Settings) {q : Machine t}
    (hq : (engine g).Comes (start t 0 t.size .plain (LineState.unpack 0)) q)
    (hmore : q.scan.more = true) (hs : (q.endToken g).scan.pos < t.size) :
    (q.endToken g).scan.InSync ∧ (q.endToken g).scan.stop = t.size + 1
      ∧ (q.endToken g).scan.mark ≤ (q.endToken g).scan.pos := by
  have hlike : Like 0 (t.size + 1) q q := (resumable g).like_self_of_comes (sound g) hq hmore
  have hlt : q.scan.pos < t.size + 1 :=
    Nat.lt_of_lt_of_le (Cursor.more_iff.1 hmore) hlike.scan.cursor.sync.stop_le
  rcases (Within.mk hlike hlt).endToken_cases g with ⟨he, -⟩ | ⟨⟨heq, -⟩, -, -, hpos⟩
  · have hsync := he.inside.cursor.sync
    have hmark := he.scan.mark_le
    exact ⟨hsync, Nat.le_antisymm hsync.stop_le he.inside.cursor.stop, by omega⟩
  · -- a line that is left open ends in the text
    rw [heq] at hs
    omega

/-- A round that comes outside every token to where a raw string is opened opens it. -/
theorem rawOpen_step (g : Settings) (htoken : isRaw token = true) {q : Machine t}
    (hq : (engine g).Comes (start t 0 t.size .plain (LineState.unpack 0)) q)
    (hmore : q.scan.more = true) (hplain : (q.endToken g).scan.token = .plain)
    (hopens : Opens t (q.endToken g).scan.pos (quoteOf token) d) :
    RawOpen (t.size + 1) ((q.endToken g).scan.pos + 2 + d.dashes) (q.endToken g).scan.pos token d
      (q.step g) := by
  have hsize := hopens.bracket_spec.1
  obtain ⟨hsync, hstop, hmark⟩ := inSync_endToken g hq hmore (by omega)
  exact rawOpen_finishRound hsync hopens htoken hstop hmark hplain

end Machine

/-- What a whole run says of a raw string: one span to where it ends. -/
theorem exists_endsRawString (g : Settings) {t : Text} {p : Nat} {token : Token} {d : Delimiter}
    (htoken : isRaw token = true) (hp : Meets g t p) (hopens : Opens t p (quoteOf token) d) :
    ∃ stop, EndsRawString t (quoteOf token) d (p + 3 + d.dashes) stop
      ∧ ⟨p, stop, token⟩ ∈ ((engine g).whole t).spans := by
  obtain ⟨q, hq, hmore, hplain, rfl⟩ := hp
  have hclosing := closingOf?_cases hopens.bracket
  have hsize := hopens.bracket_spec.1
  have hends : (engine g).Ends (q.step g) ((engine g).last t 0 t.size .plain 0) :=
    ((sound g).ends_start t 0 t.size .plain 0).of_comes (hq.round hmore)
  obtain ⟨stop, hstop, hmem⟩ := (Machine.rawOpen_step g htoken hq hmore hplain hopens).exists_end g
    (Machine.apt_of_opens hopens) htoken (by omega) (by omega) (by omega) hends
  refine ⟨stop, ?_, hmem⟩
  have hnext := hstop.succ hopens.bracket_spec.2.2.1
  rwa [Nat.add_right_comm] at hnext

end R

end Restyle
