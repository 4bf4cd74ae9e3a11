/-
Restyle.Proofs.Engine.Walks — what happens on the way to the end of a
range.

`Comes m r` says that rounds on `m`, with something left to do before
each, come to `r`. A run that ends behind a place where it started before
takes one round that goes over that place (`Ends.exists_crossing`); what
is there then is up to that round alone. So what a whole run says of a line
end is what it has said once it stands behind it (`whole_of_lineEnd`).

Two machines may also take different numbers of rounds to do the same. If
rounds on the second catch up with every round of the first, the ends of
the two runs are related as their starts are (`Ends.simulates`).
-/
import Restyle.Proofs.Engine.Lockstep

namespace Restyle

namespace Engine

variable {E E' : Engine} {t t' : Text} {m r q e : E.State t}

/-! ## 1. Part of a run -/

/-- Rounds on `m`, each with more to do before it, come to `r`. -/
inductive Comes (E : Engine) (m : E.State t) : E.State t → Prop
  | refl : Comes E m m
  | round {r : E.State t} : Comes E m r → (E.scan r).more = true → Comes E m (E.round r)

namespace Comes

theorem single (hmore : (E.scan m).more = true) : E.Comes m (E.round m) := .round .refl hmore

theorem trans (h : E.Comes m r) (h' : E.Comes r q) : E.Comes m q := by
  induction h' with
  | refl => exact h
  | round _ hmore ih => exact ih.round hmore

/-- Rounds that go from one state of a sequence to the next. -/
theorem of_rounds {f : Nat → E.State t} {n : Nat}
    (h : ∀ i < n, (E.scan (f i)).more = true ∧ E.round (f i) = f (i + 1)) :
    E.Comes (f 0) (f n) := by
  induction n with
  | zero => exact .refl
  | succ n ih =>
    obtain ⟨hmore, hround⟩ := h n (Nat.lt_succ_self n)
    rw [← hround]
    exact (ih fun i hi => h i (Nat.lt_succ_of_lt hi)).round hmore

/-- What every round keeps is kept on the way. -/
theorem invariant {P : E.State t → Prop} (hround : ∀ m, P m → P (E.round m))
    (h : E.Comes m r) (hm : P m) : P r := by
  induction h with
  | refl => exact hm
  | round _ _ ih => exact hround _ ih

end Comes

namespace Ends

theorem of_comes (h : E.Ends m e) (hr : E.Comes m r) : E.Ends r e := by
  induction hr with
  | refl => exact h
  | round _ hmore ih => exact ih.round_of_more hmore

/-- A run goes over every place between its start and its end in some round. -/
theorem exists_crossing (h : E.Ends m e) {k : Nat} (hm : (E.scan m).pos < k)
    (he : k ≤ (E.scan e).pos) : ∃ q, E.Comes m q ∧ (E.scan q).more = true
      ∧ (E.scan q).pos < k ∧ k ≤ (E.scan (E.round q)).pos := by
  induction h with
  | done _ => omega
  | @round m e hmore _ ih =>
    rcases Nat.lt_or_ge (E.scan (E.round m)).pos k with hlt | hge
    · obtain ⟨q, hq, hcross⟩ := ih hlt he
      exact ⟨q, (Comes.single hmore).trans hq, hcross⟩
    · exact ⟨m, .refl, hmore, hm, hge⟩

/-- What holds at the start of a run holds to its end, or up to some round. -/
theorem exists_last {P : E.State t → Prop} (h : E.Ends m e) (hm : P m) :
    P e ∨ ∃ r, E.Comes m r ∧ (E.scan r).more = true ∧ P r ∧ ¬P (E.round r)
      ∧ E.Ends (E.round r) e := by
  induction h with
  | done _ => exact Or.inl hm
  | @round m e hmore hrest ih =>
    by_cases hround : P (E.round m)
    · rcases ih hround with hend | ⟨r, hr, hlast⟩
      · exact Or.inl hend
      · exact Or.inr ⟨r, (Comes.single hmore).trans hr, hlast⟩
    · exact Or.inr ⟨m, .refl, hmore, hm, hround, hrest⟩

end Ends

/-! ## 2. The way to a line end -/

namespace Resumable

variable {limit : Nat} (hE : E.Sound) (L : E.Resumable limit)
include hE

/-- A state is like itself as long as it has not come to `k`. -/
theorem like_of_comes {o k : Nat} (h : L.Like o k m m) (hr : E.Comes m r)
    (hlt : (E.scan r).pos < k) : L.Like o k r r := by
  induction hr with
  | refl => exact h
  | @round r _ hmore ih =>
    have hle := (hE.reach r).pos_le
    rcases L.round (ih (by omega)) (by omega) with ⟨hlike, -⟩ | ⟨n, -, -, hn, ⟨hround, -⟩, -⟩
    · exact hlike
    · have := (hE.reach n).pos_le
      rw [hround] at this
      omega

/-- What rounds on such states keep is kept on the way there. -/
theorem invariant_of_comes {o k : Nat} {P : E.State t → Prop}
    (hround : ∀ m, L.Like o k m m → (E.scan m).pos < k → (E.scan (E.round m)).pos < k →
      P m → P (E.round m))
    (h : L.Like o k m m) (hr : E.Comes m r) (hlt : (E.scan r).pos < k) (hm : P m) : P r := by
  induction hr with
  | refl => exact hm
  | @round r hr hmore ih =>
    have hle := (hE.reach r).pos_le
    exact hround r (L.like_of_comes hE h hr (by omega)) (by omega) hlt (ih (by omega))

/-- As long as it has not ended a state of the whole run is like itself to the end of the
text. -/
theorem like_self_of_comes (hr : E.Comes (E.start t 0 t.size .plain 0) r)
    (hmore : (E.scan r).more = true) : L.Like 0 (t.size + 1) r r := by
  have hstop : (Cursor.start t 0 t.size).stop = t.size + 1 := Cursor.stop_start_of_eq (Nat.zero_add _)
  have hrstop : (E.scan r).stop = t.size + 1 := by
    rw [hr.invariant (P := fun r => (E.scan r).stop = (Cursor.start t 0 t.size).stop)
      (fun m hm => (hE.reach m).stop.trans hm) (hE.stop_start), hstop]
  refine L.like_of_comes hE ?_ hr (by rw [← hrstop]; exact Cursor.more_iff.1 hmore)
  exact L.start (Scanner.Abreast.start .plain (Text.SameTo.refl t.isStop_size_succ) (Nat.succ_pos _)
    (by omega) (by omega) (Nat.le_of_eq hstop.symm) (Nat.le_of_eq hstop.symm))

/-- The whole run goes over every line end in a round that starts before it. -/
theorem exists_crossing {k : Nat} (hk : t.IsStop k) (hpos : 0 < k) :
    ∃ q, E.Comes (E.start t 0 t.size .plain 0) q ∧ (E.scan q).more = true
      ∧ L.Like 0 k (E.start t 0 t.size .plain 0) (E.start t 0 t.size .plain 0) ∧ L.Like 0 k q q
      ∧ (E.scan q).pos < k ∧ k ≤ (E.scan (E.round q)).pos := by
  have hends := hE.ends_start t 0 t.size .plain 0
  have hstop : (Cursor.start t 0 t.size).stop = t.size + 1 := Cursor.stop_start_of_eq (Nat.zero_add _)
  have hmore := hends.more
  have hlast : (E.scan (E.last t 0 t.size .plain 0)).stop = t.size + 1 := by
    rw [(hE.reach_ends hends).stop, hE.stop_start, if_pos (Nat.zero_add _), Nat.zero_add]
  rw [Cursor.more, decide_eq_false_iff_not, hlast] at hmore
  have hle := hk.le
  obtain ⟨q, hq, hqmore, hlt, hge⟩ := hends.exists_crossing (k := k) (by rw [hE.pos_start]; exact hpos)
    (by omega)
  have hstart : L.Like 0 k (E.start t 0 t.size .plain 0) (E.start t 0 t.size .plain 0) := by
    have hle : k ≤ (Scanner.start t 0 t.size .plain).stop :=
      Nat.le_trans hle (Nat.le_of_eq hstop.symm)
    exact L.start (Scanner.Abreast.start .plain (Text.SameTo.refl hk) hpos (by omega) (by omega)
      hle hle)
  exact ⟨q, hq, hqmore, hstart, L.like_of_comes hE hstart hq hlt, hlt, hge⟩

/-- What the whole run says of a line end is what it has said once it stands behind it. -/
theorem whole_of_lineEnd {p : Nat} (hp : t.breaksAfter p = true) {n : E.State t}
    (h : L.Like 0 (p + 1) n n) (harr : L.Arrived n)
    (hrest : E.Rest n (E.last t 0 t.size .plain 0)) (hpos : (E.scan n).pos = p + 1) :
    (E.scan n).line = t.lineOf p + 1 ∧ (E.whole t).tokenAt? p = (E.scan n).look p
      ∧ (E.whole t).stateOf? (t.lineOf p) = (E.scan n).noted (t.lineOf p) := by
  have hs := t.lt_size_of_breaksAfter hp
  have hline : (E.scan n).line = t.lineOf p + 1 := by
    rw [(L.abreast h).cursor.sync.line, hpos, t.lineAt_of_le (by omega), t.lineOf_succ, hp,
      if_pos rfl]
  refine ⟨hline, L.tokenAt?_whole hE h harr hrest (by omega) hs, ?_⟩
  rw [whole, stateOf?_style]
  exact (hrest.reach hE).noted (by omega)

end Resumable

/-! ## 3. Runs that do the same in different numbers of rounds -/

/-- If the second machine catches up with each round of the first, and is done when that is,
their runs end as they start. -/
theorem Ends.simulates {L : E.State t → E'.State t' → Prop}
    (hround : ∀ m m', L m m' → (E.scan m).more = true →
      ∃ r', E'.Comes m' r' ∧ L (E.round m) r')
    (hdone : ∀ m m', L m m' → (E.scan m).more = false → (E'.scan m').more = false)
    {m' e' : E'.State t'} (h : E.Ends m e) (h' : E'.Ends m' e') (hm : L m m') : L e e' := by
  induction h generalizing m' with
  | @done m hmore =>
    rw [h'.eq_of_not_more (hdone m m' hm hmore)]
    exact hm
  | @round m e hmore _ ih =>
    obtain ⟨r', hr', hr⟩ := hround m m' hm hmore
    exact ih (h'.of_comes hr') hr

end Engine

end Restyle
