/-
Restyle.Proofs.Engine.Lockstep — machines that can start again at every
line start.

Two machines over texts that begin alike up to `k` go in step until they
come to `k` (`lockstep`), if `Resumable` can be shown of their kind: a
relation `Like` between states that a round keeps, and a property
`Arrived` that states at a line start have. A round may come to `k` in
the middle and go on from there; then it is the round of a state that
stands at `k`.

From lockstep alone follow, in this order:
* what a run says of the bytes before a line start is settled once it has
  come there (`settled`);
* texts that begin alike are styled alike (`whole_local`);
* a run from a line start, in the token of the byte before and after the
  state of the line before, says what the whole run says (`piece`).
-/
import Restyle.Proofs.Engine.Rounds
import Restyle.Proofs.Scanner.Abreast

namespace Restyle

namespace Engine

/-- What it takes to start again at line starts of texts shorter than `limit`. -/
structure Resumable (E : Engine) (limit : Nat) where
  /-- Tokens that may be relabelled while they are open. -/
  loose : Token → Bool
  /-- The states say the same from `o` on and will do the same up to `k`. -/
  Like : {t t' : Text} → (o k : Nat) → E.State t → E.State t' → Prop
  /-- The state stands at a line start, and what it carries can be read off from its
  token and the state noted for the line before. -/
  Arrived : {t : Text} → E.State t → Prop
  abreast {t t' : Text} {o k : Nat} {m : E.State t} {m' : E.State t'} :
    Like o k m m' → Scanner.Abreast loose o k (E.scan m) (E.scan m')
  right {t t' : Text} {o k : Nat} {m : E.State t} {m' : E.State t'} :
    Like o k m m' → Like o k m' m'
  round {t t' : Text} {o k : Nat} {m : E.State t} {m' : E.State t'} :
    Like o k m m' → (E.scan m).pos < k →
      (Like o k (E.round m) (E.round m')
        ∧ ((E.scan (E.round m)).pos = k → Arrived (E.round m) ∧ Arrived (E.round m')))
      ∨ ∃ (n : E.State t) (n' : E.State t'),
        Like o k n n' ∧ (E.scan n).pos = k
          ∧ (E.round n = E.round m ∧ (E.scan n).mark = min k t.size ∧ Arrived n)
          ∧ (E.round n' = E.round m' ∧ (E.scan n').mark = min k t'.size ∧ Arrived n')
  start {t t' : Text} {k length length' : Nat} :
    Scanner.Abreast loose 0 k (Scanner.start t 0 length .plain) (Scanner.start t' 0 length' .plain) →
      Like 0 k (E.start t 0 length .plain 0) (E.start t' 0 length' .plain 0)
  restart {t t' : Text} {o k k' length : Nat} {m : E.State t} {m' : E.State t'} :
    Like o k m m' → Arrived m → t.size < limit → t.IsStop k' → (E.scan m).pos < k' →
      (E.scan m).pos + length ≤ t.size → k' ≤ (E.scan m).stop →
      k' ≤ (Cursor.start t (E.scan m).pos length).stop →
      ∃ token raw, (E.scan m).look ((E.scan m).pos - 1) = some token
        ∧ (E.scan m).noted ((E.scan m).line - 1) = some raw
        ∧ Like (E.scan m).pos k' m (E.start t (E.scan m).pos length token raw)
  finish {t t' : Text} {o k k' : Nat} {m : E.State t} {m' : E.State t'} :
    Like o k m m' → Arrived m → t.IsStop k' → (E.scan m).pos ≤ k' → k' ≤ (E.scan m).stop →
      ∃ n, E.scan n = (E.scan m).finish ∧ Like o k' m n

/-- How the machine styles a whole text. -/
def whole (E : Engine) (t : Text) : Styling := E.style t 0 t.size .plain 0

variable {E : Engine} {limit : Nat} {t t' : Text}

/-- What is left to do from `n` on ends in `e`, if `n` may stand inside a round that has
come to the end of its range. -/
def Rest (E : Engine) (n e : E.State t) : Prop :=
  E.Ends n e
    ∨ ((E.scan n).more = false ∧ (E.scan n).mark = min (E.scan n).pos t.size ∧ e = E.round n)

namespace Rest

variable {n e : E.State t}

/-- A state with nothing open whose round is part of a run to `e`. -/
theorem of_round (hE : E.Sound) {r : E.State t} (hround : E.round n = r) (he : E.Ends r e)
    (hm : (E.scan n).mark = min (E.scan n).pos t.size) : E.Rest n e := by
  subst hround
  cases hmore : (E.scan n).more with
  | true => exact Or.inl (.round hmore he)
  | false =>
    -- a round that starts at the end of the range stays there
    have hreach := hE.reach n
    have hstop := hreach.stop
    have hle := hreach.pos_le
    have hno : (E.scan (E.round n)).more = false := by
      simp only [Cursor.more, decide_eq_false_iff_not] at hmore ⊢
      omega
    exact Or.inr ⟨hmore, hm, he.eq_of_not_more hno⟩

theorem reach (hE : E.Sound) (h : E.Rest n e) : (E.scan n).Reach (E.scan e) := by
  rcases h with h | ⟨-, -, rfl⟩
  · exact hE.reach_ends h
  · exact hE.reach n

theorem ends_of_more (h : E.Rest n e) (hmore : (E.scan n).more = true) : E.Ends n e := by
  rcases h with h | ⟨hno, -⟩
  · exact h
  · rw [hmore] at hno
    cases hno

/-- At the end of its range a state has nothing more to say of the bytes. -/
theorem look_of_not_more (hE : E.Sound) (h : E.Rest n e) (hmore : (E.scan n).more = false)
    {p : Nat} (hp : p < (E.scan n).pos) (hs : p < t.size) :
    (E.scan e).look p = (E.scan n).look p := by
  rcases h with h | ⟨-, hmark, rfl⟩
  · rw [h.eq_of_not_more hmore]
  · exact (hE.reach n).look (by rw [hmark]; omega)

end Rest

/-- What a run from a line start has to be told: on the first line nothing, and else the
token of the byte before and the state of the line before. -/
structure Resumes (E : Engine) (t : Text) (start : Nat) (token : Token) (raw : Int) : Prop where
  first : start = 0 → token = .plain ∧ raw = 0
  token : 0 < start → (E.whole t).tokenAt? (start - 1) = some token
  raw : 0 < start → (E.whole t).stateOf? (t.lineOf start - 1) = some raw

namespace Resumable

variable (hE : E.Sound) (L : E.Resumable limit)
include hE

/-! ## 1. Lockstep -/

/-- Like states go in step up to `k`. -/
theorem lockstep {o k : Nat} {m e : E.State t} {m' e' : E.State t'} (he : E.Ends m e)
    (he' : E.Ends m' e') (h : L.Like o k m m') (hlt : (E.scan m).pos < k) :
    ∃ n n', L.Like o k n n' ∧ (E.scan n).pos = k
      ∧ (L.Arrived n ∧ E.Rest n e) ∧ (L.Arrived n' ∧ E.Rest n' e') := by
  induction he generalizing m' with
  | @done m hmore =>
    have := (L.abreast h).cursor.more hlt
    rw [hmore] at this
    cases this
  | @round m e hmore he ih =>
    have hmore' := (L.abreast h).cursor.more' hlt
    have he'' := he'.round_of_more hmore'
    rcases L.round h hlt with
      ⟨hlike, harr⟩ | ⟨n, n', hlike, hpos, ⟨hn, hm, harr⟩, ⟨hn', hm', harr'⟩⟩
    · rcases Nat.lt_or_eq_of_le (L.abreast hlike).cursor.pos_le with hlt | heq
      · exact ih he'' hlike hlt
      · exact ⟨_, _, hlike, heq, ⟨(harr heq).1, Or.inl he⟩, ⟨(harr heq).2, Or.inl he''⟩⟩
    · have hpos' : (E.scan n').pos = k := by rw [(L.abreast hlike).cursor.pos, hpos]
      exact ⟨n, n', hlike, hpos, ⟨harr, .of_round hE hn he (by rw [hm, hpos])⟩,
        ⟨harr', .of_round hE hn' he'' (by rw [hm', hpos'])⟩⟩

/-- Once a run has come to a line start, what it says of the bytes before is settled. -/
theorem settled {o k : Nat} {n e : E.State t} {n' : E.State t'} (h : L.Like o k n n')
    (harr : L.Arrived n)
    (hrest : E.Rest n e) (hstop : (E.scan n).stop = t.size + 1)
    {p : Nat} (ho : o ≤ p) (hp : p < (E.scan n).pos) (hs : p < t.size) : (E.scan e).look p = (E.scan n).look p := by
  cases hmore : (E.scan n).more with
  | false => exact hrest.look_of_not_more hE hmore hp hs
  | true =>
    have hlt : (E.scan n).pos < t.size + 1 := by
      have := Cursor.more_iff.1 hmore
      omega
    obtain ⟨q, hq, hlike⟩ :=
      L.finish h harr t.isStop_size_succ (by omega) (Nat.le_of_eq hstop.symm)
    have hends := hrest.ends_of_more hmore
    -- the same run, with the open span painted at the line start
    obtain ⟨e', hends'⟩ : ∃ e', E.Ends q e' := by
      apply hE.exists_ends
      rw [hq]
      simpa [Scanner.finish] using (L.abreast h).cursor.sync.toMeasured
    obtain ⟨x, y, hlike', hpos, ⟨-, hx⟩, ⟨-, hy⟩⟩ := L.lockstep hE hends hends' hlike hlt
    have hcursor := (L.abreast hlike').cursor
    have hdone {t : Text} {x : E.State t} (hpos : (E.scan x).pos = t.size + 1)
        (hsync : (E.scan x).InSync) : (E.scan x).more = false := by
      have := hsync.stop_le
      simp only [Cursor.more, decide_eq_false_iff_not]
      omega
    have hmark : (E.scan q).mark = max (E.scan n).mark (min (E.scan n).pos t.size) := by
      rw [hq]
      exact Scanner.mark_paintTo ..
    calc (E.scan e).look p
        = (E.scan x).look p :=
          hx.look_of_not_more hE (hdone hpos hcursor.sync) (by omega) hs
      _ = (E.scan y).look p := ((L.abreast hlike').look p ho (by omega) hs).symm
      _ = (E.scan e').look p :=
          (hy.look_of_not_more hE (hdone (hcursor.pos.trans hpos) hcursor.sync')
            (by rw [hcursor.pos]; omega) hs).symm
      _ = (E.scan q).look p := (hE.reach_ends hends').look (by omega)
      _ = (E.scan n).look p := by rw [hq]; exact Scanner.look_finish _ hp hs

/-! ## 2. What runs say -/

theorem stop_of_rest {start length : Nat} {token : Token} {raw : Int} {n : E.State t}
    (h : E.Rest n (E.last t start length token raw)) :
    (E.scan n).stop = (Cursor.start t start length).stop := by
  have hreach := hE.reach_ends (hE.ends_start t start length token raw)
  rw [← (h.reach hE).stop, hreach.stop, hE.stop_start, Cursor.stop_start]

theorem tokenAt?_style {start length : Nat} (token : Token) (raw : Int)
    (h : start + length ≤ t.size) {p : Nat} (hp : p < start + length) :
    (E.style t start length token raw).tokenAt? p
      = (E.scan (E.last t start length token raw)).look p := by
  have hends := hE.ends_start t start length token raw
  have hmore := hends.more
  have hstop := (hE.reach_ends hends).stop
  rw [hE.stop_start] at hstop
  have hpos : p < (E.scan (E.last t start length token raw)).pos := by
    simp only [Cursor.more, decide_eq_false_iff_not] at hmore
    split at hstop <;> omega
  exact Scanner.tokenAt?_finish _ hpos (by omega)

omit hE in
theorem stateOf?_style (t : Text) (start length : Nat) (token : Token) (raw : Int) (line : Nat) :
    (E.style t start length token raw).stateOf? line
      = (E.scan (E.last t start length token raw)).noted line :=
  Scanner.stateOf?_finish ..

/-- What the whole run says of a byte is what it looks like once the run has come to a line
start behind it. -/
theorem tokenAt?_whole {k : Nat} {n : E.State t} {n' : E.State t'} (h : L.Like 0 k n n')
    (harr : L.Arrived n) (hrest : E.Rest n (E.last t 0 t.size .plain 0)) {p : Nat}
    (hp : p < (E.scan n).pos) (hs : p < t.size) :
    (E.whole t).tokenAt? p = (E.scan n).look p := by
  have hstop : (E.scan n).stop = t.size + 1 := by
    rw [stop_of_rest hE hrest, Cursor.stop_start_of_eq (Nat.zero_add _)]
  rw [whole, tokenAt?_style hE .plain 0 (by omega) (by omega),
    L.settled hE h harr hrest hstop (Nat.zero_le _) hp hs]

/-- What runs that have met say of the lines behind them. -/
theorem noted_of_like {o k : Nat} {n e : E.State t} {n' e' : E.State t'} (h : L.Like o k n n')
    (hrest : E.Rest n e) (hrest' : E.Rest n' e') {line : Nat} (ho : t.lineOf o ≤ line)
    (hline : line < (E.scan n).line) :
    ∃ state, (E.scan e).noted line = some state ∧ (E.scan e').noted line = some state := by
  have habreast := L.abreast h
  have hline' : line < (E.scan n').line := by rw [habreast.cursor.line]; exact hline
  obtain ⟨state, hn, hn'⟩ := habreast.noted line ho hline
  exact ⟨state, ((hrest.reach hE).noted hline).trans hn, ((hrest'.reach hE).noted hline').trans hn'⟩

/-! ## 3. Texts that begin alike -/

/-- Runs from the start over texts that begin alike up to `k` come to `k` in like states. -/
theorem meet {k length length' : Nat} (hsame : Text.SameTo k t t') (hk : 0 < k)
    (h : length ≤ t.size) (h' : length' ≤ t'.size)
    (hstop : k ≤ (Cursor.start t 0 length).stop) (hstop' : k ≤ (Cursor.start t' 0 length').stop) :
    ∃ n n', L.Like 0 k n n' ∧ (E.scan n).pos = k
      ∧ (L.Arrived n ∧ E.Rest n (E.last t 0 length .plain 0))
      ∧ (L.Arrived n' ∧ E.Rest n' (E.last t' 0 length' .plain 0)) := by
  apply L.lockstep hE (hE.ends_start t 0 length .plain 0) (hE.ends_start t' 0 length' .plain 0)
  · exact L.start (Scanner.Abreast.start .plain hsame hk (by omega) (by omega) hstop hstop')
  · rw [hE.pos_start]
    exact hk

include L in
/-- Texts that begin alike are styled alike as far as that. -/
theorem whole_local {k : Nat} (hsame : Text.SameTo k t t') :
    (∀ p < k, p < t.size → (E.whole t').tokenAt? p = (E.whole t).tokenAt? p)
      ∧ ∀ line < t.lineAt k, ∃ state, (E.whole t).stateOf? line = some state
          ∧ (E.whole t').stateOf? line = some state := by
  have hstop (t : Text) : (Cursor.start t 0 t.size).stop = t.size + 1 :=
    Cursor.stop_start_of_eq (Nat.zero_add _)
  by_cases hk : 0 < k
  · obtain ⟨n, n', hlike, hpos, ⟨harr, hrest⟩, ⟨harr', hrest'⟩⟩ :=
      L.meet hE hsame hk (Nat.le_refl t.size) (Nat.le_refl t'.size)
        (by rw [hstop]; exact hsame.stop.le) (by rw [hstop]; exact hsame.stop'.le)
    have habreast := L.abreast hlike
    constructor
    · intro p hp hs
      have hs' : p < t'.size := (hsame.lt_size_iff hp).2 hs
      have hpos' := habreast.cursor.pos
      rw [L.tokenAt?_whole hE hlike harr hrest (by omega) hs,
        L.tokenAt?_whole hE (L.right hlike) harr' hrest' (by omega) hs']
      exact habreast.look p (Nat.zero_le _) (by omega) hs
    · intro line hline
      rw [whole, whole, stateOf?_style, stateOf?_style]
      apply L.noted_of_like hE hlike hrest hrest'
      · rw [t.lineOf_zero]; exact Nat.zero_le _
      · rw [habreast.cursor.sync.line, hpos]; exact hline
  · obtain rfl : k = 0 := by omega
    constructor
    · intro p hp
      omega
    · intro line hline
      rw [t.lineAt_of_le (Nat.zero_le _), t.lineOf_zero] at hline
      omega

/-! ## 4. Pieces -/

/-- A run from a line start starts like the whole run goes on there. -/
theorem like_piece {start length k : Nat} {token : Token} {raw : Int} (ht : t.size < limit)
    (hstart : start ∈ t.starts) (hr : Resumes E t start token raw) (hlen : start + length ≤ t.size)
    (hk : t.IsStop k) (hlt : start < k) (hstop : k ≤ (Cursor.start t start length).stop) :
    ∃ m, L.Like start k m (E.start t start length token raw)
      ∧ E.Ends m (E.last t 0 t.size .plain 0) := by
  have hwhole : (Cursor.start t 0 t.size).stop = t.size + 1 :=
    Cursor.stop_start_of_eq (Nat.zero_add _)
  by_cases hzero : start = 0
  · subst hzero
    obtain ⟨rfl, rfl⟩ := hr.first rfl
    refine ⟨E.start t 0 t.size .plain 0, ?_, hE.ends_start ..⟩
    exact L.start (Scanner.Abreast.start .plain (Text.SameTo.refl hk) hlt (by omega) (by omega)
      (by rw [show (Scanner.start t 0 t.size .plain).stop = t.size + 1 from hwhole]; exact hk.le)
      hstop)
  · have hpos : 0 < start := Nat.pos_of_ne_zero hzero
    have hs := t.isStop_of_mem_starts hstart hpos
    obtain ⟨n, n', hlike, hn, ⟨harr, hrest⟩, -⟩ :=
      L.meet hE (Text.SameTo.refl hs) hpos (Nat.le_refl t.size) (Nat.le_refl t.size)
        (by rw [hwhole]; exact hs.le) (by rw [hwhole]; exact hs.le)
    subst hn
    have hnstop : (E.scan n).stop = t.size + 1 := by rw [stop_of_rest hE hrest, hwhole]
    obtain ⟨token', raw', htoken, hraw, hpiece⟩ :=
      L.restart hlike harr ht hk hlt hlen (by rw [hnstop]; exact hk.le) hstop
    have hline : (E.scan n).line = t.lineOf (E.scan n).pos := by
      rw [(L.abreast hlike).cursor.sync.line, t.lineAt_of_le (by omega)]
    obtain rfl : token' = token := by
      have hsame := hr.token hpos
      rw [L.tokenAt?_whole hE hlike harr hrest (by omega) (by omega), htoken] at hsame
      exact Option.some.inj hsame
    obtain rfl : raw' = raw := by
      have hbefore := t.lineOf_lt_of_mem_starts hstart hpos
      have hsame := hr.raw hpos
      rw [whole, stateOf?_style, (hrest.reach hE).noted (by omega), ← hline, hraw] at hsame
      exact Option.some.inj hsame
    refine ⟨n, hpiece, hrest.ends_of_more ?_⟩
    rw [Cursor.more_iff, hnstop]
    omega

include L in
/-- A run from a line start to a line start, or to the end of the text, says what the whole
run says. -/
theorem piece {start length : Nat} {token : Token} {raw : Int} (ht : t.size < limit)
    (hstart : start ∈ t.starts) (hr : Resumes E t start token raw) (hlen : start + length ≤ t.size)
    (hstop : start + length ∈ t.starts ∨ start + length = t.size) :
    (∀ p, start ≤ p → p < start + length →
        (E.style t start length token raw).tokenAt? p = (E.whole t).tokenAt? p)
      ∧ ∀ line, t.lineOf start ≤ line → line < t.lineAt (Cursor.start t start length).stop →
          ∃ state, (E.whole t).stateOf? line = some state
            ∧ (E.style t start length token raw).stateOf? line = some state := by
  generalize hk : (Cursor.start t start length).stop = k
  have hle : start + length ≤ k := hk ▸ Cursor.le_stop_start
  by_cases hlt : start < k
  · have hkstop : t.IsStop k := hk ▸ Cursor.isStop_stop_start hstop (by omega)
    obtain ⟨m, hlike, hends⟩ :=
      L.like_piece hE ht hstart hr hlen hkstop hlt (Nat.le_of_eq hk.symm)
    have hpos := (L.abreast hlike).cursor.pos
    rw [hE.pos_start] at hpos
    obtain ⟨n, n', hlike', hn, ⟨harr, hrest⟩, ⟨-, hrest'⟩⟩ :=
      L.lockstep hE hends (hE.ends_start t start length token raw) hlike (by omega)
    have habreast := L.abreast hlike'
    have hn' : (E.scan n').pos = k := by rw [habreast.cursor.pos, hn]
    have hdone : (E.scan n').more = false := by
      simp only [Cursor.more, decide_eq_false_iff_not]
      rw [stop_of_rest hE hrest', hk]
      omega
    have hwhole : (E.scan n).stop = t.size + 1 := by
      rw [stop_of_rest hE hrest, Cursor.stop_start_of_eq (Nat.zero_add _)]
    constructor
    · intro p hp hlt
      have hs : p < t.size := by omega
      rw [tokenAt?_style hE token raw hlen hlt, whole, tokenAt?_style hE .plain 0 (by omega) (by omega),
        hrest'.look_of_not_more hE hdone (by omega) hs, habreast.look p hp (by omega) hs,
        L.settled hE hlike' harr hrest hwhole hp (by omega) hs]
    · intro line hline hlt
      rw [whole, stateOf?_style, stateOf?_style]
      apply L.noted_of_like hE hlike' hrest hrest' hline
      rw [habreast.cursor.sync.line, hn]
      exact hlt
  · have heq : k = start := by omega
    constructor
    · intro p hp hlt
      omega
    · intro line hline hlt
      rw [heq, t.lineAt_of_le (by omega)] at hlt
      omega

end Resumable

end Engine

end Restyle
