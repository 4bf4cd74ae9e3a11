/-
Restyle.Proofs.Haskell.Comments — block comments nest.

`nesting` reads bytes from the left and counts: an opener adds one, a
closer takes one away, and a byte belongs to one of them only.
`EndsComment` says where that count comes to zero first. The lexer reads
characters and counts in its depth. Both come to the same because the
brackets are ASCII and the rest of a longer character is not.

While the comment that was opened at `p` is open, the machine is
`InComment`: its depth is the count so far, which was never zero, and
the depths of the lines left behind are the counts where they end. A round
keeps that or ends the comment (`InComment.step_cases`), and the run
paints it as one span (`InComment.exists_end`).
-/
import Restyle.Proofs.Haskell.LineEnds
import Restyle.Proofs.Text.LineRanges

namespace Restyle

namespace Haskell

/-! ## 1. Counting brackets -/

/-- Depth of nested comments behind some bytes. -/
def nesting : Nat → List UInt8 → Nat
  | depth, a :: b :: rest =>
    if a.toNat = '\x7b'.toNat ∧ b.toNat = '-'.toNat then nesting (depth + 1) rest
    else if a.toNat = '-'.toNat ∧ b.toNat = '\x7d'.toNat then nesting (depth - 1) rest
    else nesting depth (b :: rest)
  | depth, _ => depth

/-- A bracket that opens a comment stands at `p`. -/
def OpensComment (t : Text) (p : Nat) : Prop :=
  t.byteAt p = '\x7b'.toNat ∧ t.byteAt (p + 1) = '-'.toNat
  deriving Decidable

/-- A bracket that closes a comment stands at `p`. -/
def ClosesComment (t : Text) (p : Nat) : Prop :=
  t.byteAt p = '-'.toNat ∧ t.byteAt (p + 1) = '\x7d'.toNat

/-- The comment whose opener stands before `start` ends at `stop`: where the count first comes
to zero, or at the end of the text if it never does. -/
structure EndsComment (t : Text) (start stop : Nat) : Prop where
  le : start ≤ stop
  le_size : stop ≤ t.size
  before : ∀ x < stop, nesting 1 (t.bytesIn start x) ≠ 0
  closed : nesting 1 (t.bytesIn start stop) = 0 ∨ stop = t.size

section

variable {t : Text} {p : Nat}

section

variable (h : OpensComment t p ∨ ClosesComment t p)
include h

theorem byteAt_of_bracket : (t.byteAt p = 123 ∨ t.byteAt p = 45)
    ∧ (t.byteAt (p + 1) = 45 ∨ t.byteAt (p + 1) = 125) :=
  h.elim (fun ho => ⟨Or.inl ho.1, Or.inl ho.2⟩) fun hc => ⟨Or.inr hc.1, Or.inr hc.2⟩

theorem succ_lt_size_of_bracket : p + 1 < t.size := by
  have hsigns := byteAt_of_bracket h
  exact t.lt_size_of_byteAt (by omega)

/-- No line ends in a bracket. -/
theorem lineEndsAt_of_bracket {x : Nat} (hle : p ≤ x) (hlt : x < p + 2) :
    t.lineEndsAt x = false := by
  have hs := succ_lt_size_of_bracket h
  have hsigns := byteAt_of_bracket h
  have hbyte : t.byteAt x ≠ 10 ∧ t.byteAt x ≠ 13 := by
    obtain rfl | rfl : x = p ∨ x = p + 1 := by omega
    · omega
    · omega
  simp [Text.lineEndsAt, Text.breaksAfter, hbyte.1, hbyte.2]
  omega

end

theorem OpensComment.not_closes (h : OpensComment t p) : ¬ClosesComment t p := by
  intro h'
  rw [ClosesComment, h.1] at h'
  exact absurd h'.1 (by decide)

/-- Brackets are made of signs. -/
theorem not_bracket_of_le_byteAt (h : 128 ≤ t.byteAt p) :
    ¬OpensComment t p ∧ ¬ClosesComment t p := by
  constructor
  · intro ho
    rw [ho.1] at h
    exact absurd h (by decide)
  · intro hc
    rw [hc.1] at h
    exact absurd h (by decide)

variable {depth stop : Nat}

/-- One byte makes no bracket. -/
theorem nesting_of_short (h : stop ≤ p + 1 ∨ t.size ≤ p + 1) :
    nesting depth (t.bytesIn p stop) = depth := by
  have hlength : (t.bytesIn p stop).length ≤ 1 := by
    simp only [Text.bytesIn, Text.size, Array.length_toList, Array.size_extract] at h ⊢
    omega
  generalize t.bytesIn p stop = bytes at hlength
  rcases bytes with _ | ⟨a, _ | ⟨b, rest⟩⟩
  · rfl
  · rfl
  · rw [List.length_cons, List.length_cons] at hlength
    omega

theorem nesting_of_two_le (h : p + 2 ≤ stop) (hs : p + 1 < t.size) :
    nesting depth (t.bytesIn p stop)
      = if t.byteAt p = '\x7b'.toNat ∧ t.byteAt (p + 1) = '-'.toNat then
          nesting (depth + 1) (t.bytesIn (p + 2) stop)
        else if t.byteAt p = '-'.toNat ∧ t.byteAt (p + 1) = '\x7d'.toNat then
          nesting (depth - 1) (t.bytesIn (p + 2) stop)
        else nesting depth (t.bytesIn (p + 1) stop) := by
  obtain ⟨x, hx, hfirst⟩ := t.bytesIn_cons (show p < stop by omega) (by omega)
  obtain ⟨y, hy, hsecond⟩ := t.bytesIn_cons (show p + 1 < stop by omega) hs
  rw [hfirst, hsecond, nesting, hx, hy]

theorem nesting_of_opens (h : OpensComment t p) (hstop : p + 2 ≤ stop) :
    nesting depth (t.bytesIn p stop) = nesting (depth + 1) (t.bytesIn (p + 2) stop) := by
  rw [nesting_of_two_le hstop (succ_lt_size_of_bracket (Or.inl h))]
  exact if_pos h

theorem nesting_of_closes (h : ClosesComment t p) (hstop : p + 2 ≤ stop) :
    nesting depth (t.bytesIn p stop) = nesting (depth - 1) (t.bytesIn (p + 2) stop) := by
  have hno : ¬OpensComment t p := fun ho => ho.not_closes h
  rw [nesting_of_two_le hstop (succ_lt_size_of_bracket (Or.inr h)), if_neg (by exact hno)]
  exact if_pos h

theorem nesting_of_neither (ho : ¬OpensComment t p) (hc : ¬ClosesComment t p) :
    nesting depth (t.bytesIn p stop) = nesting depth (t.bytesIn (p + 1) stop) := by
  by_cases hshort : stop ≤ p + 1 ∨ t.size ≤ p + 1
  · rw [nesting_of_short hshort, nesting_of_short (by omega)]
  · rw [nesting_of_two_le (by omega) (by omega), if_neg (by exact ho), if_neg (by exact hc)]

/-- A character that starts no bracket may be passed, or a part of it. -/
theorem nesting_of_charAt (ho : ¬OpensComment t p) (hc : ¬ClosesComment t p) {n : Nat}
    (hn : n ≤ (t.charAt p).width) :
    nesting depth (t.bytesIn p stop) = nesting depth (t.bytesIn (p + n) stop) := by
  induction n with
  | zero => rfl
  | succ n ih =>
    rw [ih (by omega)]
    by_cases hzero : n = 0
    · subst hzero
      exact nesting_of_neither ho hc
    · have hinside := t.le_byteAt_of_inside (p := p) (q := p + n) (by omega) (by omega)
      obtain ⟨ho', hc'⟩ := not_bracket_of_le_byteAt hinside
      exact nesting_of_neither ho' hc'

end

namespace Machine

variable {t : Text} {m r : Machine t} {p x : Nat}

/-! ## 2. In a comment -/

/-- A move over a bracket. -/
theorem over_bracket {s : Scanner t} (hsync : s.InSync) (hstop : s.stop = t.size + 1)
    (hb : OpensComment t s.pos ∨ ClosesComment t s.pos) :
    (s.forwardBy 2).InSync ∧ (s.forwardBy 2).pos = s.pos + 2 := by
  have hs := succ_lt_size_of_bracket hb
  have hsigns := byteAt_of_bracket hb
  refine Scanner.forwardBy_of_byteAt_lt 2 hsync (by omega) fun i hi => ?_
  obtain rfl | rfl : i = 0 ∨ i = 1 := by omega
  · rw [Nat.add_zero]
    omega
  · omega

/-- The comment opened at `p` is open, at the depth that the count has come to; so far it was
never zero, and the lines left behind have noted it where they end. -/
structure InComment (p : Nat) (m : Machine t) : Prop where
  sync : m.scan.InSync
  stop : m.scan.stop = t.size + 1
  token : m.scan.token = .blockComment
  mark : m.scan.mark = p
  size : p + 2 ≤ t.size
  le_pos : p + 2 ≤ m.scan.pos
  depth : 0 < m.depth
  rest : ∀ x, m.scan.pos ≤ x →
    nesting 1 (t.bytesIn (p + 2) x) = nesting m.depth (t.bytesIn m.scan.pos x)
  before : ∀ x < m.scan.pos, nesting 1 (t.bytesIn (p + 2) x) ≠ 0
  noted : ∀ x, p + 2 ≤ x → x < m.scan.pos → t.lineEndsAt x = true → ∃ mode,
    m.scan.noted (t.lineOf x) = some (LineState.pack ⟨mode, nesting 1 (t.bytesIn (p + 2) x)⟩)

namespace InComment

variable (h : InComment p m)
include h

theorem nesting_pos : nesting 1 (t.bytesIn (p + 2) m.scan.pos) = m.depth := by
  rw [h.rest m.scan.pos (Nat.le_refl _)]
  exact nesting_of_short (by omega)

/-- A line that has ended behind the cursor is left behind. -/
theorem lineOf_lt (hx : x < m.scan.pos) (hend : t.lineEndsAt x = true) :
    t.lineOf x < m.scan.line := by
  have hpos := h.sync.pos_le
  have hle := t.lineAt_mono (p := x + 1) (q := m.scan.pos) hx
  rw [t.lineAt_succ (by omega), hend, if_pos rfl, t.lineAt_of_le (by omega)] at hle
  rw [h.sync.line]
  omega

theorem step_eq (g : Settings) : m.step g = m.noteEnd.blockComment := by
  have hcont : continues m.scan = false := continues_eq_false (by rw [h.token]; decide)
  rw [Machine.step_eq, hcont, if_neg Bool.false_ne_true, stepToken, token_noteEnd, h.token]

/-- What a move has to do for the comment to stay open. -/
theorem move (hreach : m.scan.Reach r.scan) (hsync : r.scan.InSync)
    (htoken : r.scan.token = .blockComment) (hmark : r.scan.mark = m.scan.mark)
    (hdepth : 0 < r.depth)
    (hover : ∀ x, m.scan.pos ≤ x → x < r.scan.pos →
      nesting m.depth (t.bytesIn m.scan.pos x) = m.depth)
    (hrest : ∀ x, r.scan.pos ≤ x →
      nesting m.depth (t.bytesIn m.scan.pos x) = nesting r.depth (t.bytesIn r.scan.pos x))
    (hline : ∀ x, m.scan.pos ≤ x → x < r.scan.pos → t.lineEndsAt x = true → x = m.scan.pos
      ∧ r.scan.noted (t.lineOf x) = some (LineState.pack ⟨m.mode, m.depth⟩)) :
    InComment p r where
  sync := hsync
  stop := hreach.stop.trans h.stop
  token := htoken
  mark := hmark.trans h.mark
  size := h.size
  le_pos := Nat.le_trans h.le_pos hreach.pos_le
  depth := hdepth
  rest x hx := by rw [h.rest x (Nat.le_trans hreach.pos_le hx), hrest x hx]
  before x hx := by
    by_cases hbefore : x < m.scan.pos
    · exact h.before x hbefore
    · rw [h.rest x (by omega), hover x (by omega) hx]
      exact Nat.ne_of_gt h.depth
  noted x hle hx hend := by
    by_cases hbefore : x < m.scan.pos
    · rw [hreach.noted (h.lineOf_lt hbefore hend)]
      exact h.noted x hle hbefore hend
    · obtain ⟨rfl, hnoted⟩ := hline x (by omega) hx hend
      rw [h.nesting_pos]
      exact ⟨m.mode, hnoted⟩

theorem noteEnd : InComment p m.noteEnd := by
  have hmark : m.noteEnd.scan.mark = m.scan.mark := by rw [Machine.noteEnd]; split <;> rfl
  have hreach : m.scan.Reach m.noteEnd.scan := by
    rw [Machine.noteEnd]
    split
    · exact reach_saveLine m
    · exact .refl
  refine h.move hreach ?_ ?_ hmark ?_ ?_ ?_ ?_
  · rw [toCursor_noteEnd]; exact h.sync
  · rw [token_noteEnd]; exact h.token
  · rw [depth_noteEnd]; exact h.depth
  all_goals
    rw [toCursor_noteEnd]
    intro x hx
  · omega
  · rw [depth_noteEnd]
  · omega

/-- A bracket that leaves the comment open. -/
theorem bracket (hb : OpensComment t m.scan.pos ∨ ClosesComment t m.scan.pos) {depth : Nat}
    (hdepth : 0 < depth)
    (hcount : ∀ x, m.scan.pos + 2 ≤ x → nesting m.depth (t.bytesIn m.scan.pos x)
      = nesting depth (t.bytesIn (m.scan.pos + 2) x)) :
    InComment p { m.map (·.forwardBy 2) with depth := depth } := by
  obtain ⟨hsync, hpos⟩ := over_bracket h.sync h.stop hb
  refine h.move (Scanner.Reach.refl.forwardBy 2) hsync h.token rfl hdepth ?_ ?_ ?_
  all_goals
    dsimp only [map]
    rw [hpos]
  · exact fun x _ hlt => nesting_of_short (by omega)
  · exact hcount
  · intro x hle hlt hend
    rw [lineEndsAt_of_bracket hb hle hlt] at hend
    cases hend

/-- A character that starts no bracket, maybe the end of a line. -/
theorem pass (hmore : m.scan.more = true) (ho : ¬OpensComment t m.scan.pos)
    (hc : ¬ClosesComment t m.scan.pos) (hready : m.Ready) : InComment p (m.map (·.forward)) := by
  have hle := h.sync.pos_le_size hmore
  have hpos : m.scan.forward.pos = m.scan.pos + (t.charAt m.scan.pos).width := by
    rw [Scanner.toCursor_forward, h.sync.pos_forward hmore]
  have hover (x : Nat) (hx : m.scan.pos ≤ x) (hlt : x ≤ m.scan.forward.pos) (stop : Nat) :
      nesting m.depth (t.bytesIn m.scan.pos stop) = nesting m.depth (t.bytesIn x stop) := by
    obtain ⟨n, rfl⟩ := Nat.exists_eq_add_of_le hx
    exact nesting_of_charAt ho hc (by omega)
  refine h.move Scanner.Reach.refl.forward (h.sync.forward hmore) h.token rfl h.depth ?_ ?_ ?_
  · intro x hx hlt
    have hlt : x < m.scan.forward.pos := hlt
    rw [hover x hx (by omega) x]
    exact nesting_of_short (by omega)
  · intro x hx
    exact hover _ (m.scan.toCursor.pos_le_forward) (Nat.le_refl _) x
  · intro x hx hlt hend
    have hlt : x < m.scan.forward.pos := hlt
    have heq : x = m.scan.pos := by
      by_contra hne
      rw [t.lineEndsAt_eq_false_of_inside (p := m.scan.pos) (by omega) (by omega)] at hend
      cases hend
    subst heq
    have hsaved := hready (h.sync.atLineEnd.trans hend)
    rw [Saved, h.sync.line, t.lineAt_of_le hle] at hsaved
    exact ⟨rfl, hsaved⟩

section

variable (hc : ClosesComment t m.scan.pos) (hlast : m.depth - 1 = 0)
include hc hlast

/-- The count comes to zero behind the bracket that closes the comment. -/
theorem nesting_close : nesting 1 (t.bytesIn (p + 2) (m.scan.pos + 2)) = 0 := by
  rw [h.rest _ (Nat.le_add_right ..), nesting_of_closes hc (Nat.le_refl _),
    nesting_of_short (by omega)]
  exact hlast

theorem endsComment : EndsComment t (p + 2) (m.scan.pos + 2) where
  le := Nat.le_trans h.le_pos (Nat.le_add_right ..)
  le_size := succ_lt_size_of_bracket (Or.inr hc)
  closed := Or.inl (h.nesting_close hc hlast)
  before x hx := by
    by_cases hbefore : x < m.scan.pos
    · exact h.before x hbefore
    · rw [h.rest x (by omega), nesting_of_short (by omega)]
      exact Nat.ne_of_gt h.depth

omit hlast in
theorem mem_spans_close :
    ⟨p, m.scan.pos + 2, .blockComment⟩ ∈ ((m.scan.forwardBy 2).switch .plain).spans := by
  have hpos := (over_bracket h.sync h.stop (Or.inr hc)).2
  have hs : m.scan.pos + 2 ≤ t.size := succ_lt_size_of_bracket (Or.inr hc)
  have hle := h.le_pos
  have hmem := Scanner.mem_spans_switch (s := m.scan.forwardBy 2) .plain (by
    rw [Scanner.mark_forwardBy, h.mark, hpos]
    omega)
  rwa [Scanner.mark_forwardBy, h.mark, hpos, Nat.min_eq_left hs, Scanner.token_forwardBy,
    h.token] at hmem

end

/-- A round in an open comment leaves it open, or passes the bracket that closes it. -/
theorem step_cases (g : Settings) (hmore : m.scan.more = true) : InComment p (m.step g)
    ∨ ClosesComment t m.scan.pos ∧ m.depth - 1 = 0
      ∧ ⟨p, m.scan.pos + 2, .blockComment⟩ ∈ (m.step g).scan.spans := by
  have hn := h.noteEnd
  have hready := m.ready_noteEnd
  have hpos : m.noteEnd.scan.pos = m.scan.pos := by rw [toCursor_noteEnd]
  rw [h.step_eq, ← hpos, ← m.depth_noteEnd]
  have hmore : m.noteEnd.scan.more = true := by simpa using hmore
  generalize m.noteEnd = n at hn hready hmore ⊢
  have hopens := hn.sync.seesPair_iff (a := '\x7b') (b := '-') (by decide) (by decide)
  have hcloses := hn.sync.seesPair_iff (a := '-') (b := '\x7d') (by decide) (by decide)
  rw [blockComment]
  split
  · rename_i hsees
    have ho : OpensComment t n.scan.pos := hopens.1 hsees
    exact Or.inl (hn.bracket (Or.inl ho) (Nat.succ_pos _) fun x hx => nesting_of_opens ho hx)
  · rename_i hno
    split
    · rename_i hsees
      have hc : ClosesComment t n.scan.pos := hcloses.1 hsees
      dsimp only
      split
      · rename_i hlast
        exact Or.inr ⟨hc, hlast, hn.mem_spans_close hc⟩
      · rename_i hopen
        exact Or.inl (hn.bracket (Or.inr hc) (Nat.pos_of_ne_zero hopen)
          fun x hx => nesting_of_closes hc hx)
    · rename_i hno'
      exact Or.inl (hn.pass hmore (mt hopens.2 hno) (mt hcloses.2 hno') hready)

omit h in
/-- The run paints the comment as one span, up to where it ends, and notes the count for every
line end in it. -/
theorem exists_end (g : Settings) {e : Machine t} (h : InComment p m)
    (hends : (engine g).Ends m e) : ∃ stop, EndsComment t (p + 2) stop
      ∧ ⟨p, stop, .blockComment⟩ ∈ e.scan.finish.spans
      ∧ ∀ x, p + 2 ≤ x → x ≤ stop → t.lineEndsAt x = true →
        nesting 1 (t.bytesIn (p + 2) x) ≠ 0 → ∃ mode, e.scan.noted (t.lineOf x)
          = some (LineState.pack ⟨mode, nesting 1 (t.bytesIn (p + 2) x)⟩) := by
  rcases hends.exists_last (P := InComment p) h with h | ⟨r, -, hmore, h, hlast, hrest⟩
  · -- no bracket has closed it up to the end of the text
    have hdone : e.scan.stop ≤ e.scan.pos := hends.stop_le
    rw [h.stop] at hdone
    have hsize := h.size
    refine ⟨t.size, { le := hsize, le_size := Nat.le_refl _, closed := Or.inr rfl
                      before := fun x hx => h.before x (by omega) }, ?_, ?_⟩
    · have hmem := Scanner.mem_spans_finish (s := e.scan) (by
        rw [h.mark]
        omega)
      rwa [h.mark, h.token, Nat.min_eq_right (by omega)] at hmem
    · intro x hle hx hend _
      exact h.noted x hle (by omega) hend
  · obtain ⟨hc, hzero, hmem⟩ := (h.step_cases g hmore).resolve_left hlast
    have hround : r.scan.Reach (r.step g).scan := (r.moves_step g).reach
    have hreach : (r.step g).scan.Reach e.scan := (sound g).reach_ends hrest
    refine ⟨_, h.endsComment hc hzero, hreach.finish.mem_spans hmem, ?_⟩
    intro x hle hx hend hopen
    have hlt : x < r.scan.pos := by
      by_contra hge
      by_cases hafter : x = r.scan.pos + 2
      · rw [hafter] at hopen
        exact hopen (h.nesting_close hc hzero)
      · rw [lineEndsAt_of_bracket (Or.inr hc) (x := x) (by omega) (by omega)] at hend
        cases hend
    rw [(hround.trans hreach).noted (h.lineOf_lt hlt hend)]
    exact h.noted x hle hlt hend

end InComment

/-! ## 3. Where a comment starts -/

/-- Outside every token an opener starts a comment, unless a pragma starts there. -/
theorem plain_of_opens (o : Options) (hsync : m.scan.InSync) (ho : OpensComment t m.scan.pos)
    (hno : t.byteAt (m.scan.pos + 2) ≠ '#'.toNat) : m.plain o
      = { m.map fun s => (s.switch .blockComment).forwardBy 2 with depth := m.depth + 1 } := by
  have hpair := (hsync.seesPair_iff (a := '\x7b') (b := '-') (by decide) (by decide)).2 ho
  have hch : m.scan.ch = '\x7b'.toNat := by
    rw [Cursor.seesPair, Bool.and_eq_true] at hpair
    exact beq_iff_eq.1 hpair.1
  have hpragma : m.scan.seesText pragmaOpen = false := by
    have hthird : (t.byteAt (m.scan.pos + 2) == '#'.toNat) = false := beq_eq_false_iff_ne.2 hno
    simp [Cursor.seesText, pragmaOpen, Cursor.ahead] at hthird ⊢
    exact fun _ _ => hthird
  have hdashes : m.scan.seesPair '-' '-' = false := by
    rw [Cursor.seesPair, Cursor.sees, hch]
    rfl
  rw [plain]
  dsimp only
  rw [hch, if_neg (by decide), hpragma, if_neg Bool.false_ne_true, hdashes,
    if_neg Bool.false_ne_true, hpair, if_pos rfl]

theorem step_of_opens (g : Settings) (hsync : m.scan.InSync) (htoken : m.scan.token = .plain)
    (ho : OpensComment t m.scan.pos) (hno : t.byteAt (m.scan.pos + 2) ≠ '#'.toNat) : m.step g
      = { m.map fun s => (s.switch .blockComment).forwardBy 2 with depth := m.depth + 1 } := by
  have hch : m.scan.ch = '\x7b'.toNat := beq_iff_eq.1 ((hsync.sees_iff (by decide)).2 ho.1)
  rw [step_of_token (hsync.atLineEnd_eq_false (by rw [hch]; decide)) (by rw [htoken]; decide),
    stepToken, htoken]
  exact plain_of_opens g.options hsync ho hno

/-- On its way through the whole text the lexer sees what the text has where it stands. -/
theorem inSync_of_comes {g : Settings} {q : Machine t}
    (hq : (engine g).Comes (start t 0 t.size .plain (LineState.unpack 0)) q)
    (hmore : q.scan.more = true) :
    q.scan.InSync ∧ q.scan.mark ≤ q.scan.pos ∧ q.scan.stop = t.size + 1 := by
  have hlike : Like 0 (t.size + 1) q q := (resumable g).like_self_of_comes (sound g) hq hmore
  have hsync := hlike.scan.cursor.sync
  have hmark := hlike.scan.mark_le
  exact ⟨hsync, by omega, Nat.le_antisymm hsync.stop_le hlike.scan.cursor.stop⟩

/-- A round that starts at such an opener outside every token opens a comment there. -/
theorem inComment_step (g : Settings) {q : Machine t}
    (hq : (engine g).Comes (start t 0 t.size .plain (LineState.unpack 0)) q)
    (hmore : q.scan.more = true) (htoken : q.scan.token = .plain) (ho : OpensComment t q.scan.pos)
    (hno : t.byteAt (q.scan.pos + 2) ≠ '#'.toNat) : InComment q.scan.pos (q.step g) := by
  obtain ⟨hsync, hmark, hstop⟩ := inSync_of_comes hq hmore
  have hbalanced : q.Balanced := hq.invariant (P := Balanced) (fun _ h => balanced_step g h)
    (balanced_of_token rfl (by show Token.plain ≠ _; decide))
  have hdepth := hbalanced.depth_eq_zero (by rw [htoken]; decide)
  have hs : q.scan.pos + 2 ≤ t.size := succ_lt_size_of_bracket (Or.inl ho)
  have hover := over_bracket (s := q.scan.switch .blockComment) (by simpa using hsync)
    (by simpa using hstop) (by simpa using Or.inl ho)
  rw [Scanner.toCursor_switch] at hover
  obtain ⟨hsync', hpos⟩ := hover
  rw [step_of_opens g hsync htoken ho hno, hdepth]
  refine { sync := hsync', stop := ?_, token := Scanner.token_forwardBy .., mark := ?_, size := hs
           le_pos := Nat.le_of_eq hpos.symm, depth := Nat.one_pos, rest := ?_, before := ?_
           noted := ?_ }
  · have hreach : q.scan.Reach ((q.scan.switch .blockComment).forwardBy 2) :=
      (Scanner.Reach.refl.switch _).forwardBy 2
    exact hreach.stop.trans hstop
  · show ((q.scan.switch .blockComment).forwardBy 2).mark = _
    rw [Scanner.mark_forwardBy, Scanner.mark_switch]
    omega
  all_goals
    dsimp only [map]
    rw [hpos]
  · exact fun x _ => rfl
  · intro x hx
    rw [nesting_of_short (by omega)]
    exact Nat.one_ne_zero
  · intro x hle hx
    omega

end Machine

/-! ## 4. The whole run -/

/-- The lexer, on its way through the whole text, comes to `p` outside every token. -/
def Meets (g : Settings) (t : Text) (p : Nat) : Prop :=
  ∃ q : Machine t, (engine g).Comes (Machine.start t 0 t.size .plain (LineState.unpack 0)) q
    ∧ q.scan.more = true ∧ q.scan.token = .plain ∧ q.scan.pos = p

/-- What a whole run says of a comment: one span to where it ends, and for every line end in
it the count there. -/
theorem exists_endsComment (g : Settings) {t : Text} {p : Nat} (hp : Meets g t p)
    (ho : OpensComment t p) (hno : t.byteAt (p + 2) ≠ '#'.toNat) :
    ∃ stop, EndsComment t (p + 2) stop ∧ ⟨p, stop, .blockComment⟩ ∈ ((engine g).whole t).spans
      ∧ ∀ x, p + 2 ≤ x → x ≤ stop → t.lineEndsAt x = true →
        nesting 1 (t.bytesIn (p + 2) x) ≠ 0 → ∃ mode, ((engine g).whole t).stateOf? (t.lineOf x)
          = some (LineState.pack ⟨mode, nesting 1 (t.bytesIn (p + 2) x)⟩) := by
  obtain ⟨q, hq, hmore, htoken, rfl⟩ := hp
  have hin : Machine.InComment _ (Machine.step g q) :=
    Machine.inComment_step g hq hmore htoken ho hno
  obtain ⟨stop, hend, hmem, hlines⟩ :=
    hin.exists_end g (((sound g).ends_start t 0 t.size .plain 0).of_comes (hq.round hmore))
  refine ⟨stop, hend, hmem, ?_⟩
  intro x hle hx hlast hopen
  obtain ⟨mode, hnoted⟩ := hlines x hle hx hlast hopen
  exact ⟨mode, (Scanner.stateOf?_finish _ _).trans hnoted⟩

end Haskell

end Restyle
