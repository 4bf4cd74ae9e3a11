/-
Restyle.Proofs.Haskell.Operators — runs of operator characters.

Outside every token the lexer takes a run of operator characters as one
span. Two ways lead there. It opens an operator at the first sign, or, at
two dashes, a line comment, which becomes an operator at the first sign
that is no dash. Either way the style is chosen once, by the sign under
the cursor then: the first one, or the first one behind the dashes
(`Decides`). A run of dashes before a colon is so styled by the colon.

A machine that is `AtOperator` has come to that sign, and its next round
paints the run (`AtOperator.mem_spans`).
-/
import Restyle.Proofs.Haskell.Comments

namespace Restyle

namespace Haskell

/-! ## 1. Runs and their style -/

/-- Operator characters stand from `start` up to `stop`, and no other behind them. -/
structure OperatorRun (t : Text) (start stop : Nat) : Prop where
  lt : start < stop
  inside : ∀ x, start ≤ x → x < stop → isOperatorChar (t.byteAt x) = true
  behind : isOperatorChar (t.byteAt stop) = false

/-- Two or more dashes and nothing else, which start a line comment. -/
def DashesOnly (t : Text) (start stop : Nat) : Prop :=
  start + 2 ≤ stop ∧ ∀ x, start ≤ x → x < stop → t.byteAt x = '-'.toNat

/-- A hash at the start of a line starts a directive, but not in a foreign declaration. -/
def OpensDirective (t : Text) (mode : Mode) (p : Nat) : Prop :=
  t.byteAt p = '#'.toNat ∧ t.lineStart (t.lineOf p) = p ∧ mode ≠ .foreignDecl
  deriving Decidable

/-- The style of a run by its first sign: a colon makes it a constructor operator, unless it is
all of `::`. -/
def operatorStyle (t : Text) (start stop : Nat) : Token :=
  if t.byteAt start = ':'.toNat ∧ ¬(t.byteAt (start + 1) = ':'.toNat ∧ stop = start + 2) then
    .capital
  else .operator

/-- The sign that decides on the style of a run: the first one, or the first one behind two or
more dashes. -/
def Decides (t : Text) (start d : Nat) : Prop :=
  if t.byteAt start = '-'.toNat ∧ t.byteAt (start + 1) = '-'.toNat then
    start + 2 ≤ d ∧ (∀ x, start ≤ x → x < d → t.byteAt x = '-'.toNat) ∧ t.byteAt d ≠ '-'.toNat
  else d = start

section

variable {t : Text} {start stop d : Nat}

theorem lt_size_of_isOperatorChar {x : Nat} (h : isOperatorChar (t.byteAt x) = true) :
    x < t.size := by
  refine t.lt_size_of_byteAt fun hzero => ?_
  rw [hzero] at h
  exact absurd h (by decide)

theorem OperatorRun.stop_le (h : OperatorRun t start stop) : stop ≤ t.size := by
  have hlt := h.lt
  have hlast := lt_size_of_isOperatorChar (h.inside (stop - 1) (by omega) (by omega))
  omega

/-- What is left of a run is one. -/
theorem OperatorRun.tail (h : OperatorRun t start stop) (hle : start ≤ d) (hlt : d < stop) :
    OperatorRun t d stop where
  lt := hlt
  inside x hx := h.inside x (Nat.le_trans hle hx)
  behind := h.behind

/-- Whether a run goes on behind two colons shows in the byte behind them. -/
theorem OperatorRun.stop_eq_iff (h : OperatorRun t start stop)
    (hcolon : t.byteAt (start + 1) = ':'.toNat) :
    stop = start + 2 ↔ isOperatorChar (t.byteAt (start + 2)) = false := by
  have hlt := h.lt
  have hnext : stop ≠ start + 1 := by
    rintro rfl
    have hbehind := h.behind
    rw [hcolon] at hbehind
    exact absurd hbehind (by decide)
  constructor
  · rintro rfl
    exact h.behind
  · intro hno
    by_contra hne
    rw [h.inside (start + 2) (by omega) (by omega)] at hno
    cases hno

/-- The sign that decides is one of the run, if that is no line comment. -/
theorem Decides.lt (h : Decides t start d) (hrun : OperatorRun t start stop)
    (hno : ¬DashesOnly t start stop) : start ≤ d ∧ d < stop := by
  have hlt := hrun.lt
  rw [Decides] at h
  split at h
  · obtain ⟨hle, hdashes, -⟩ := h
    refine ⟨by omega, ?_⟩
    by_contra hge
    refine hno ⟨?_, fun x hx hlt => hdashes x hx (by omega)⟩
    by_contra hshort
    obtain rfl : stop = start + 1 := by omega
    have hbehind := hrun.behind
    rw [hdashes (start + 1) (by omega) (by omega)] at hbehind
    exact absurd hbehind (by decide)
  · subst h
    exact ⟨Nat.le_refl _, hlt⟩

/-- The first sign of the run gives it the style as well, unless a colon follows the dashes. -/
theorem Decides.operatorStyle_eq (h : Decides t start d)
    (hno : d = start ∨ t.byteAt d ≠ ':'.toNat) :
    operatorStyle t d stop = operatorStyle t start stop := by
  rw [Decides] at h
  split at h
  · rename_i hdashes
    have hne : t.byteAt start ≠ ':'.toNat := by
      rw [hdashes.1]
      decide
    have hne' : t.byteAt d ≠ ':'.toNat := by
      rcases hno with rfl | hno
      · omega
      · exact hno
    rw [operatorStyle, operatorStyle, if_neg fun hc => hne' hc.1, if_neg fun hc => hne hc.1]
  · rw [h]

end

namespace Machine

variable {t : Text} {s : Scanner t} {m : Machine t} {p stop : Nat}

/-! ## 2. Over a run -/

/-- Outside ASCII there are no signs, so a class of them can be told by bytes. -/
theorem class_ch {c : Nat → Bool} (hc : ∀ a, c a = true → Scanner.isSign a = true)
    (h : s.InSync) : c s.ch = c (t.byteAt s.pos) := by
  rw [h.ch]
  exact Scanner.class_of_kind_eq (Scanner.kind_code t s.pos) hc

/-- A scanner moves over signs of a class to the first byte that is none. -/
theorem forwardWhile_spec {c : Nat → Bool} (hc : ∀ a, c a = true → Scanner.isSign a = true)
    (hbehind : c (t.byteAt stop) = false) (fuel : Nat) : ∀ {s : Scanner t}, s.InSync →
    stop < s.stop → s.pos ≤ stop → stop - s.pos < fuel →
    (∀ x, s.pos ≤ x → x < stop → c (t.byteAt x) = true) →
    (s.forwardWhile c fuel).pos = stop ∧ s.Moved (s.forwardWhile c fuel) := by
  induction fuel with
  | zero => exact fun _ _ _ hfuel _ => absurd hfuel (Nat.not_lt_zero _)
  | succ fuel ih =>
    intro s hsync hstop hle hfuel hinside
    rw [Scanner.forwardWhile, class_ch hc hsync]
    rcases Nat.eq_or_lt_of_le hle with heq | hlt
    · rw [heq, hbehind, if_neg Bool.false_ne_true]
      exact ⟨heq, .refl s⟩
    · have hsign := hinside s.pos (Nat.le_refl _) hlt
      have hbyte := (Scanner.isSign_iff.1 (hc _ hsign)).2.2.2
      have hmore : s.more = true := Cursor.more_iff.2 (by omega)
      have hpos : s.forward.pos = s.pos + 1 := hsync.forward_pos_of_byteAt_lt hmore hbyte
      rw [hsign, if_pos rfl]
      obtain ⟨hend, hmoved⟩ := ih (s := s.forward) (hsync.forward hmore)
        (Nat.lt_of_lt_of_eq hstop s.toCursor.forward_stop.symm) (by omega) (by omega)
        fun x hx => hinside x (by omega)
      exact ⟨hend, (Scanner.Moved.refl s).forward.trans hmoved⟩

theorem ch_of_isOperatorChar (hsync : s.InSync) (hop : isOperatorChar (t.byteAt s.pos) = true) :
    s.ch = t.byteAt s.pos ∧ s.atLineEnd = false := by
  have hsign := isSign_of_isOperatorChar hop
  have hch : s.ch = t.byteAt s.pos := by
    rw [hsync.ch, t.charAt_of_byteAt_lt (Scanner.isSign_iff.1 hsign).2.2.2]
  exact ⟨hch, hsync.atLineEnd_eq_false (by rw [hch]; exact Scanner.isSolid_of_isSign hsign)⟩

/-- The machine is in an operator that started at `p`, where the sign stands that gives it its
style. -/
structure AtOperator (p : Nat) (m : Machine t) : Prop where
  sync : m.scan.InSync
  stop : m.scan.stop = t.size + 1
  token : m.scan.token = .operator
  mark : m.scan.mark = p
  le_pos : p ≤ m.scan.pos

namespace AtOperator

variable (h : AtOperator p m) (hrun : OperatorRun t m.scan.pos stop)
include h hrun

/-- The style is the one that the signs from here on have. -/
theorem operatorToken_eq : operatorToken m.scan = operatorStyle t m.scan.pos stop := by
  have hcolon := h.sync.sees_iff (a := ':') (by decide)
  have hpair := h.sync.seesPair_iff (a := ':') (b := ':') (by decide) (by decide)
  have hbeside : m.scan.byteBeside 2 = t.byteAt (m.scan.pos + 2) := by
    rw [Cursor.byteBeside, if_pos (by omega)]
    rfl
  have hiff : (m.scan.sees ':' && !(m.scan.seesNext ':'
        && !isOperatorChar (t.byteAt (m.scan.pos + 2)))) = true
      ↔ t.byteAt m.scan.pos = ':'.toNat
        ∧ ¬(t.byteAt (m.scan.pos + 1) = ':'.toNat ∧ stop = m.scan.pos + 2) := by
    rw [Bool.and_eq_true, hcolon, Bool.not_eq_true', ← Bool.not_eq_true, Bool.and_eq_true,
      Bool.not_eq_true']
    refine and_congr_right fun hfirst => not_congr ?_
    rw [Cursor.seesPair, hcolon.2 hfirst, Bool.true_and] at hpair
    rw [hpair, and_iff_right hfirst]
    exact and_congr_right fun hsecond => (hrun.stop_eq_iff hsecond).symm
  rw [operatorToken, operatorStyle, hbeside]
  exact if_congr hiff rfl rfl

/-- The next round paints the run. -/
theorem mem_spans (g : Settings) :
    ⟨p, stop, operatorStyle t m.scan.pos stop⟩ ∈ (m.step g).scan.spans := by
  have hle := hrun.stop_le
  have hlt := hrun.lt
  have hpos := h.le_pos
  have hstop := h.stop
  have hend := (ch_of_isOperatorChar h.sync (hrun.inside _ (Nat.le_refl _) hlt)).2
  obtain ⟨hskip, hmoved⟩ := forwardWhile_spec (s := m.scan) (c := isOperatorChar)
    (fun _ => isSign_of_isOperatorChar) hrun.behind (m.scan.stop - m.scan.pos + 1) h.sync
    (by omega) (by omega) (by omega) hrun.inside
  have hskip : (m.scan.skip isOperatorChar).pos = stop := hskip
  have hmark : (m.scan.skip isOperatorChar).mark = p := hmoved.mark.trans h.mark
  have hstep : m.step g = m.map operatorRun := by
    rw [step_of_token hend (by rw [h.token]; decide), stepToken, h.token]
  have hmem := Scanner.mem_spans_paintTo_pos (s := m.scan.skip isOperatorChar)
    (operatorToken m.scan) (by rw [hmark, hskip]; omega)
  rw [hmark, hskip, Nat.min_eq_left hle] at hmem
  rw [hstep, ← h.operatorToken_eq hrun]
  show _ ∈ ((m.scan.skip isOperatorChar).paintTo (m.scan.skip isOperatorChar).pos _).spans
  rw [hskip]
  exact hmem

end AtOperator

/-! ## 3. At the first sign -/

/-- An operator character starts nothing else. -/
theorem ne_of_isOperatorChar {c : Nat} (h : isOperatorChar c = true) :
    Ascii.isDigit c = false ∧ c ≠ '\x7b'.toNat ∧ c ≠ Ascii.doubleQuote.toNat
      ∧ c ≠ Ascii.singleQuote.toNat := by
  simp [isOperatorChar, Ascii.oneOf, Ascii.backslash] at h
  simp [Ascii.isDigit, Ascii.doubleQuote, Ascii.singleQuote]
  omega

/-- Outside every token an operator character starts a line comment, a directive or an
operator. -/
theorem plain_of_isOperatorChar (o : Options) (hsync : m.scan.InSync)
    (hop : isOperatorChar (t.byteAt m.scan.pos) = true) : m.plain o
    = if t.byteAt m.scan.pos = '-'.toNat ∧ t.byteAt (m.scan.pos + 1) = '-'.toNat then
        { m.map fun s => (s.switch .lineComment).forwardBy 2 with inDashes := true }
      else if OpensDirective t m.mode m.scan.pos then
        { m.map fun s => (s.switch .directive).forward with mode := .code }
      else { m.map (·.switch .operator) with mode := .code } := by
  obtain ⟨hch, -⟩ := ch_of_isOperatorChar hsync hop
  obtain ⟨hdigit, hbrace, hdouble, hsingle⟩ := ne_of_isOperatorChar hop
  have hsees {a : Char} (ha : t.byteAt m.scan.pos ≠ a.toNat) : m.scan.sees a = false := by
    rw [Cursor.sees, hch]
    exact beq_eq_false_iff_ne.2 ha
  have hpragma : m.scan.seesText pragmaOpen = false := by
    rw [Cursor.seesText, pragmaOpen, List.map_cons, List.zipIdx_cons, List.all_cons]
    exact Bool.and_eq_false_iff.2 (Or.inl (hsees hbrace))
  have hcomment : m.scan.seesPair '\x7b' '-' = false := by
    rw [Cursor.seesPair, hsees hbrace, Bool.false_and]
  have hdirective : (m.scan.atLineStart && m.scan.sees '#' && m.mode != .foreignDecl) = true
      ↔ OpensDirective t m.mode m.scan.pos := by
    have hs := lt_size_of_isOperatorChar hop
    have hstart : m.scan.atLineStart = true ↔ t.lineStart (t.lineOf m.scan.pos) = m.scan.pos := by
      rw [hsync.atLineStart, t.lineStart_lineOf_eq_iff, Text.lineEndsAt,
        decide_eq_false (show ¬t.size ≤ m.scan.pos - 1 by omega), Bool.or_false, Bool.or_eq_true,
        beq_iff_eq]
    rw [Bool.and_eq_true, Bool.and_eq_true, hstart, hsync.sees_iff (by decide), bne_iff_ne,
      OpensDirective, and_left_comm, and_assoc]
  have hdashes := hsync.seesPair_iff (a := '-') (b := '-') (by decide) (by decide)
  rw [plain]
  dsimp only
  rw [hch, hdigit, if_neg Bool.false_ne_true, hpragma, if_neg Bool.false_ne_true, hcomment,
    if_neg Bool.false_ne_true, hsees hdouble, if_neg Bool.false_ne_true, hsees hsingle,
    if_neg Bool.false_ne_true, hop, if_pos rfl]
  exact if_congr hdashes rfl (if_congr hdirective rfl rfl)

/-- The machine is in a line comment that has shown dashes only since it started at `p`. -/
structure InDashes (p : Nat) (m : Machine t) : Prop where
  sync : m.scan.InSync
  stop : m.scan.stop = t.size + 1
  token : m.scan.token = .lineComment
  mark : m.scan.mark = p
  inDashes : m.inDashes = true
  two_le : p + 2 ≤ m.scan.pos
  dashes : ∀ x, p ≤ x → x < m.scan.pos → t.byteAt x = '-'.toNat

namespace InDashes

/-- Two dashes outside every token lead there. -/
theorem of_open (hsync : m.scan.InSync) (hstop : m.scan.stop = t.size + 1)
    (hmark : m.scan.mark ≤ m.scan.pos) (hfirst : t.byteAt m.scan.pos = '-'.toNat)
    (hsecond : t.byteAt (m.scan.pos + 1) = '-'.toNat) :
    InDashes m.scan.pos
      { m.map fun s => (s.switch .lineComment).forwardBy 2 with inDashes := true } := by
  have hs := t.lt_size_of_byteAt (p := m.scan.pos + 1) (by rw [hsecond]; decide)
  have hover := Scanner.forwardBy_of_byteAt_lt 2 (s := m.scan.switch .lineComment)
    (by rw [Scanner.toCursor_switch]; exact hsync)
    (by rw [Scanner.toCursor_switch, hstop]; omega) (fun i hi => by
      rw [Scanner.toCursor_switch]
      obtain rfl | rfl : i = 0 ∨ i = 1 := by omega
      · rw [Nat.add_zero, hfirst]
        decide
      · rw [hsecond]
        decide)
  rw [Scanner.toCursor_switch] at hover
  obtain ⟨hsync', hpos⟩ := hover
  refine { sync := hsync', stop := ?_, token := Scanner.token_forwardBy .., mark := ?_
           inDashes := rfl, two_le := Nat.le_of_eq hpos.symm, dashes := ?_ }
  · have hreach : m.scan.Reach ((m.scan.switch .lineComment).forwardBy 2) :=
      (Scanner.Reach.refl.switch _).forwardBy 2
    exact hreach.stop.trans hstop
  · show ((m.scan.switch .lineComment).forwardBy 2).mark = _
    rw [Scanner.mark_forwardBy, Scanner.mark_switch]
    omega
  · dsimp only [map]
    rw [hpos]
    intro x hx hlt
    obtain rfl | rfl : x = m.scan.pos ∨ x = m.scan.pos + 1 := by omega
    · exact hfirst
    · exact hsecond

theorem step_eq (g : Settings) (h : InDashes p m)
    (hop : isOperatorChar (t.byteAt m.scan.pos) = true) : m.step g = m.lineComment := by
  have hend := (ch_of_isOperatorChar h.sync hop).2
  rw [step_of_token hend (by rw [h.token]; decide), stepToken, h.token]

/-- Another dash leaves it there. -/
theorem step_of_dash (g : Settings) (h : InDashes p m)
    (hdash : t.byteAt m.scan.pos = '-'.toNat) : InDashes p (m.step g) := by
  have hop : isOperatorChar (t.byteAt m.scan.pos) = true := by
    rw [hdash]
    decide
  have hs := lt_size_of_isOperatorChar hop
  have hstop := h.stop
  have hmore : m.scan.more = true := Cursor.more_iff.2 (by omega)
  have hpos : m.scan.forward.pos = m.scan.pos + 1 :=
    h.sync.forward_pos_of_byteAt_lt hmore (by rw [hdash]; decide)
  have hstep : m.step g = m.map (·.forward) := by
    rw [h.step_eq g hop, lineComment, h.inDashes, (h.sync.sees_iff (a := '-') (by decide)).2 hdash,
      (ch_of_isOperatorChar h.sync hop).2]
    rfl
  rw [hstep]
  refine { sync := h.sync.forward hmore, stop := m.scan.toCursor.forward_stop.trans hstop
           token := h.token, mark := h.mark, inDashes := h.inDashes, two_le := ?_, dashes := ?_ }
  all_goals
    dsimp only [map]
    rw [hpos]
  · exact Nat.le_succ_of_le h.two_le
  · intro x hx hlt
    rcases Nat.lt_or_eq_of_le (Nat.le_of_lt_succ hlt) with hlt | rfl
    · exact h.dashes x hx hlt
    · exact hdash

/-- An operator character behind the dashes makes all of it an operator. -/
theorem step_of_isOperatorChar (g : Settings) (h : InDashes p m)
    (hdash : t.byteAt m.scan.pos ≠ '-'.toNat)
    (hop : isOperatorChar (t.byteAt m.scan.pos) = true) :
    AtOperator p (m.step g) ∧ (m.step g).scan.pos = m.scan.pos := by
  have hsees : m.scan.sees '-' = false :=
    Bool.eq_false_iff.2 (mt (h.sync.sees_iff (a := '-') (by decide)).1 hdash)
  have hstep : m.step g = { m with inDashes := false, scan := m.scan.relabel .operator } := by
    rw [h.step_eq g hop, lineComment, h.inDashes, hsees,
      (ch_of_isOperatorChar h.sync hop).1, hop]
    rfl
  rw [hstep]
  have hle := h.two_le
  exact ⟨{ sync := h.sync, stop := h.stop, token := rfl, mark := h.mark
           le_pos := by show p ≤ m.scan.pos; omega }, rfl⟩

/-- The dashes end before the text does, and at an operator character if they are no line
comment. -/
theorem exists_atOperator (g : Settings) {e : Machine t} (h : InDashes p m)
    (hrun : OperatorRun t p stop) (hno : ¬DashesOnly t p stop) (hends : (engine g).Ends m e) :
    ∃ r, (engine g).Comes m r ∧ r.scan.more = true ∧ AtOperator p r
      ∧ Decides t p r.scan.pos := by
  rcases hends.exists_last (P := InDashes p) h with h | ⟨r, hr, hmore, h, hlast, -⟩
  · have hdone : e.scan.stop ≤ e.scan.pos := hends.stop_le
    rw [h.stop] at hdone
    have hdash := h.dashes t.size (Nat.le_trans (Nat.le_of_lt hrun.lt) hrun.stop_le) (by omega)
    rw [t.byteAt_eq_zero (Nat.le_refl _)] at hdash
    exact absurd hdash (by decide)
  · have hdash : t.byteAt r.scan.pos ≠ '-'.toNat := mt (step_of_dash g h) hlast
    have hle := h.two_le
    have hdecides : Decides t p r.scan.pos := by
      rw [Decides, if_pos ⟨h.dashes p (Nat.le_refl _) (by omega),
        h.dashes (p + 1) (Nat.le_succ _) (by omega)⟩]
      exact ⟨hle, h.dashes, hdash⟩
    obtain ⟨hfrom, hto⟩ := hdecides.lt hrun hno
    obtain ⟨hat, hpos⟩ := h.step_of_isOperatorChar g hdash (hrun.inside _ hfrom hto)
    have hmore' : (r.step g).scan.more = true := by
      rw [Cursor.more_iff, hat.stop, hpos, ← h.stop]
      exact Cursor.more_iff.1 hmore
    exact ⟨r.step g, hr.round hmore, hmore', hat, by rw [hpos]; exact hdecides⟩

end InDashes

/-- A round that starts at an operator character outside every token leads to the sign that
gives the run its style. -/
theorem exists_atOperator (g : Settings) {q : Machine t}
    (hq : (engine g).Comes (start t 0 t.size .plain (LineState.unpack 0)) q)
    (hmore : q.scan.more = true) (htoken : q.scan.token = .plain)
    (hrun : OperatorRun t q.scan.pos stop) (hno : ¬DashesOnly t q.scan.pos stop)
    (hdir : ¬OpensDirective t q.mode q.scan.pos) :
    ∃ r, (engine g).Comes q r ∧ r.scan.more = true ∧ AtOperator q.scan.pos r
      ∧ Decides t q.scan.pos r.scan.pos := by
  obtain ⟨hsync, hmark, hstop⟩ := inSync_of_comes hq hmore
  have hop := hrun.inside _ (Nat.le_refl _) hrun.lt
  have hs := lt_size_of_isOperatorChar hop
  have hstep := step_of_token (g := g) (ch_of_isOperatorChar hsync hop).2 (by rw [htoken]; decide)
  rw [stepToken, htoken] at hstep
  rw [plain_of_isOperatorChar g.options hsync hop] at hstep
  by_cases hdashes : t.byteAt q.scan.pos = '-'.toNat ∧ t.byteAt (q.scan.pos + 1) = '-'.toNat
  · rw [if_pos hdashes] at hstep
    have hin : InDashes q.scan.pos (q.step g) := by
      rw [hstep]
      exact .of_open hsync hstop hmark hdashes.1 hdashes.2
    obtain ⟨r, hr, hrmore, hat, hdecides⟩ := hin.exists_atOperator g hrun hno
      (((sound g).ends_start t 0 t.size .plain 0).of_comes (hq.round hmore))
    exact ⟨r, (Engine.Comes.single hmore).trans hr, hrmore, hat, hdecides⟩
  · rw [if_neg hdashes, if_neg hdir] at hstep
    have hpos : (q.step g).scan.toCursor = q.scan.toCursor := by
      rw [hstep]
      exact Scanner.toCursor_switch ..
    refine ⟨q.step g, Engine.Comes.single hmore, by rw [hpos]; exact hmore, ?_, ?_⟩
    · refine { sync := by rw [hpos]; exact hsync, stop := by rw [hpos]; exact hstop
               token := by rw [hstep]; rfl, mark := ?_, le_pos := Nat.le_of_eq (by rw [hpos]) }
      rw [hstep]
      show (q.scan.switch .operator).mark = _
      rw [Scanner.mark_switch]
      omega
    · rw [hpos, Decides, if_neg hdashes]

end Machine

/-! ## 4. The whole run -/

/-- The lexer, on its way through the whole text, comes to `p` in a mode outside every token. -/
def MeetsIn (g : Settings) (t : Text) (mode : Mode) (p : Nat) : Prop :=
  ∃ q : Machine t, (engine g).Comes (Machine.start t 0 t.size .plain (LineState.unpack 0)) q
    ∧ q.scan.more = true ∧ q.scan.token = .plain ∧ q.scan.pos = p ∧ q.mode = mode

/-- What a whole run says of a run of operator characters: one span, in the style that the sign
gives it which decides. -/
theorem exists_operatorStyle (g : Settings) {t : Text} {mode : Mode} {p stop : Nat}
    (hp : MeetsIn g t mode p) (hrun : OperatorRun t p stop) (hno : ¬DashesOnly t p stop)
    (hdir : ¬OpensDirective t mode p) :
    ∃ d, Decides t p d ∧ ⟨p, stop, operatorStyle t d stop⟩ ∈ ((engine g).whole t).spans := by
  obtain ⟨q, hq, hmore, htoken, rfl, rfl⟩ := hp
  obtain ⟨r, hr, hrmore, hat, hdecides⟩ :=
    Machine.exists_atOperator g hq hmore htoken hrun hno hdir
  obtain ⟨hfrom, hto⟩ := hdecides.lt hrun hno
  have hmem := hat.mem_spans (hrun.tail hfrom hto) g
  have hends := ((sound g).ends_start t 0 t.size .plain 0).of_comes ((hq.trans hr).round hrmore)
  exact ⟨_, hdecides, ((sound g).reach_ends hends).finish.mem_spans hmem⟩

end Haskell

end Restyle
