/-
Restyle.Proofs.R.LongDelimiter — a raw string with more dashes than its
line state can hold.

`longRaw n` opens a raw string with `n` dashes and has a closing without
any on its second line. Lexed at once it is in the raw string to its end
(`style_longRaw_whole`). Lexed from its second line on it is so only if
the line state before tells how many dashes are asked for; read back as
none, they leave the raw string closed (`style_longRaw_secondLine`). With
`2 ^ 23` dashes that is what happens (`LineState.unpack_pack_of_le`).

What is general about rounds in a raw string stands in section 2; the
walk over the text itself takes at most four of them.
-/
import Restyle.Proofs.R.Resume

namespace Restyle.R

open Scanner

/-! ## 1. The text -/

/-- A raw string that `n` dashes open, with a bracket and a quote on its second line. -/
def longRaw (n : Nat) : Text :=
  let bytes : List UInt8 :=
    [0x72, 0x22] ++ List.replicate n 0x2D ++ [0x28, 0x0A, 0x29, 0x22, 0x20]
  .ofBytes bytes.toArray .utf8

variable {n : Nat}

theorem size_longRaw (n : Nat) : (longRaw n).size = n + 7 := by
  simp [longRaw, Text.ofBytes, Text.size]

theorem byteAt_longRaw (n p : Nat) : (longRaw n).byteAt p =
    if p < 2 then [0x72, 0x22].getD p 0
    else if p < n + 2 then 0x2D
    else [0x28, 0x0A, 0x29, 0x22, 0x20].getD (p - (n + 2)) 0 := by
  have htoNat (bytes : List UInt8) (i : Nat) :
      ((bytes[i]?).getD 0).toNat = (bytes.map (·.toNat)).getD i 0 := by
    rw [List.getD_eq_getElem?_getD, List.getElem?_map]
    cases bytes[i]? <;> rfl
  have hlook : (longRaw n).byteAt p = ((([0x72, 0x22] ++ List.replicate n 0x2D
      ++ [0x28, 0x0A, 0x29, 0x22, 0x20])[p]?).getD (0 : UInt8)).toNat := by
    simp only [longRaw, Text.ofBytes, Text.byteAt, Array.getD_eq_getD_getElem?,
      List.getElem?_toArray]
  have htwo : ([0x72, 0x22] : List UInt8).length = 2 := rfl
  have hlength : ([0x72, 0x22] ++ List.replicate n (0x2D : UInt8)).length = n + 2 := by
    rw [List.length_append, List.length_replicate, htwo, Nat.add_comm]
  rw [hlook]
  by_cases hhead : p < 2
  · rw [if_pos hhead, List.append_assoc, List.getElem?_append_left (by rw [htwo]; exact hhead)]
    exact htoNat [0x72, 0x22] p
  · rw [if_neg hhead]
    by_cases hdash : p < n + 2
    · rw [if_pos hdash, List.getElem?_append_left (by rw [hlength]; exact hdash),
        List.getElem?_append_right (by rw [htwo]; omega),
        List.getElem?_replicate_of_lt (by rw [htwo]; omega)]
      rfl
    · rw [if_neg hdash, List.getElem?_append_right (by rw [hlength]; omega), hlength]
      exact htoNat [0x28, 0x0A, 0x29, 0x22, 0x20] (p - (n + 2))

theorem byteAt_longRaw_add (n i : Nat) :
    (longRaw n).byteAt (n + 2 + i) = [0x28, 0x0A, 0x29, 0x22, 0x20].getD i 0 := by
  rw [byteAt_longRaw, if_neg (by omega), if_neg (by omega), Nat.add_sub_cancel_left]

theorem byteAt_longRaw_cases (n p : Nat) :
    (longRaw n).byteAt p ∈ [0x72, 0x22, 0x2D, 0x28, 0x29, 0x20, 0] ∨
      p = n + 3 ∧ (longRaw n).byteAt p = 0x0A := by
  by_cases hhead : p < 2
  · rw [byteAt_longRaw, if_pos hhead]
    match p with
    | 0 | 1 => simp
    | p + 2 => omega
  · rw [byteAt_longRaw, if_neg hhead]
    split
    · exact Or.inl (by decide)
    · obtain ⟨i, rfl⟩ : ∃ i, p = n + 2 + i := ⟨p - (n + 2), by omega⟩
      rw [Nat.add_sub_cancel_left]
      match i with
      | 0 | 1 | 2 | 3 | 4 => simp
      | i + 5 => simp

/-- Behind the dashes there is only one closing bracket. -/
theorem byteAt_longRaw_ne {p : Nat} (h : n + 2 ≤ p) (hne : p ≠ n + 4) :
    (longRaw n).byteAt p ≠ ')'.toNat := by
  obtain ⟨i, rfl⟩ : ∃ i, p = n + 2 + i := ⟨p - (n + 2), by omega⟩
  rw [byteAt_longRaw_add]
  match i with
  | 0 | 1 | 3 | 4 => decide
  | 2 => exact absurd rfl hne
  | i + 5 => exact (by decide : (0 : Nat) ≠ ')'.toNat)

theorem charAt_longRaw (n p : Nat) : (longRaw n).charAt p = ⟨(longRaw n).byteAt p, 1⟩ := by
  apply Text.charAt_of_byteAt_lt
  rcases byteAt_longRaw_cases n p with h | ⟨-, h⟩
  · generalize (longRaw n).byteAt p = b at h ⊢
    revert b
    decide
  · omega

theorem breaksAfter_longRaw (n p : Nat) : (longRaw n).breaksAfter p = decide (p = n + 3) := by
  rcases byteAt_longRaw_cases n p with h | ⟨rfl, h⟩
  · have hne : p ≠ n + 3 := by
      rintro rfl
      rw [show n + 3 = n + 2 + 1 from rfl, byteAt_longRaw_add] at h
      revert h
      decide
    rw [Text.breaksAfter, decide_eq_false hne]
    generalize (longRaw n).byteAt p = b at h ⊢
    revert b
    simp
  · simp [Text.breaksAfter, h]

theorem lineOf_longRaw (n p : Nat) : (longRaw n).lineOf p = if p < n + 4 then 0 else 1 := by
  have hhead : (longRaw n).lineOf (n + 3) = 0 := by
    rw [Text.lineOf_eq_of_no_break _ (Nat.zero_le _), Text.lineOf_zero]
    intro r _ hr
    rw [breaksAfter_longRaw]
    exact decide_eq_false (by omega)
  split
  · have hle := (longRaw n).lineOf_mono (p := p) (q := n + 3) (by omega)
    omega
  · rw [Text.lineOf_eq_of_no_break _ (show n + 4 ≤ p by omega), Text.lineOf_succ, hhead,
      breaksAfter_longRaw]
    · simp
    · intro r hr _
      rw [breaksAfter_longRaw]
      exact decide_eq_false (by omega)

theorem lineStart_longRaw_one (n : Nat) : (longRaw n).lineStart 1 = n + 4 := by
  have hstart := ((longRaw n).lineStart_lineOf_eq_iff (n + 4)).2 (Or.inr (by
    rw [breaksAfter_longRaw]
    exact decide_eq_true (by omega)))
  rwa [lineOf_longRaw, if_neg (Nat.lt_irrefl _)] at hstart

theorem lineStart_longRaw_two (n : Nat) : (longRaw n).lineStart 2 = n + 7 := by
  rw [Text.lineStart_of_lastLine_lt, size_longRaw]
  rw [Text.lastLine, lineOf_longRaw]
  split <;> omega

theorem delimiterAt?_longRaw (n : Nat) : delimiterAt? (longRaw n) 2 = some ⟨')'.toNat, n⟩ := by
  have hdashes : ∀ (count fuel p : Nat), p + count = n + 2 → 2 ≤ p → count < fuel →
      dashesFrom (longRaw n) fuel p = count := by
    intro count
    induction count with
    | zero =>
      intro fuel p hp _ hfuel
      obtain ⟨fuel, rfl⟩ : ∃ f, fuel = f + 1 := ⟨fuel - 1, by omega⟩
      rw [dashesFrom, show p = n + 2 + 0 by omega, byteAt_longRaw_add]
      rfl
    | succ count ih =>
      intro fuel p hp hle hfuel
      obtain ⟨fuel, rfl⟩ : ∃ f, fuel = f + 1 := ⟨fuel - 1, by omega⟩
      have hdash : (longRaw n).byteAt p = '-'.toNat := by
        rw [byteAt_longRaw, if_neg (by omega), if_pos (by omega)]
        rfl
      rw [dashesFrom, if_pos hdash, ih fuel (p + 1) (by omega) (by omega) (by omega)]
  have hcount := hdashes n ((longRaw n).size - 2) 2 (by omega) (Nat.le_refl _)
    (by rw [size_longRaw]; omega)
  rw [delimiterAt?, hcount, show 2 + n = n + 2 + 0 by omega, byteAt_longRaw_add]
  rfl

/-! ## 2. Rounds in a raw string -/

namespace Machine

variable {t : Text} {g : Settings} {m : Machine t} {d : Delimiter}

/-- The end of a round. -/
def endRound (m : Machine t) : Machine t :=
  (if m.scan.atLineEnd then m.saveLine else m).map (·.forward)

theorem startToken_of_blank (hch : m.scan.ch = ' '.toNat ∨ m.scan.ch = 0) : m.startToken = m := by
  rcases hch with hch | hch
  all_goals
    simp only [startToken, Cursor.sees, hch]
    rfl

/-- A round in which no token starts. -/
theorem step_of_endToken {r : Machine t} (hend : m.endToken g = r)
    (hstay : r.scan.token = .plain → r.scan.ch = ' '.toNat ∨ r.scan.ch = 0) :
    m.step g = r.endRound := by
  simp only [step, hend]
  by_cases hplain : r.scan.token = .plain
  · rw [if_pos hplain, startToken_of_blank (hstay hplain)]
    rfl
  · rw [if_neg hplain]
    rfl

theorem endToken_of_rawString (htoken : m.scan.token = .rawString) :
    m.endToken g = m.rawString '"' := by
  rw [endToken, htoken]
  rfl

/-- A closing bracket without its dashes ends nothing either. -/
theorem rawString_of_missing (hraw : m.raw = some d) (hch : m.scan.ch = d.close)
    (hdashes : 0 < d.dashes) (hdash : m.scan.forward.ch ≠ '-'.toNat)
    (hclose : m.scan.forward.ch ≠ d.close) (quote : Char) :
    m.rawString quote = m.map (·.forward) := by
  have htry : d.tryClose quote m.scan = (false, m.scan.forward) := by
    obtain ⟨missing, hmissing⟩ : ∃ k, d.dashes = k + 1 := ⟨d.dashes - 1, by omega⟩
    have hsees : m.scan.forward.sees '-' = false := beq_eq_false_iff_ne.2 hdash
    have hpass : passDashes d.dashes m.scan.forward = (d.dashes, m.scan.forward) := by
      rw [hmissing, passDashes, hsees, if_neg Bool.false_ne_true]
    simp only [Delimiter.tryClose, hpass]
    rw [if_neg fun h => Nat.ne_of_gt hdashes h.1]
  rw [rawString_of_closeRaw hraw hch (closeRaw_of_failed htry hclose), if_neg Bool.false_ne_true,
    ← hraw]
  rfl

/-- A closing bracket and its quote end a raw string that has no dashes. -/
theorem rawString_of_quote {quote : Char} (hraw : m.raw = some d) (hch : m.scan.ch = d.close)
    (hdashes : d.dashes = 0) (hquote : m.scan.forward.sees quote = true) :
    m.rawString quote = ⟨m.scan.forward.forwardSwitch .plain, none⟩ := by
  have htry : d.tryClose quote m.scan = (true, m.scan.forward.forwardSwitch .plain) := by
    rw [Delimiter.tryClose, hdashes, passDashes]
    simp only [hquote, and_self, if_true]
  rw [rawString_of_closeRaw hraw hch (closeRaw_of_closed htry)]
  rfl

theorem map_endRound (m : Machine t) : m.endRound.scan.token = m.scan.token
    ∧ m.endRound.scan.mark = m.scan.mark ∧ m.endRound.raw = m.raw := by
  unfold endRound
  split <;> exact ⟨rfl, rfl, rfl⟩

end Machine

/-! ## 3. Rounds on the text -/

/-- The scanner stands at `p` and goes to `stop`. -/
structure At (s : Scanner (longRaw n)) (p stop : Nat) : Prop where
  inSync : s.InSync
  pos : s.pos = p
  stop : s.stop = stop

namespace At

variable {s : Scanner (longRaw n)} {p stop : Nat} (h : At s p stop)
include h

theorem width : s.width = 1 := by
  rw [h.inSync.width, charAt_longRaw]

theorem ch : s.ch = (longRaw n).byteAt p := by
  rw [h.inSync.ch, charAt_longRaw, h.pos]

theorem next : s.next = (longRaw n).byteAt (p + 1) := by
  rw [h.inSync.next, charAt_longRaw, h.width, h.pos]

theorem atLineEnd : s.atLineEnd = (decide (p = n + 3) || decide (n + 7 ≤ p)) := by
  rw [h.inSync.atLineEnd, Text.lineEndsAt, breaksAfter_longRaw, size_longRaw, h.pos]

theorem more (hlt : p < stop) : s.more = true := by
  rw [Cursor.more_iff, h.pos, h.stop]
  exact hlt

theorem not_more (hle : stop ≤ p) : s.more = false := by
  rw [← Bool.not_eq_true, Cursor.more_iff, h.pos, h.stop]
  omega

theorem forward (hlt : p < stop) : At s.forward (p + 1) stop where
  inSync := h.inSync.forward (h.more hlt)
  pos := by
    rw [toCursor_forward, Cursor.forward_pos (h.more hlt), h.width, h.pos]
  stop := (Cursor.forward_stop _).trans h.stop

theorem switch (token : Token) : At (s.switch token) p stop := by
  obtain ⟨hsync, hpos, hstop⟩ := h
  constructor <;> rw [toCursor_switch] <;> assumption

theorem note (state : Int) : At (s.noteHere state) p stop := ⟨h.inSync, h.pos, h.stop⟩

end At

theorem At.forwardBy (count : Nat) : ∀ {s : Scanner (longRaw n)} {p stop : Nat}, At s p stop →
    p + count ≤ stop → At (s.forwardBy count) (p + count) stop
      ∧ (s.forwardBy count).token = s.token ∧ (s.forwardBy count).mark = s.mark := by
  induction count with
  | zero => intro s p stop h _; exact ⟨h, rfl, rfl⟩
  | succ count ih =>
    intro s p stop h hle
    obtain ⟨hat, htoken, hmark⟩ := ih (h.forward (by omega)) (by omega)
    rw [Nat.add_right_comm, Nat.add_assoc] at hat
    exact ⟨hat, htoken, hmark⟩

namespace Machine

variable {g : Settings} {m : Machine (longRaw n)} {d : Delimiter} {mark p stop : Nat}

theorem at_endRound (h : At m.scan p stop) (hlt : p < stop) : At m.endRound.scan (p + 1) stop := by
  unfold Machine.endRound
  split
  · exact (h.note _).forward hlt
  · exact h.forward hlt

/-- The machine stands at `p` in a raw string that will be painted from `mark` on. -/
structure InRaw (m : Machine (longRaw n)) (mark p stop : Nat) (d : Delimiter) : Prop where
  at_pos : At m.scan p stop
  token : m.scan.token = .rawString
  mark : m.scan.mark = mark
  raw : m.raw = some d

namespace InRaw

variable (h : InRaw m mark p stop d)
include h

theorem forward (hlt : p < stop) : InRaw (m.map (·.forward)) mark (p + 1) stop d :=
  ⟨h.at_pos.forward hlt, h.token, h.mark, h.raw⟩

theorem endRound (hlt : p < stop) : InRaw m.endRound mark (p + 1) stop d := by
  obtain ⟨htoken, hmark, hraw⟩ := m.map_endRound
  exact ⟨at_endRound h.at_pos hlt, htoken.trans h.token, hmark.trans h.mark, hraw.trans h.raw⟩

theorem step_eq (hch : (longRaw n).byteAt p ≠ d.close) : m.step g = m.endRound := by
  have hraw := rawString_of_ne h.raw (by rw [h.at_pos.ch]; exact hch) '"'
  apply step_of_endToken ((endToken_of_rawString h.token).trans hraw)
  rw [h.token]
  exact Token.noConfusion

theorem step (g : Settings) (hlt : p < stop) (hch : (longRaw n).byteAt p ≠ d.close) :
    InRaw (m.step g) mark (p + 1) stop d := by
  rw [h.step_eq hch]
  exact h.endRound hlt

theorem step_of_missing (g : Settings) (hlt : p + 1 < stop) (hch : (longRaw n).byteAt p = d.close)
    (hdashes : 0 < d.dashes) (hdash : (longRaw n).byteAt (p + 1) ≠ '-'.toNat)
    (hclose : (longRaw n).byteAt (p + 1) ≠ d.close) : InRaw (m.step g) mark (p + 2) stop d := by
  have hnext := h.forward (by omega)
  have hraw := rawString_of_missing h.raw (by rw [h.at_pos.ch]; exact hch) hdashes
    (by rw [(h.at_pos.forward (by omega)).ch]; exact hdash)
    (by rw [(h.at_pos.forward (by omega)).ch]; exact hclose) '"'
  rw [step_of_endToken ((endToken_of_rawString h.token).trans hraw)]
  · exact hnext.endRound hlt
  · rw [hnext.token]
    exact Token.noConfusion

end InRaw

/-- The first round opens the raw string and goes to the end of the line. -/
theorem inRaw_step_start (g : Settings) (length : Nat) (hlength : n + 4 ≤ length)
    (hle : length ≤ n + 7) :
    InRaw ((Machine.start (longRaw n) 0 length .plain none).step g) 0 (n + 3)
      (Cursor.start (longRaw n) 0 length).stop ⟨')'.toNat, n⟩ := by
  have hstop : 0 + length ≤ (Cursor.start (longRaw n) 0 length).stop := Cursor.le_stop_start
  have hat : At (Machine.start (longRaw n) 0 length .plain none).scan 0
      (Cursor.start (longRaw n) 0 length).stop :=
    ⟨Cursor.inSync_start (by rw [size_longRaw]; omega), rfl, rfl⟩
  generalize hm : Machine.start (longRaw n) 0 length .plain none = m at hat ⊢
  have htoken : m.scan.token = .plain := by rw [← hm]; rfl
  have hmark : m.scan.mark = 0 := by rw [← hm]; rfl
  have hch : m.scan.ch = 'r'.toNat := hat.ch.trans (byteAt_longRaw n 0)
  have hnext : m.scan.next = '"'.toNat := hat.next.trans (byteAt_longRaw n 1)
  obtain ⟨hto, htoken', hmark'⟩ := (hat.switch .rawString).forwardBy (n + 2) (by omega)
  rw [Nat.zero_add] at hto
  have hend : m.endToken g = m := by rw [endToken, htoken]
  have hraw : m.startRaw = ⟨(m.scan.switch .rawString).forwardBy (n + 2), some ⟨')'.toNat, n⟩⟩ := by
    rw [startRaw, hat.pos, delimiterAt?_longRaw]
    simp only [Cursor.seesNext, hnext]
    rfl
  have hstart : m.startToken = m.startRaw := by
    simp only [startToken, Cursor.sees, hch, hnext]
    rfl
  have hopen : InRaw m.startRaw 0 (n + 2) (Cursor.start (longRaw n) 0 length).stop
      ⟨')'.toNat, n⟩ := by
    rw [hraw]
    refine ⟨hto, htoken', ?_, rfl⟩
    rw [hmark', mark_switch, hmark, hat.pos]
    rfl
  have hstep : m.step g = m.startRaw.endRound := by
    simp only [Machine.step, hend, if_pos htoken, hstart]
    rfl
  rw [hstep]
  exact hopen.endRound (by omega)

end Machine

/-! ## 4. Lexed at once and in two parts -/

open Machine

/-- What a run styles. -/
theorem exists_ends_style (g : Settings) (t : Text) (start length : Nat) (token : Token)
    (raw : Int) : ∃ e : Machine t,
      (engine g).Ends (Machine.start t start length token (LineState.unpack raw)) e
        ∧ style g t start length token raw = e.scan.finish.styling :=
  ⟨_, (sound g).ends_start t start length token raw, style_eq ..⟩

theorem ends_step {g : Settings} {t : Text} {m e : Machine t} (h : (engine g).Ends m e)
    (hmore : m.scan.more = true) : (engine g).Ends (m.step g) e := h.round_of_more hmore

theorem eq_of_ends {g : Settings} {t : Text} {m e : Machine t} (h : (engine g).Ends m e)
    (hmore : m.scan.more = false) : e = m := h.eq_of_not_more hmore

theorem Machine.InRaw.tokenAt?_finish {m : Machine (longRaw n)} {mark p stop q : Nat}
    {d : Delimiter} (h : InRaw m mark p stop d) (hmark : mark ≤ q) (hq : q < p)
    (hsize : q < n + 7) : m.scan.finish.styling.tokenAt? q = some .rawString := by
  rw [Scanner.tokenAt?_finish _ (by rw [h.at_pos.pos]; exact hq)
    (by rw [size_longRaw]; exact hsize), look_of_le (by rw [h.mark]; exact hmark), h.token]

/-- The first round comes to the end of the line. -/
theorem exists_inRaw {g : Settings} {length : Nat} {e : Machine (longRaw n)}
    (hlength : n + 4 ≤ length) (hle : length ≤ n + 7)
    (h : (engine g).Ends (Machine.start (longRaw n) 0 length .plain (LineState.unpack 0)) e) :
    ∃ m : Machine (longRaw n), (engine g).Ends m e
      ∧ InRaw m 0 (n + 3) (Cursor.start (longRaw n) 0 length).stop ⟨')'.toNat, n⟩ := by
  have hstop : 0 + length ≤ (Cursor.start (longRaw n) 0 length).stop := Cursor.le_stop_start
  refine ⟨_, ends_step h (Cursor.more_iff.2 ?_), inRaw_step_start g length hlength hle⟩
  show 0 < (Cursor.start (longRaw n) 0 length).stop
  omega

/-- The first line alone is in the raw string, and its state tells how that closes. -/
theorem style_longRaw_firstLine (g : Settings) (n : Nat) :
    (style g (longRaw n) 0 (n + 4) .plain 0).tokenAt? (n + 3) = some .rawString
      ∧ (style g (longRaw n) 0 (n + 4) .plain 0).stateOf? 0
        = some (LineState.pack (some ⟨')'.toNat, n⟩)) := by
  have hstop : (Cursor.start (longRaw n) 0 (n + 4)).stop = n + 4 := by
    rw [Cursor.stop_start, size_longRaw, if_neg (by omega), Nat.zero_add]
  have hch : (longRaw n).byteAt (n + 3) ≠ ')'.toNat := byteAt_longRaw_ne (by omega) (by omega)
  obtain ⟨e, hends, hstyle⟩ := exists_ends_style g (longRaw n) 0 (n + 4) .plain 0
  obtain ⟨m, hends, hopen⟩ := exists_inRaw (Nat.le_refl _) (by omega) hends
  rw [hstop] at hopen
  have hline := hopen.step g (by omega) hch
  obtain rfl := eq_of_ends (ends_step hends (hopen.at_pos.more (by omega)))
    (hline.at_pos.not_more (Nat.le_refl _))
  rw [hstyle]
  refine ⟨hline.tokenAt?_finish (Nat.zero_le _) (by omega) (by omega), ?_⟩
  have hend : m.scan.atLineEnd = true := by
    rw [hopen.at_pos.atLineEnd]
    simp
  have hzero : m.scan.line = 0 := by
    rw [hopen.at_pos.inSync.line, hopen.at_pos.pos,
      Text.lineAt_of_le _ (by rw [size_longRaw]; omega), lineOf_longRaw, if_pos (by omega)]
  rw [stateOf?_finish, hopen.step_eq hch, Machine.endRound, if_pos hend]
  show (m.scan.noteHere (LineState.pack m.raw)).noted 0 = _
  rw [noted_noteHere, if_pos hzero, hopen.raw]

/-- Lexed at once, the text is in the raw string to its end. -/
theorem style_longRaw_whole (g : Settings) (hn : 0 < n) :
    (style g (longRaw n) 0 (n + 7) .plain 0).tokenAt? (n + 6) = some .rawString := by
  have hstop : (Cursor.start (longRaw n) 0 (n + 7)).stop = n + 8 := by
    rw [Cursor.stop_start_of_eq (by rw [size_longRaw, Nat.zero_add]), size_longRaw]
  have hquote : (longRaw n).byteAt (n + 5) ≠ '-'.toNat := by
    rw [show n + 5 = n + 2 + 3 from rfl, byteAt_longRaw_add]
    decide
  obtain ⟨e, hends, hstyle⟩ := exists_ends_style g (longRaw n) 0 (n + 7) .plain 0
  obtain ⟨m, hends, hopen⟩ := exists_inRaw (by omega) (Nat.le_refl _) hends
  rw [hstop] at hopen
  have hends := ends_step hends (hopen.at_pos.more (by omega))
  have hline := hopen.step g (by omega) (byteAt_longRaw_ne (by omega) (by omega))
  have hends := ends_step hends (hline.at_pos.more (by omega))
  have hblank := hline.step_of_missing g (by omega) (byteAt_longRaw_add n 2) hn hquote
    (byteAt_longRaw_ne (by omega) (by omega))
  have hends := ends_step hends (hblank.at_pos.more (by omega))
  have hend := hblank.step g (by omega) (byteAt_longRaw_ne (by omega) (by omega))
  have hends := ends_step hends (hend.at_pos.more (by omega))
  have hlast := hend.step g (by omega) (byteAt_longRaw_ne (by omega) (by omega))
  obtain rfl := eq_of_ends hends (hlast.at_pos.not_more (by omega))
  rw [hstyle]
  exact hlast.tokenAt?_finish (Nat.zero_le _) (by omega) (by omega)

/-- The second line alone, after a line state without dashes, is in the raw string up to its
quote only. -/
theorem style_longRaw_secondLine (g : Settings) (n : Nat) {raw : Int}
    (hraw : LineState.unpack raw = some ⟨')'.toNat, 0⟩) :
    (style g (longRaw n) (n + 4) 3 .rawString raw).tokenAt? (n + 6) = some .plain := by
  have hstop : (Cursor.start (longRaw n) (n + 4) 3).stop = n + 8 := by
    rw [Cursor.stop_start_of_eq (show n + 4 + 3 = _ from (size_longRaw n).symm), size_longRaw]
  obtain ⟨e, hends, hstyle⟩ := exists_ends_style g (longRaw n) (n + 4) 3 .rawString raw
  rw [hraw] at hends
  have hin : InRaw (Machine.start (longRaw n) (n + 4) 3 .rawString (some ⟨')'.toNat, 0⟩)) (n + 4)
      (n + 4) (n + 8) ⟨')'.toNat, 0⟩ :=
    ⟨⟨Cursor.inSync_start (Nat.le_of_eq (size_longRaw n).symm), rfl, hstop⟩, rfl, rfl, rfl⟩
  generalize Machine.start (longRaw n) (n + 4) 3 .rawString (some ⟨')'.toNat, 0⟩) = m
    at hends hin
  -- the bracket and the quote behind it close
  have hquote := hin.at_pos.forward (by omega)
  have hblank := (hquote.forward (by omega)).switch .plain
  have hclose : m.rawString '"' = ⟨m.scan.forward.forwardSwitch .plain, none⟩ := by
    apply rawString_of_quote hin.raw (hin.at_pos.ch.trans (byteAt_longRaw_add n 2)) rfl
    rw [Cursor.sees, hquote.ch]
    exact beq_iff_eq.2 (byteAt_longRaw_add n 3)
  have hstep := step_of_endToken (g := g) ((endToken_of_rawString hin.token).trans hclose)
    fun _ => Or.inl (hblank.ch.trans (byteAt_longRaw_add n 4))
  have hmark : (m.scan.forward.forwardSwitch .plain).mark = n + 6 := by
    show (m.scan.forward.forward.switch .plain).mark = n + 6
    rw [mark_switch, (hquote.forward (by omega)).pos, size_longRaw, mark_forward, mark_forward,
      hin.mark]
    omega
  have hends := ends_step hends (hin.at_pos.more (by omega))
  rw [hstep] at hends
  -- what is left is a blank and the end of the text
  generalize hopen : (⟨m.scan.forward.forwardSwitch .plain, none⟩ : Machine (longRaw n)) = r
    at hends
  have hat : At r.scan (n + 6) (n + 8) := by
    rw [← hopen]
    exact hblank
  obtain ⟨htoken, hmark', -⟩ := r.map_endRound
  have hend := at_endRound hat (by omega)
  have hplain : r.endRound.scan.token = .plain := by rw [htoken, ← hopen]; rfl
  have hends := ends_step hends (hend.more (by omega))
  rw [step_of_endToken (m := r.endRound) (r := r.endRound) (by rw [endToken, hplain])
    fun _ => Or.inr (hend.ch.trans (byteAt_longRaw_add n 5))] at hends
  obtain ⟨htoken', hmark'', -⟩ := r.endRound.map_endRound
  have hlast := at_endRound hend (by omega)
  obtain rfl := eq_of_ends hends (hlast.not_more (by omega))
  rw [hstyle, Scanner.tokenAt?_finish _ (by rw [hlast.pos]; omega) (by rw [size_longRaw]; omega),
    look_of_le (by rw [hmark'', hmark', ← hopen]; exact Nat.le_of_eq hmark), htoken', hplain]

end Restyle.R
