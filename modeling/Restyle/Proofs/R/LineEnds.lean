/-
Restyle.Proofs.R.LineEnds — what the R lexer carries over a line end.

Between rounds a machine is `WellFormed`: it remembers how a raw string
will close exactly while one is open, that is what opened the raw string,
and a comment has not come past the start of a line terminator. A round
keeps that (`WellFormed.step`).

So where a round comes over a line end, no comment is open, and none of
the tokens that are over before (`isBrief`). What is left are plain text
and quoted text, and a percent operator that the line leaves open; and
the state noted for the line is the delimiter of the raw string
(`exists_carried`).
-/
import Restyle.Proofs.Engine.Walks
import Restyle.Proofs.R.Resume

namespace Restyle

namespace R

/-! ## 1. Raw strings in a text -/

/-- Whether a token is a raw string. -/
def isRaw (token : Token) : Bool := token == .rawString || token == .rawSingleQuoted

/-- The quote around a raw string. -/
def quoteOf (token : Token) : Char :=
  if token = .rawString then Ascii.doubleQuote else Ascii.singleQuote

/-- A raw string with this quote and delimiter is opened at `start`: by `r` or `R`, the
quote, the dashes and the bracket. -/
structure Opens (t : Text) (start : Nat) (quote : Char) (d : Delimiter) : Prop where
  mark : Ascii.oneOf ['r', 'R'] (t.byteAt start) = true
  quote : t.byteAt (start + 1) = quote.toNat
  dashes : ∀ i < d.dashes, t.byteAt (start + 2 + i) = '-'.toNat
  bracket : closingOf? (t.byteAt (start + 2 + d.dashes)) = some d.close

namespace Machine

open Scanner (Inside isSign)

variable {t : Text} {m : Machine t} {o k : Nat}

/-! ## 2. Machines between rounds -/

/-- Tokens that this lexer leaves open. -/
def isOwn (token : Token) : Bool :=
  isBrief token || isRaw token
    || token ∈ [Token.plain, .lineComment, .string, .singleQuoted, .backticked]

/-- What the machine remembers is right for its token. -/
structure WellFormed (m : Machine t) : Prop where
  token : isOwn m.scan.token = true
  raw : m.raw.isSome = isRaw m.scan.token
  opens : ∀ d ∈ m.raw, Opens t m.scan.mark (quoteOf m.scan.token) d
  comment : m.scan.token = .lineComment → t.endsPair m.scan.pos = false

/-- A well-formed machine whose comment, if one is open, does not end here. -/
structure Lasting (m : Machine t) : Prop extends WellFormed m where
  goesOn : m.scan.token = .lineComment → m.scan.ch ≠ 10 ∧ m.scan.ch ≠ 13

/-- Nothing has to be remembered of a token that is neither a raw string nor a comment. -/
theorem lasting_of_token (ht : isOwn m.scan.token = true) (hraw : m.raw = none)
    (hr : isRaw m.scan.token = false) (hc : m.scan.token ≠ .lineComment) : m.Lasting where
  token := ht
  raw := by rw [hraw, hr]; rfl
  opens := by intro d hd; rw [hraw] at hd; cases hd
  comment h := absurd h hc
  goesOn h := absurd h hc

theorem lasting_of_plain (ht : m.scan.token = .plain) (hraw : m.raw = none) : m.Lasting := by
  apply lasting_of_token _ hraw <;> rw [ht] <;> decide

/-- An open raw string is remembered by the delimiter that opened it. -/
theorem lasting_of_opens {s : Scanner t} {token : Token} {d : Delimiter} (ht : s.token = token)
    (hr : isRaw token = true) (hd : Opens t s.mark (quoteOf token) d) :
    Lasting { m with scan := s, raw := some d } := by
  have hcomment : s.token ≠ .lineComment := by
    rw [ht]
    rintro rfl
    cases hr
  refine { token := ?_, raw := ?_, opens := ?_, comment := fun h => absurd h hcomment,
           goesOn := fun h => absurd h hcomment }
  · show isOwn s.token = true
    rw [ht, isOwn, hr]
    simp
  · show true = isRaw s.token
    rw [ht, hr]
  · intro d' hd'
    obtain rfl := Option.some.inj hd'
    show Opens t s.mark (quoteOf s.token) d
    rw [ht]
    exact hd

/-- A change of the scanner that keeps the token and where it started. -/
theorem WellFormed.lasting (h : m.WellFormed) (hc : m.scan.token ≠ .lineComment)
    {s : Scanner t} (ht : s.token = m.scan.token) (hmark : s.mark = m.scan.mark) :
    Lasting { m with scan := s } where
  token := by rw [ht]; exact h.token
  raw := by rw [ht]; exact h.raw
  opens := by rw [ht, hmark]; exact h.opens
  comment := by rw [ht]; exact fun h => absurd h hc
  goesOn := by rw [ht]; exact fun h => absurd h hc

theorem WellFormed.raw_eq_none (h : m.WellFormed) (hr : isRaw m.scan.token = false) :
    m.raw = none := by
  have hraw := h.raw
  rw [hr] at hraw
  exact Option.not_isSome_iff_eq_none.1 (by rw [hraw]; decide)

/-! ### Ending a token -/

section

variable (h : m.WellFormed)
include h

theorem WellFormed.numeral (ht : m.scan.token = .number) : (m.map numeral).Lasting := by
  have hraw := h.raw_eq_none (by rw [ht]; rfl)
  have htoken : (Machine.numeral m.scan).token = .number
      ∨ (Machine.numeral m.scan).token = .plain := by
    rw [Machine.numeral]
    split
    · exact Or.inl ht
    · split
      · exact Or.inl ht
      · exact Or.inr rfl
  have htoken : (m.map Machine.numeral).scan.token = .number
      ∨ (m.map Machine.numeral).scan.token = .plain := htoken
  rcases htoken with hn | hn
  · refine lasting_of_token (m := m.map Machine.numeral) ?_ hraw ?_ ?_ <;> rw [hn] <;> decide
  · exact lasting_of_plain hn hraw

theorem WellFormed.word (g : Settings) (ht : m.scan.token = .identifier) :
    (m.map (word g)).Lasting := by
  have hraw := h.raw_eq_none (by rw [ht]; rfl)
  by_cases hc : isWordChar m.scan.ch = true
  · have heq : Machine.word g m.scan = m.scan := by rw [Machine.word, if_pos hc]
    rw [map, heq]
    exact h.lasting (by rw [ht]; decide) rfl rfl
  · have heq : (Machine.word g m.scan).token = .plain := by
      rw [Machine.word, if_neg hc]
      rfl
    exact lasting_of_plain heq hraw

theorem WellFormed.quoted (quote : Char) (hr : isRaw m.scan.token = false)
    (hc : m.scan.token ≠ .lineComment) : (m.map (quoted quote)).Lasting := by
  have hraw := h.raw_eq_none hr
  rw [map, Machine.quoted]
  split
  · split
    · exact h.lasting hc rfl rfl
    · exact h.lasting hc rfl rfl
  · split
    · exact lasting_of_plain rfl hraw
    · exact h.lasting hc rfl rfl

theorem WellFormed.rawString (quote : Char) (hr : isRaw m.scan.token = true) :
    (m.rawString quote).Lasting := by
  have hc : m.scan.token ≠ .lineComment := by
    intro ht
    rw [ht] at hr
    cases hr
  rw [Machine.rawString]
  split
  · exact h.lasting hc rfl rfl
  · split
    · split
      · rename_i closed s heq
        cases closed with
        | true => exact lasting_of_plain (Paired.token_closeRaw heq) rfl
        | false =>
          have hmoved := moved_closeRaw heq
          exact h.lasting hc hmoved.token hmoved.mark
      · exact h.lasting hc rfl rfl
    · exact h.lasting hc rfl rfl

theorem WellFormed.percentOperator (ht : m.scan.token = .percentOperator) :
    m.percentOperator.Lasting := by
  have hraw := h.raw_eq_none (by rw [ht]; rfl)
  rw [Machine.percentOperator]
  split
  · exact lasting_of_plain rfl hraw
  · split
    · exact lasting_of_plain rfl hraw
    · exact h.lasting (by rw [ht]; decide) rfl rfl

/-- A comment ends where a line terminator starts, so one that does not end here goes on. -/
theorem WellFormed.lineComment (hsync : m.scan.InSync) (ht : m.scan.token = .lineComment) :
    (if m.scan.atTerminator then m.map (·.switch .plain) else m).Lasting := by
  split
  · exact lasting_of_plain rfl (h.raw_eq_none (by rw [ht]; rfl))
  · rename_i hno
    refine { h with goesOn := fun _ => ?_ }
    by_contra hch
    exact hno (hsync.atTerminator_of_ch (by omega) (h.comment ht))

theorem WellFormed.endToken (g : Settings) (hsync : m.scan.InSync) : (m.endToken g).Lasting := by
  have htoken := h.token
  have hstay (hc : m.scan.token ≠ .lineComment) : m.Lasting := h.lasting hc rfl rfl
  rw [Machine.endToken]
  split
  case h_1 ht => exact lasting_of_plain rfl (h.raw_eq_none (by rw [ht]; rfl))
  case h_2 ht => exact h.numeral ht
  case h_3 ht => exact h.word g ht
  case h_4 ht => exact h.lineComment hsync ht
  case h_5 ht => exact h.quoted _ (by rw [ht]; rfl) (by rw [ht]; decide)
  case h_6 ht => exact h.quoted _ (by rw [ht]; rfl) (by rw [ht]; decide)
  case h_7 ht => exact h.quoted _ (by rw [ht]; rfl) (by rw [ht]; decide)
  case h_8 ht => exact h.rawString _ (by rw [ht]; rfl)
  case h_9 ht => exact h.rawString _ (by rw [ht]; rfl)
  case h_10 ht => exact h.percentOperator ht
  case h_11 => exact hstay (by assumption)

end

/-! ### Starting a token -/

section

variable (hsync : m.scan.InSync) (hmark : m.scan.mark ≤ m.scan.pos)
include hsync hmark

/-- What opens a raw string is remembered, and its span starts there. -/
theorem lasting_startRaw (hc : Ascii.oneOf ['r', 'R'] m.scan.ch = true)
    (hn : Ascii.oneOf [Ascii.doubleQuote, Ascii.singleQuote] m.scan.next = true) :
    m.startRaw.Lasting := by
  have hsign := Scanner.isSign_of_oneOf (by decide) hc
  have hbyte := Scanner.byteAt_of_isSign hsync hsign
  have hs := t.lt_size_of_byteAt (p := m.scan.pos) (by
    rw [hbyte]
    exact (Scanner.isSign_iff.1 hsign).1)
  have hnext : t.byteAt (m.scan.pos + 1) = m.scan.next := by
    have hlt := (Scanner.isSign_iff.1 (Scanner.isSign_of_oneOf (by decide) hn)).2.2.2
    rw [hsync.next, Scanner.width_of_isSign hsync hsign] at hlt ⊢
    exact t.byteAt_eq_of_code_lt hlt
  rw [startRaw]
  cases hd : delimiterAt? t (m.scan.pos + 2) with
  | none =>
    dsimp only
    split
    · exact lasting_of_token rfl rfl rfl (by show Token.string ≠ _; decide)
    · exact lasting_of_token rfl rfl rfl (by show Token.singleQuoted ≠ _; decide)
  | some d =>
    obtain ⟨hbracket, hdashes⟩ := delimiterAt?_eq_some hd
    generalize htok : (if m.scan.seesNext Ascii.doubleQuote = true then Token.rawString
      else .rawSingleQuoted) = token
    have hr : isRaw token = true := by
      rw [← htok]
      split <;> rfl
    have hquote : m.scan.next = (quoteOf token).toNat := by
      simp only [Ascii.oneOf, List.any_cons, List.any_nil, Bool.or_false, Bool.or_eq_true,
        beq_iff_eq] at hn
      rw [← htok, Cursor.seesNext]
      rcases hn with hn | hn <;> rw [← hn] <;> rfl
    have hopens : Opens t m.scan.pos (quoteOf token) d :=
      { mark := by rw [hbyte]; exact hc, quote := hnext.trans hquote
        dashes := hdashes, bracket := hbracket }
    have hm : ((m.scan.switch token).forwardBy (d.dashes + 2)).mark = m.scan.pos := by
      rw [Scanner.mark_forwardBy, Scanner.mark_switch]
      omega
    refine lasting_of_opens (by simp) hr ?_
    rw [hm]
    exact hopens

omit hmark in
/-- A comment starts at its sign, so no line terminator does. -/
theorem lasting_openComment (hc : m.scan.sees '#' = true) (hraw : m.raw = none) :
    (m.map (·.switch .lineComment)).Lasting := by
  have hch : m.scan.ch = '#'.toNat := beq_iff_eq.1 hc
  have hbyte := (hsync.byteAt_of_ch_lt (by rw [hch]; decide)).1
  refine { token := rfl, raw := ?_, opens := ?_, comment := ?_, goesOn := ?_ }
  · show m.raw.isSome = false
    rw [hraw]
    rfl
  · show ∀ d ∈ m.raw, _
    rw [hraw]
    exact fun _ hd => absurd hd (Option.not_mem_none _)
  · intro _
    show t.endsPair (m.scan.switch .lineComment).pos = false
    rw [Scanner.toCursor_switch, Text.endsPair, hbyte, hch]
    rfl
  · intro _
    show (m.scan.switch .lineComment).ch ≠ 10 ∧ (m.scan.switch .lineComment).ch ≠ 13
    rw [Scanner.toCursor_switch, hch]
    decide

theorem lasting_startToken (ht : m.scan.token = .plain) (hraw : m.raw = none) :
    m.startToken.Lasting := by
  have hopen (token : Token) (hown : isOwn token = true) (hr : isRaw token = false)
      (hc : token ≠ .lineComment) : (m.map (·.switch token)).Lasting :=
    lasting_of_token hown hraw hr hc
  rw [startToken]
  dsimp only
  split
  · rw [map]
    split
    · exact lasting_of_token rfl hraw rfl (by show Token.number ≠ _; decide)
    · exact lasting_of_token rfl hraw rfl (by show Token.number ≠ _; decide)
  · split
    · rename_i hr
      rw [Bool.and_eq_true] at hr
      exact lasting_startRaw hsync hmark hr.1 hr.2
    · split
      · exact hopen _ rfl rfl (by decide)
      · split
        · rename_i hhash
          exact lasting_openComment hsync hhash hraw
        · split
          · exact hopen _ rfl rfl (by decide)
          · split
            · exact hopen _ rfl rfl (by decide)
            · split
              · exact hopen _ rfl rfl (by decide)
              · split
                · exact hopen _ rfl rfl (by decide)
                · split
                  · exact hopen _ rfl rfl (by decide)
                  · exact lasting_of_plain ht hraw

end

/-! ## 3. Rounds -/

theorem Lasting.forward (h : m.Lasting) (hsync : m.scan.InSync) (hmore : m.scan.more = true) :
    (m.map (·.forward)).WellFormed where
  token := h.token
  raw := h.raw
  opens := h.opens
  comment ht := hsync.endsPair_forward hmore (h.goesOn ht).2

theorem Lasting.noteEnd (h : m.Lasting) : m.noteEnd.Lasting := by
  rw [Machine.noteEnd]
  split
  · exact { token := h.token, raw := h.raw, opens := h.opens, comment := h.comment
            goesOn := h.goesOn }
  · exact h

theorem Lasting.settle (h : m.Lasting) (hsync : m.scan.InSync) (hmark : m.scan.mark ≤ m.scan.pos) :
    m.settle.Lasting := by
  rw [Machine.settle]
  split
  · rename_i ht
    exact lasting_startToken hsync hmark ht (h.raw_eq_none (by rw [ht]; rfl))
  · exact h

theorem WellFormed.step (g : Settings) (h : m.WellFormed) (hl : Like o k m m)
    (hlt : m.scan.pos < k) (hstep : (m.step g).scan.pos < k) : (m.step g).WellFormed := by
  have hin : Within o k m m := ⟨hl, hlt⟩
  rcases hin.endToken_cases g with ⟨he, hcalm⟩ | ⟨⟨heq, -⟩, -, -, hk⟩
  · have hmark := he.scan.mark_le
    have hw := (h.endToken g hin.inside.cursor.sync).settle he.inside.cursor.sync (by omega)
    have hs := (he.settle hcalm).1.inside
    rw [step_eq, finishRound]
    exact hw.noteEnd.forward (by simpa using hs.cursor.sync)
      (by simpa using hs.cursor.more hs.lt)
  · -- then the round does not end before `k`
    have hle : m.leaveOpen.scan.pos ≤ (m.leaveOpen.step g).scan.pos :=
      (m.leaveOpen.advances_step g).reach.pos_le
    rw [step_leaveOpen g heq] at hle
    omega

/-! ## 4. Over a line end -/

/-- The machine stands behind a line end with what may be open there: nothing that has to
be remembered, or a raw string, and how that was opened is remembered. -/
structure Crossed (m : Machine t) : Prop extends Arrived m where
  carried : m.scan.token ∈ [Token.plain, .string, .singleQuoted, .backticked, .rawString,
    .rawSingleQuoted]
  raw : m.raw.isSome = isRaw m.scan.token
  opens : ∀ d ∈ m.raw, m.scan.mark < m.scan.pos ∧ Opens t m.scan.mark (quoteOf m.scan.token) d

section

variable {p : Nat}

/-- On the last byte of a terminator no comment is open and no token that is over before. -/
theorem Lasting.carried (h : m.Lasting) (hcalm : m.Calm) (hsync : m.scan.InSync)
    (hp : t.breaksAfter m.scan.pos = true) (hend : m.scan.atLineEnd = true) :
    m.scan.token ∈ [Token.plain, .string, .singleQuoted, .backticked, .rawString,
      .rawSingleQuoted] := by
  have hbrief := hcalm.brief hsync hend
  have hown := h.token
  have hcomment : m.scan.token ≠ .lineComment := by
    intro ht
    have hgo := h.goesOn ht
    have hbyte := t.byteAt_of_breaksAfter hp
    rw [hsync.ch, t.charAt_of_byteAt_lt (by omega)] at hgo
    exact hbyte.elim hgo.1 hgo.2
  rw [isOwn, hbrief] at hown
  simp [isRaw] at hown ⊢
  tauto

/-- A round that goes over the line end at `p` stands behind it with its token when it is
over, or with nothing open and the rest of the round to come. -/
theorem exists_crossed (g : Settings) (hl : Like o (p + 1) m m) (hlt : m.scan.pos < p + 1)
    (h : m.WellFormed) (hp : t.breaksAfter p = true) (hcross : p + 1 ≤ (m.step g).scan.pos) :
    ∃ n : Machine t, Like o (p + 1) n n ∧ n.scan.pos = p + 1 ∧ n.Crossed
      ∧ (n = m.step g ∨ n.step g = m.step g ∧ n.scan.mark = min (p + 1) t.size) := by
  have hin : Within o (p + 1) m m := ⟨hl, hlt⟩
  have hlasting := h.endToken g hin.inside.cursor.sync
  rcases hin.endToken_cases g with ⟨he, hcalm⟩ | ⟨⟨heq, -⟩, hend, hlike, hpos⟩
  · obtain ⟨hlike, harr⟩ := he.finishRound hcalm
    have hmark := he.scan.mark_le
    have hw := hlasting.settle he.inside.cursor.sync (by omega)
    obtain ⟨hs, hcalm⟩ := he.settle hcalm
    rw [← step_eq] at hlike harr
    have hpos : (m.step g).scan.pos = p + 1 := Nat.le_antisymm hlike.scan.cursor.pos_le hcross
    refine ⟨m.step g, hlike, hpos, ?_, Or.inl rfl⟩
    have hlast := hpos
    rw [step_eq, finishRound, map, Scanner.toCursor_forward, toCursor_noteEnd] at hlast
    obtain ⟨hx, hend⟩ := hs.inside.pos_of_forward hlast
    obtain rfl : p = (m.endToken g).settle.scan.pos := by omega
    have hmark := hs.scan.mark_le
    have hcarried := hw.carried hcalm hs.inside.cursor.sync hp hend
    refine { (harr hpos).1 with carried := ?_, raw := ?_, opens := ?_ }
    all_goals rw [step_eq, finishRound, map]
    · simpa using hcarried
    · simpa using hw.raw
    · intro d hd
      rw [Scanner.mark_forward, mark_noteEnd, Scanner.token_forward, token_noteEnd,
        Scanner.toCursor_forward, toCursor_noteEnd]
      refine ⟨?_, hw.opens d (by simpa using hd)⟩
      have hlast : (m.endToken g).settle.scan.toCursor.forward.pos = _ := hlast
      omega
  · rw [heq] at hlasting
    have hraw := hlasting.raw_eq_none rfl
    refine ⟨m.leaveOpen, hlike, hpos, ?_, Or.inr ⟨step_leaveOpen g heq, ?_⟩⟩
    · refine { arrived_leaveOpen hin.inside.cursor.sync (hin.inside.cursor.more hlt)
                hin.scan.mark_le hend with carried := ?_, raw := ?_, opens := ?_ }
      · show Token.plain ∈ _
        decide
      · rw [hraw]; rfl
      · rw [hraw]; exact fun _ hd => absurd hd (Option.not_mem_none _)
    · rw [mark_leaveOpen hin.scan.mark_le, hpos]

end

end Machine

/-! ## 5. The whole run -/

/-- The machine behind a line end, from which a whole run goes on to its end. -/
theorem exists_crossed_rest (g : Settings) {t : Text} {p : Nat} (hp : t.breaksAfter p = true) :
    ∃ n : Machine t, Machine.Like 0 (p + 1) n n ∧ n.scan.pos = p + 1 ∧ n.Crossed
      ∧ (engine g).Rest n ((engine g).last t 0 t.size .plain 0) := by
  have hstop : t.IsStop (p + 1) :=
    t.isStop_of_mem_starts (t.mem_starts_iff.2 (Or.inr hp)) (Nat.succ_pos p)
  obtain ⟨q, hq, hmore, hstart, hlike, hlt, hcross⟩ :=
    (resumable g).exists_crossing (sound g) hstop (Nat.succ_pos p)
  have hlike : Machine.Like 0 (p + 1) q q := hlike
  have hwf : q.WellFormed :=
    (resumable g).invariant_of_comes (sound g) (P := Machine.WellFormed)
      (fun m hl hlt hstep h => h.step g hl hlt hstep) hstart hq hlt
      (Machine.lasting_of_plain rfl rfl).toWellFormed
  obtain ⟨n, hlike, hpos, hn, hround⟩ := Machine.exists_crossed g hlike hlt hwf hp hcross
  have hends : (engine g).Ends (q.step g) ((engine g).last t 0 t.size .plain 0) :=
    ((sound g).ends_start t 0 t.size .plain 0).of_comes (hq.round hmore)
  refine ⟨n, hlike, hpos, hn, ?_⟩
  rcases hround with rfl | ⟨heq, hmark⟩
  · exact Or.inl hends
  · exact .of_round (sound g) heq hends (hmark.trans (by rw [← hpos]; rfl))

/-- What a whole run says of a line end: a token that may stand there, and a delimiter if
that is a raw string, which is the one that opened it. -/
theorem exists_carried (g : Settings) {t : Text} {p : Nat} (ht : t.size < 2 ^ 23)
    (hp : t.breaksAfter p = true) :
    ∃ token saved, ((engine g).whole t).tokenAt? p = some token
      ∧ ((engine g).whole t).stateOf? (t.lineOf p) = some (LineState.pack saved)
      ∧ token ∈ [Token.plain, .string, .singleQuoted, .backticked, .rawString,
        .rawSingleQuoted, .openPercentOperator]
      ∧ saved.isSome = isRaw token
      ∧ (∀ d ∈ saved, d.Fits)
      ∧ ∀ d ∈ saved, ∃ span ∈ ((engine g).whole t).spans, span.contains p = true
        ∧ span.token = token ∧ Opens t span.start (quoteOf token) d := by
  have hs := t.lt_size_of_breaksAfter hp
  obtain ⟨n, hlike, hpos, hn, hrest⟩ := exists_crossed_rest g hp
  obtain ⟨token, hlook, hopening⟩ := hn.look
  rw [hpos, Nat.add_sub_cancel] at hlook
  obtain ⟨hline, htoken, hstate⟩ :=
    (resumable g).whole_of_lineEnd (sound g) hp hlike hn.toArrived hrest hpos
  have hline : n.scan.line = t.lineOf p + 1 := hline
  have htoken : ((engine g).whole t).tokenAt? p = some token := htoken.trans hlook
  -- the byte before has the machine's token, unless the line left a percent operator open
  have hsame := Machine.opening_cases hopening
  have hrawtoken : isRaw n.scan.token = isRaw token := by
    rcases hsame with rfl | ⟨rfl, heq⟩
    · rfl
    · rw [heq]; rfl
  refine ⟨token, n.raw, htoken, ?_, ?_, hn.raw.trans hrawtoken, ?_, ?_⟩
  · have hsaved := hn.saved
    rw [Machine.Saved, hline, Nat.add_sub_cancel] at hsaved
    exact hstate.trans hsaved
  · have hcarried := hn.carried
    rcases hsame with rfl | ⟨rfl, -⟩
    · exact List.mem_append_left [Token.openPercentOperator] hcarried
    · decide
  · intro d hd
    obtain ⟨hclose, hle⟩ := hlike.fits d hd
    refine fits_of_isClosing hclose ?_
    omega
  · intro d hd
    obtain ⟨hmark, hopens⟩ := hn.opens d hd
    obtain ⟨span, hspan, hstart, hin, hlook⟩ :=
      (hrest.reach (sound g)).exists_span_finish (p := p) (by show n.scan.mark ≤ p; omega)
        (by show p < n.scan.pos; omega) hs
    have heq : span.token = token := by
      rw [Engine.whole, Engine.style, hlook] at htoken
      exact Option.some.inj htoken
    have hquote : quoteOf token = quoteOf n.scan.token := by
      rcases hsame with rfl | ⟨rfl, hplain⟩
      · rfl
      · rw [hplain]; rfl
    refine ⟨span, hspan, hin, heq, ?_⟩
    rw [hstart, hquote]
    exact hopens

end R

end Restyle
