/-
Restyle.Proofs.Buffer.Records — which line of an edited buffer has the
state and the level of an old line.

An edit shifts the entries behind the line it starts on by the number of
lines that the text gains or loses. For the entries to stay with their
lines, the lines behind the edit have to be renumbered by as much, and
this is what the common tail of the two texts gives
(`Text.EndsAs.lastLine_add`). Their entries stand behind those that are
put in or taken out unless the deletion has joined a carriage return and
a line feed: the line before the deletion then takes in the one it
starts on, while the entry of that one is kept
(`recordedAs`).
-/
import Restyle.Proofs.Text.Tails

namespace Restyle

namespace Buffer

/-! ## 1. Lines and their entries -/

/-- Line `i` of `b` is line `j` of `b'`, and starts at `pos` there. -/
structure StandsAt (b b' : Buffer) (i j pos : Nat) : Prop where
  lt : j < b'.text.lineCount
  start : b'.text.lineStart j = pos
  body : b'.text.lineBody j = b.text.lineBody i

/-- What is recorded about line `j` of `b'` is what was recorded about line `i` of `b`. -/
structure SameRecord (b b' : Buffer) (i j : Nat) : Prop where
  state : b'.lineState j = b.lineState i
  level : b'.level j = b.level i

theorem sameRecord_of_getElem? {b b' : Buffer} {i j : Nat}
    (state : b'.lineStates[j]? = b.lineStates[i]?) (level : b'.levels[j]? = b.levels[i]?) :
    SameRecord b b' i j where
  state := by simp only [lineState, Array.getD_eq_getD_getElem?, state]
  level := by simp only [Buffer.level, Array.getD_eq_getD_getElem?, level]

variable {b b' : Buffer} {n p q i j : Nat}

/-- Lines that end within what buffers have in common stay where they are. -/
theorem BeginsAs.standsAt (h : BeginsAs n b b') (hi : i < b.text.lineOf n) :
    StandsAt b b' i i (b.text.lineStart i) where
  lt := by
    obtain ⟨e, he, -, rfl⟩ := Text.exists_breaksAfter_of_lt_lineOf hi
    rw [← h.text.lineOf he, b'.text.lineCount_eq_lastLine]
    exact Nat.lt_succ_of_le (b'.text.lineOf_le_lastLine e)
  start := h.text.lineStart_of_lt hi
  body := h.text.lineBody_of_lt hi

theorem BeginsAs.sameRecord (h : BeginsAs n b b') (hi : i ≤ b.text.lineOf n) :
    SameRecord b b' i i :=
  ⟨h.state i hi, h.level i hi⟩

/-- Lines that start inside a common tail are renumbered. -/
theorem standsAt_of_endsAs (h : Text.EndsAs p q b.text b'.text) (hi : b.text.lineOf p < i)
    (hlt : i < b.text.lineCount) (hj : j + b.text.lineOf p = i + b'.text.lineOf q) :
    StandsAt b b' i j (b.text.lineStart i + q - p) where
  lt := by
    have := h.lastLine_add
    rw [Text.lineCount_eq_lastLine] at hlt ⊢
    omega
  start := by rw [← h.lineStart_add hi hj, Nat.add_sub_cancel]
  body := h.lineBody hi (by rw [Text.lineCount_eq_lastLine] at hlt; omega) hj

/-! ## 2. Insertions -/

section Insert

variable {pos : Nat} {more : Array UInt8}

theorem text_insert (h : pos ≤ b.size) : (b.insert pos more).text = b.text.insert pos more := by
  rw [insert, Nat.min_eq_left h]

/-- The entries behind the line of an insertion move on by the lines it adds. -/
theorem sameRecord_insert_add (hb : b.WellFormed) (h : pos ≤ b.size) (k : Nat) :
    SameRecord b (b.insert pos more) (b.text.lineOf pos + 1 + k)
      (b.text.lineOf pos + 1 + ((b.insert pos more).text.lineCount - b.text.lineCount) + k) := by
  have hle : b.text.lineOf pos + 1 ≤ b.lineStates.size := by
    rw [hb.lineStates_size, Text.lineCount_eq_lastLine]
    exact Nat.succ_le_succ (b.text.lineOf_le_lastLine pos)
  have hle' : b.text.lineOf pos + 1 ≤ b.levels.size := by
    rw [hb.levels_size, ← hb.lineStates_size]
    exact hle
  rw [text_insert h]
  generalize hadded : (b.text.insert pos more).lineCount - b.text.lineCount = added
  apply sameRecord_of_getElem?
  · have hget := getElem?_insertAt_add hle (Array.replicate added (0 : Int)) k
    rw [Array.size_replicate] at hget
    simpa only [insert, Nat.min_eq_left h, Nat.min_eq_left hle, hadded] using hget
  · have hget := getElem?_insertAt_add hle' (Array.replicate added FoldLevel.base) k
    rw [Array.size_replicate] at hget
    simpa only [insert, Nat.min_eq_left h, Nat.min_eq_left hle, hadded] using hget

/-- Lines behind an insertion are renumbered by the lines it adds, so they keep their entries. -/
theorem exists_standsAt_insert (hb : b.WellFormed) (h : pos ≤ b.size) (more : Array UInt8)
    (hi : b.text.lineOf pos < i) (hlt : i < b.text.lineCount) :
    ∃ j, StandsAt b (b.insert pos more) i j (b.text.lineStart i + more.size)
      ∧ SameRecord b (b.insert pos more) i j := by
  have htail : Text.EndsAs pos (pos + more.size) b.text (b.insert pos more).text := by
    rw [text_insert h]
    exact Text.endsAs_insert h more
  have hlines : b.text.lineCount ≤ (b.insert pos more).text.lineCount := by
    rw [text_insert h]
    exact b.text.lineCount_le_insert pos more
  have hlast := htail.lastLine_add
  obtain ⟨k, rfl⟩ := Nat.exists_eq_add_of_le (Nat.succ_le_of_lt hi)
  refine ⟨_, ?_, sameRecord_insert_add hb h k⟩
  have hplace : b.text.lineStart (b.text.lineOf pos + 1 + k) + more.size
      = b.text.lineStart (b.text.lineOf pos + 1 + k) + (pos + more.size) - pos := by
    omega
  rw [hplace]
  apply standsAt_of_endsAs htail hi hlt
  rw [Text.lineCount_eq_lastLine, Text.lineCount_eq_lastLine] at hlines ⊢
  omega

end Insert

/-! ## 3. Deletions -/

section Delete

variable {start stop : Nat}

theorem text_delete (h : start < stop) (h' : stop ≤ b.size) :
    (b.delete start stop).text = b.text.delete start stop := by
  simp only [delete, Nat.min_eq_left h', Nat.min_eq_left (Nat.le_of_lt h),
    if_neg (Nat.ne_of_lt h)]

/-- The entries behind the line that a deletion starts on move back by the lines that go. -/
theorem sameRecord_delete_add (hb : b.WellFormed) (h : start < stop) (h' : stop ≤ b.size)
    (k : Nat) :
    SameRecord b (b.delete start stop)
      (b.text.lineOf start + 1 + (b.text.lineCount - (b.delete start stop).text.lineCount) + k)
      (b.text.lineOf start + 1 + k) := by
  have hkept := b.text.lineOf_lt_lineCount_delete (Nat.le_of_lt h) h'
  have hfewer := b.text.lineCount_delete_le (Nat.le_of_lt h)
  rw [text_delete h h']
  generalize hremoved : b.text.lineCount - (b.text.delete start stop).lineCount = removed
  have hfirst : b.text.lineOf start + 1 ≤ b.lineStates.size := by
    rw [hb.lineStates_size]
    omega
  have hpast : b.text.lineOf start + 1 + removed ≤ b.lineStates.size := by
    rw [hb.lineStates_size]
    omega
  have hpast' : b.text.lineOf start + 1 + removed ≤ b.levels.size := by
    rw [hb.levels_size, ← hb.lineStates_size]
    exact hpast
  apply sameRecord_of_getElem?
  · have hget := getElem?_removeRange_add (Nat.le_add_right _ _) hpast k
    simpa only [delete, Nat.min_eq_left h', Nat.min_eq_left (Nat.le_of_lt h),
      if_neg (Nat.ne_of_lt h), Nat.min_eq_left hfirst, hremoved, Nat.min_eq_left hpast] using hget
  · have hget := getElem?_removeRange_add (Nat.le_add_right _ _) hpast' k
    simpa only [delete, Nat.min_eq_left h', Nat.min_eq_left (Nat.le_of_lt h),
      if_neg (Nat.ne_of_lt h), Nat.min_eq_left hfirst, hremoved, Nat.min_eq_left hpast] using hget

/-- The line whose entries a line behind a deletion gets: its own, but the line after a line
feed that joins a carriage return gets those of the line that the deletion starts on. -/
def recordedAs (t : Text) (start stop line : Nat) : Nat :=
  if t.JoinsPair start stop ∧ line = t.lineOf stop + 1 then t.lineOf start else line

/-- Lines behind a deletion are renumbered by the lines that go. -/
theorem exists_standsAt_delete (hb : b.WellFormed) (h : start < stop) (h' : stop ≤ b.size)
    (hi : b.text.lineOf stop < i) (hlt : i < b.text.lineCount) :
    ∃ j, StandsAt b (b.delete start stop) i j (b.text.lineStart i - (stop - start))
      ∧ SameRecord b (b.delete start stop) (recordedAs b.text start stop i) j := by
  have htail : Text.EndsAs stop start b.text (b.delete start stop).text := by
    rw [text_delete h h']
    exact Text.endsAs_delete (Nat.le_of_lt h) h'
  have hplace : b.text.lineStart i - (stop - start) = b.text.lineStart i + start - stop := by
    have hle : i ≤ b.text.lastLine := by
      rw [Text.lineCount_eq_lastLine] at hlt
      omega
    have := Text.lt_lineStart_of_lineOf_lt hi hle
    omega
  have hlines : b.text.lineCount = (b.delete start stop).text.lineCount
      + (b.text.lineCount - (b.delete start stop).text.lineCount) := by
    have := b.text.lineCount_delete_le (Nat.le_of_lt h)
    rw [text_delete h h']
    omega
  have hlast := htail.lastLine_add
  have hrecord := sameRecord_delete_add hb h h'
  generalize b.text.lineCount - (b.delete start stop).text.lineCount = removed at hlines hrecord
  rw [Text.lineCount_eq_lastLine, Text.lineCount_eq_lastLine] at hlines
  have hstands := standsAt_of_endsAs htail hi hlt (j := i - removed) (by omega)
  refine ⟨i - removed, hplace ▸ hstands, ?_⟩
  have hmoved (hle : b.text.lineOf start + 1 + removed ≤ i) :
      SameRecord b (b.delete start stop) i (i - removed) := by
    obtain ⟨k, rfl⟩ := Nat.exists_eq_add_of_le hle
    rw [show b.text.lineOf start + 1 + removed + k - removed
      = b.text.lineOf start + 1 + k by omega]
    exact hrecord k
  by_cases hjoins : b.text.JoinsPair start stop
  · have hline := hjoins.lineOf_delete h'
    rw [← text_delete h h'] at hline
    by_cases hnext : i = b.text.lineOf stop + 1
    · -- the entry is that of the line that has joined the one before it
      have hbegins := beginsAs_delete hb (Nat.le_of_lt (Nat.lt_of_lt_of_le h h')) stop
      rw [recordedAs, if_pos ⟨hjoins, hnext⟩, show i - removed = b.text.lineOf start by omega]
      exact hbegins.sameRecord (Nat.le_refl _)
    · rw [recordedAs, if_neg fun hno => hnext hno.2]
      exact hmoved (by omega)
  · have hline := Text.lineOf_le_lineOf_delete hjoins h h'
    rw [← text_delete h h'] at hline
    rw [recordedAs, if_neg fun hno => hjoins hno.1]
    exact hmoved (by omega)

end Delete

/-! ## 4. Any arguments -/

theorem delete_of_le {start stop : Nat} (h : min stop b.size ≤ start) :
    b.delete start stop = b := by
  simp only [delete, Nat.min_eq_right h, if_true]

theorem insert_of_size_le {pos : Nat} (h : b.size ≤ pos) (more : Array UInt8) :
    b.insert pos more = b.insert b.size more := by
  simp only [insert, Nat.min_eq_right h, Nat.min_self]

/-- Every line that ends before an edit stays where it is, and every line that starts behind
it moves with its text. All of them keep their states and levels, except that where a
deletion joins a carriage return and a line feed, the line after the line feed gets those of
the line that the deletion starts on. -/
theorem records_follow_lines (hb : b.WellFormed) (pos : Nat) (more : Array UInt8)
    (start stop : Nat) :
    (∀ i < b.text.lineOf pos, StandsAt b (b.insert pos more) i i (b.text.lineStart i)
        ∧ SameRecord b (b.insert pos more) i i)
      ∧ (∀ i, b.text.lineOf pos < i → i < b.text.lineCount →
        ∃ j, StandsAt b (b.insert pos more) i j (b.text.lineStart i + more.size)
          ∧ SameRecord b (b.insert pos more) i j)
      ∧ (∀ i < b.text.lineOf start, StandsAt b (b.delete start stop) i i (b.text.lineStart i)
        ∧ SameRecord b (b.delete start stop) i i)
      ∧ (∀ i, b.text.lineOf stop < i → i < b.text.lineCount →
        ∃ j, StandsAt b (b.delete start stop) i j
            (b.text.lineStart i - (min stop b.size - start))
          ∧ SameRecord b (b.delete start stop) (recordedAs b.text start stop i) j) := by
  have hpast {p : Nat} (h : b.size ≤ p) : b.text.lineOf p = b.text.lineOf b.size :=
    b.text.lineOf_of_size_le h
  refine ⟨fun i hi => ?_, fun i hi hlt => ?_, fun i hi => ?_, fun i hi hlt => ?_⟩
  · rcases Nat.le_total pos b.size with hle | hle
    · have hbegins := beginsAs_insert hb hle more
      exact ⟨hbegins.standsAt hi, hbegins.sameRecord (Nat.le_of_lt hi)⟩
    · have hbegins := beginsAs_insert hb (Nat.le_refl _) more
      rw [hpast hle] at hi
      rw [insert_of_size_le hle]
      exact ⟨hbegins.standsAt hi, hbegins.sameRecord (Nat.le_of_lt hi)⟩
  · have hle : pos ≤ b.size := by
      refine Nat.le_of_not_le fun hle => ?_
      rw [hpast hle] at hi
      rw [Text.lineCount_eq_lastLine] at hlt
      exact absurd hi (Nat.not_lt_of_le (Nat.le_of_lt_succ hlt))
    exact exists_standsAt_insert hb hle more hi hlt
  · rcases Nat.le_total start b.size with hle | hle
    · have hbegins := beginsAs_delete hb hle stop
      exact ⟨hbegins.standsAt hi, hbegins.sameRecord (Nat.le_of_lt hi)⟩
    · have hbegins := BeginsAs.refl (b := b) (Nat.le_refl b.size)
      rw [hpast hle] at hi
      rw [delete_of_le (Nat.le_trans (Nat.min_le_right ..) hle)]
      exact ⟨hbegins.standsAt hi, hbegins.sameRecord (Nat.le_of_lt hi)⟩
  · have hle : stop ≤ b.size := by
      refine Nat.le_of_not_le fun hle => ?_
      rw [hpast hle] at hi
      rw [Text.lineCount_eq_lastLine] at hlt
      exact absurd hi (Nat.not_lt_of_le (Nat.le_of_lt_succ hlt))
    rw [Nat.min_eq_left hle]
    rcases Nat.lt_or_ge start stop with hstart | hstart
    · exact exists_standsAt_delete hb hstart hle hi hlt
    · rw [delete_of_le (Nat.le_trans (Nat.min_le_left ..) hstart), Nat.sub_eq_zero_of_le hstart,
        recordedAs, if_neg fun hno => absurd hno.1.1 (Nat.not_lt_of_le hstart)]
      exact ⟨i, ⟨hlt, rfl, rfl⟩, ⟨rfl, rfl⟩⟩

/-- Entries of the lines 1 and 2 of a text in which a deletion joins a pair. -/
def marked : Buffer :=
  ((ofText (.ofBytes #[0x78, 0x0D, 0x79, 0x79, 0x79, 0x0A, 0x62] .utf8)).setLineState 1 7
    ).setLineState 2 9

theorem records_follow_lines_of_joined_pair :
    marked.WellFormed
      ∧ (∀ i < marked.text.lineOf 4, StandsAt marked (marked.insert 4 #[0x0A]) i i
            (marked.text.lineStart i)
          ∧ SameRecord marked (marked.insert 4 #[0x0A]) i i)
      ∧ (∀ i, marked.text.lineOf 4 < i → i < marked.text.lineCount →
        ∃ j, StandsAt marked (marked.insert 4 #[0x0A]) i j (marked.text.lineStart i + 1)
          ∧ SameRecord marked (marked.insert 4 #[0x0A]) i j)
      ∧ (∀ i < marked.text.lineOf 2, StandsAt marked (marked.delete 2 5) i i
            (marked.text.lineStart i)
          ∧ SameRecord marked (marked.delete 2 5) i i)
      ∧ (∀ i, marked.text.lineOf 5 < i → i < marked.text.lineCount →
        ∃ j, StandsAt marked (marked.delete 2 5) i j
            (marked.text.lineStart i - (min 5 marked.size - 2))
          ∧ SameRecord marked (marked.delete 2 5) (recordedAs marked.text 2 5 i) j) :=
  have hb : marked.WellFormed := ((wellFormed_ofText _).setLineState 1 7).setLineState 2 9
  ⟨hb, records_follow_lines hb 4 #[0x0A] 2 5⟩

/-- The last line starts behind the deletion, but does not keep its state. -/
theorem delete_gives_joined_record :
    marked.WellFormed ∧ marked.text.lineOf 5 < 2 ∧ 2 < marked.text.lineCount
      ∧ (marked.delete 2 5).text.lineStart 1 = marked.text.lineStart 2 - 3
      ∧ marked.lineState 2 = 9 ∧ (marked.delete 2 5).lineState 1 = 7
      ∧ ¬ ∃ j, StandsAt marked (marked.delete 2 5) 2 j (marked.text.lineStart 2 - 3)
        ∧ SameRecord marked (marked.delete 2 5) 2 j := by
  refine ⟨((wellFormed_ofText _).setLineState 1 7).setLineState 2 9, by decide, by decide,
    by decide, by decide, by decide, ?_⟩
  rintro ⟨j, hstands, hrecord⟩
  have hj : j < 2 := hstands.lt
  have hstart := hstands.start
  have hstate := hrecord.state
  match j, hj with
  | 0, _ => exact absurd hstart (by decide)
  | 1, _ => exact absurd hstate (by decide)

end Buffer

end Restyle
