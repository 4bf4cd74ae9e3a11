/-
Restyle.Text.LineTable — what an edit can do to the lines of a text.

Every line break stands behind the bytes that make it, and the bytes
around it decide whether there is one only by the line feed that may
follow a carriage return. So an insertion takes no line away and a
deletion adds none (`lineCount_le_insert`, `lineCount_delete_le`), and
the lines up to the place of a deletion stay (`lineOf_lt_lineCount_delete`).
-/
import Restyle.Text

namespace Restyle

/-! ## Line breaks -/

/-- How many lines there are does not depend on where the bytes stand. -/
theorem length_lineBreaks (p q : Nat) (bytes : List UInt8) :
    (lineBreaks p bytes).length = (lineBreaks q bytes).length := by
  induction bytes generalizing p q with
  | nil => rfl
  | cons b rest ih =>
    simp only [lineBreaks]
    split <;> simp [ih (p + 1) (q + 1)]

/-- More bytes in front take no line break away. -/
theorem length_lineBreaks_le_append (p : Nat) (more bytes : List UInt8) :
    (lineBreaks p bytes).length ≤ (lineBreaks p (more ++ bytes)).length := by
  induction more generalizing p with
  | nil => exact Nat.le_refl _
  | cons b rest ih =>
    have := ih (p + 1)
    rw [length_lineBreaks (p + 1) p bytes] at this
    simp only [List.cons_append, lineBreaks]
    split <;> simp <;> omega

/-- Bytes put in anywhere take no line break away: a line feed behind a carriage return
joins its line end, but ends the line itself. -/
theorem length_lineBreaks_insert (p : Nat) (before more after : List UInt8) :
    (lineBreaks p (before ++ after)).length ≤ (lineBreaks p (before ++ (more ++ after))).length := by
  induction before generalizing p with
  | nil => exact length_lineBreaks_le_append p more after
  | cons b rest ih =>
    have hrest := ih (p + 1)
    cases rest with
    | cons c rest =>
      have same : endsLine b (c :: rest ++ after) = endsLine b (c :: rest ++ (more ++ after)) := rfl
      show (lineBreaks p (b :: (c :: rest ++ after))).length
        ≤ (lineBreaks p (b :: (c :: rest ++ (more ++ after)))).length
      rw [lineBreaks, lineBreaks, same]
      split
      · exact Nat.succ_le_succ hrest
      · exact hrest
    | nil =>
      cases more with
      | nil => exact Nat.le_refl _
      | cons c more =>
        have hmore := length_lineBreaks_le_append (p + 2) more after
        rw [length_lineBreaks (p + 2) (p + 1) after] at hmore
        simp only [List.cons_append, List.nil_append, lineBreaks, endsLine, List.head?_cons]
        grind

/-- Line breaks stand behind the bytes that make them. -/
theorem lt_of_mem_lineBreaks {p q : Nat} {bytes : List UInt8} (h : q ∈ lineBreaks p bytes) :
    p < q := by
  induction bytes generalizing p with
  | nil => simp [lineBreaks] at h
  | cons b rest ih =>
    simp only [lineBreaks] at h
    split at h
    · rcases List.mem_cons.1 h with rfl | h
      · omega
      · have := ih h; omega
    · have := ih h; omega

/-- No line break stands at or before the first byte. -/
theorem countP_lineBreaks_eq_zero {p n : Nat} (h : n ≤ p) (bytes : List UInt8) :
    (lineBreaks p bytes).countP (· ≤ n) = 0 := by
  rw [List.countP_eq_zero]
  intro q hq
  have := lt_of_mem_lineBreaks hq
  simp; omega

/-- The lines that have started by the end of `before` are there whatever follows it. -/
theorem countP_lineBreaks_le (p : Nat) (before after other : List UInt8) :
    (lineBreaks p (before ++ after)).countP (· ≤ p + before.length)
      ≤ (lineBreaks p (before ++ other)).length := by
  induction before generalizing p with
  | nil => simp [countP_lineBreaks_eq_zero]
  | cons b rest ih =>
    have hrest := ih (p + 1)
    cases rest with
    | cons c rest =>
      have same : endsLine b (c :: rest ++ after) = endsLine b (c :: rest ++ other) := rfl
      show (lineBreaks p (b :: (c :: rest ++ after))).countP (· ≤ p + (b :: c :: rest).length)
        ≤ (lineBreaks p (b :: (c :: rest ++ other))).length
      rw [show p + (b :: c :: rest).length = p + 1 + (c :: rest).length by simp; omega,
        lineBreaks, lineBreaks, same]
      split
      · rw [List.countP_cons]
        have : (if decide (p + 1 ≤ p + 1 + (c :: rest).length) = true then 1 else 0) = 1 := by simp
        simp only [List.length_cons] at this hrest ⊢
        omega
      · exact hrest
    | nil =>
      have none := countP_lineBreaks_eq_zero (Nat.le_refl (p + 1)) after
      simp only [List.cons_append, List.nil_append, lineBreaks, List.length_cons,
        List.length_nil] at none ⊢
      cases other with
      | nil => grind [endsLine]
      | cons c other => grind [endsLine, lineBreaks]

/-! ## Edited texts -/

namespace Text

variable (t : Text)

/-- There is one line more than there are line breaks. -/
theorem lineCount_eq : t.lineCount = (lineBreaks 0 t.bytes.toList).length + 1 := by
  simp [lineCount, t.starts_eq, lineStarts]

/-- An insertion cuts the bytes in two. -/
theorem toList_insert (pos : Nat) (more : Array UInt8) :
    (t.insert pos more).bytes.toList
      = t.bytes.toList.take pos ++ (more.toList ++ t.bytes.toList.drop pos) := by
  have tail : (t.bytes.toList.drop pos).take (t.bytes.size - pos) = t.bytes.toList.drop pos :=
    List.take_of_length_le (by simp)
  simp [insert, ofBytes, size, tail]

/-- A deletion keeps what stands before and after it. -/
theorem toList_delete (start stop : Nat) :
    (t.delete start stop).bytes.toList = t.bytes.toList.take start ++ t.bytes.toList.drop stop := by
  have tail : (t.bytes.toList.drop stop).take (t.bytes.size - stop) = t.bytes.toList.drop stop :=
    List.take_of_length_le (by simp)
  simp [delete, ofBytes, size, tail]

theorem size_insert {pos : Nat} (h : pos ≤ t.size) (more : Array UInt8) :
    (t.insert pos more).size = t.size + more.size := by
  have := congrArg List.length (t.toList_insert pos more)
  simp only [size, Array.length_toList, List.length_append, List.length_take, List.length_drop]
    at this h ⊢
  omega

theorem size_delete {start stop : Nat} (h : start ≤ stop) (h' : stop ≤ t.size) :
    (t.delete start stop).size = t.size - (stop - start) := by
  have := congrArg List.length (t.toList_delete start stop)
  simp only [size, Array.length_toList, List.length_append, List.length_take, List.length_drop]
    at this h' ⊢
  omega

/-- No insertion takes a line away. -/
theorem lineCount_le_insert (pos : Nat) (more : Array UInt8) :
    t.lineCount ≤ (t.insert pos more).lineCount := by
  have h := length_lineBreaks_insert 0 (t.bytes.toList.take pos) more.toList
    (t.bytes.toList.drop pos)
  rw [List.take_append_drop] at h
  rw [lineCount_eq, lineCount_eq, toList_insert]
  omega

/-- A position is on the line after the breaks that stand at or before it. -/
theorem lineOf_eq (pos : Nat) :
    t.lineOf pos = (lineBreaks 0 t.bytes.toList).countP (· ≤ pos) := by
  simp [lineOf, t.starts_eq, lineStarts]

/-- The lines up to the one that holds `start` are there after a deletion from `start` on. -/
theorem lineOf_lt_lineCount_delete {start stop : Nat} (h : start ≤ stop) (h' : stop ≤ t.size) :
    t.lineOf start < (t.delete start stop).lineCount := by
  have h₁ := countP_lineBreaks_le 0 (t.bytes.toList.take start) (t.bytes.toList.drop start)
    (t.bytes.toList.drop stop)
  rw [List.take_append_drop, List.length_take, Array.length_toList,
    show min start t.bytes.size = start from Nat.min_eq_left (Nat.le_trans h h'),
    Nat.zero_add] at h₁
  rw [lineOf_eq, lineCount_eq, toList_delete]
  omega

/-- No deletion adds a line. -/
theorem lineCount_delete_le {start stop : Nat} (h : start ≤ stop) :
    (t.delete start stop).lineCount ≤ t.lineCount := by
  have h' := length_lineBreaks_insert 0 (t.bytes.toList.take start)
    ((t.bytes.toList.take stop).drop start) (t.bytes.toList.drop stop)
  have whole : t.bytes.toList.take start
      ++ ((t.bytes.toList.take stop).drop start ++ t.bytes.toList.drop stop) = t.bytes.toList := by
    conv => rhs; rw [← List.take_append_drop stop t.bytes.toList,
      ← List.take_append_drop start (t.bytes.toList.take stop)]
    simp [List.take_take, Nat.min_eq_left h]
  rw [whole] at h'
  rw [lineCount_eq, lineCount_eq, toList_delete]
  omega

end Text

end Restyle
