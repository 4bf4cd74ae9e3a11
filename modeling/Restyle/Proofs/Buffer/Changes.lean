/-
Restyle.Proofs.Buffer.Changes — what holds of a buffer after any calls.

A `Change` is one of the calls that change a buffer, with arguments that
need not lie inside the text. Each of them keeps the tables as long as the
text (`WellFormed.apply`), so any number of them does (`wellFormed_run`).
The lines of the text itself are right whatever its bytes are: `Lined`
collects what the line table says of them (`lined`).
-/
import Restyle.Buffer.WellFormed
import Restyle.Proofs.Text.LineRanges

namespace Restyle

/-! ## 1. Lines -/

/-- The line table tells where the lines of the text are, and the lines are the text. -/
structure Text.Lined (t : Text) : Prop where
  /-- Lines start at 0 and behind each LF and each CR that no LF follows. -/
  starts : t.starts.toList = 0 :: ((List.range t.size).filter fun p =>
    t.byteAt p == 10 || (t.byteAt p == 13 && t.byteAt (p + 1) != 10)).map (· + 1)
  increasing : t.starts.toList.Pairwise (· < ·)
  /-- A position is on the one line whose range holds it. -/
  lineOf_iff : ∀ p < t.size, ∀ line,
    t.lineOf p = line ↔ t.lineStart line ≤ p ∧ p < t.lineStart (line + 1)
  lineOf_past : ∀ p, t.size ≤ p → t.lineOf p = t.lineCount - 1
  flatMap_lineBytes : (List.range t.lineCount).flatMap t.lineBytes = t.bytes.toList
  /-- Every line but the last has one terminator, at its end. -/
  terminated : ∀ line, line + 1 < t.lineCount → ∃ body, ∃ terminator ∈ Text.terminators,
    t.lineBytes line = body ++ terminator ∧ Text.Unbroken body
  unterminated : Text.Unbroken (t.lineBytes (t.lineCount - 1))

theorem Text.lined (t : Text) : t.Lined where
  starts := t.starts_eq_filter
  increasing := t.pairwise_starts
  lineOf_iff _ := t.lineOf_eq_iff
  lineOf_past p h := by rw [t.lineOf_of_size_le h, t.lineCount_eq_lastLine, Nat.add_sub_cancel]
  flatMap_lineBytes := t.flatMap_lineBytes
  terminated line h := t.exists_lineBytes_eq (by rw [t.lineCount_eq_lastLine] at h; omega)
  unterminated := by
    rw [t.lineCount_eq_lastLine, Nat.add_sub_cancel]
    exact t.unbroken_lastLine

namespace Buffer

/-! ## 2. Calls -/

/-- A call that changes a buffer. -/
inductive Change where
  /-- Put bytes in. -/
  | insert (pos : Nat) (more : Array UInt8)
  /-- Take a range out. -/
  | delete (start stop : Nat)
  /-- Store the state of a line. -/
  | setLineState (line : Nat) (state : Int)
  /-- Store the packed fold level of a line. -/
  | setLevel (line : Nat) (level : Int)
  /-- Paint a range with a token. -/
  | setStyleRange (start stop : Nat) (token : Token)

/-- The buffer after a call. -/
def apply (b : Buffer) : Change → Buffer
  | .insert pos more => b.insert pos more
  | .delete start stop => b.delete start stop
  | .setLineState line state => b.setLineState line state
  | .setLevel line level => b.setLevel line level
  | .setStyleRange start stop token => b.paint ⟨start, stop, token⟩

/-- The buffer after calls in order. -/
def run (b : Buffer) (changes : List Change) : Buffer := changes.foldl apply b

theorem WellFormed.apply {b : Buffer} (h : b.WellFormed) (c : Change) : (b.apply c).WellFormed := by
  cases c with
  | insert pos more => exact h.insert pos more
  | delete start stop => exact h.delete start stop
  | setLineState line state => exact h.setLineState line state
  | setLevel line level => exact h.setLevel line level
  | setStyleRange start stop token => exact h.paint ⟨start, stop, token⟩

theorem wellFormed_run {b : Buffer} (h : b.WellFormed) (changes : List Change) :
    (b.run changes).WellFormed :=
  h.foldl WellFormed.apply changes

/-- After any calls on a new buffer the tables fit the text and the lines are right. -/
theorem wellFormed_and_lined_run (bytes : Array UInt8) (encoding : Encoding)
    (changes : List Change) :
    ((ofText (Text.ofBytes bytes encoding)).run changes).WellFormed
      ∧ ((ofText (Text.ofBytes bytes encoding)).run changes).text.Lined :=
  ⟨wellFormed_run (wellFormed_ofText _) changes, Text.lined _⟩

end Buffer

end Restyle
