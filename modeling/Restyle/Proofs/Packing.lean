/-
Restyle.Proofs.Packing — packed forms are read back.

A packed form is a number with one field in its high bits, which wraps in
its own range (`mul_bmod_of_field`). So packing and reading together come
to one equation for each kind of value (`Haskell.LineState.unpack_pack_eq`,
`R.LineState.unpack_pack_some`, `FoldLevel.unpack_pack_eq`).

A line state that fits its places comes back as it was. Comment depths
below 2^28 fit, and raw strings with fewer than 2^23 dashes and a closing
bracket of one byte; from there on dashes are lost
(`R.LineState.unpack_pack_of_le`). Fold levels always lose what
does not fit, but no more than a multiple of 65536, and that shows in no
packed form (`FoldLevel.next_unpack_pack`, `FoldLevel.pack_shift`).
-/
import Mathlib.Algebra.Group.Int.Defs
import Mathlib.Algebra.Group.Nat.Defs
import Restyle.FoldLevel
import Restyle.Haskell.LineState
import Restyle.R.LineState

namespace Restyle

/-- A balanced remainder lies around zero. -/
theorem bmod_bounds (x : Int) (half : Nat) (h : 0 < half) :
    -(half : Int) ≤ x.bmod (2 * half) ∧ x.bmod (2 * half) < half := by
  have hle := Int.le_bmod (x := x) (m := 2 * half) (by omega)
  have hlt := Int.bmod_lt (x := x) (m := 2 * half) (by omega)
  omega

/-- The field at the top of a word wraps in its own range. -/
theorem mul_bmod_of_field (x : Int) (place : Nat) {range word : Nat} (hword : word = place * range)
    (hplace : 0 < place) (heven : 2 ∣ range) : (x * place).bmod word = x.bmod range * place := by
  rw [hword, Int.mul_comm, Int.mod_bmod_mul_of_pos x range hplace heven, Int.mul_comm]

namespace Haskell

theorem Mode.ofId_id (m : Mode) : ofId m.id = m := by cases m <;> rfl

theorem Mode.id_bounds (m : Mode) : 0 ≤ m.id ∧ m.id < 8 := by cases m <;> decide

namespace LineState

/-- What stands in the field of a comment depth. -/
def depthField (depth : Nat) : Int :=
  (if depth < 0x80000000 then (depth : Int) else 0xFFFFFFF).bmod (2 ^ 29)

theorem depthField_bounds (depth : Nat) :
    -2 ^ 28 ≤ depthField depth ∧ depthField depth < 2 ^ 28 :=
  bmod_bounds _ (2 ^ 28) (by decide)

theorem depthField_of_lt {depth : Nat} (h : depth < 2 ^ 28) : depthField depth = depth := by
  rw [depthField, if_pos (by omega)]
  exact Int.bmod_eq_of_le (by omega) (by omega)

theorem pack_eq (s : LineState) : pack s = depthField s.depth * 8 + s.mode.id :=
  congrArg (· + s.mode.id) (mul_bmod_of_field _ 8 (by decide) (by decide) (by decide))

/-- A negative depth field is read as none. -/
theorem unpack_pack_eq (s : LineState) :
    unpack (pack s) = ⟨s.mode, (depthField s.depth).toNat⟩ := by
  have hmode := s.mode.id_bounds
  have hlow : (depthField s.depth * 8 + s.mode.id) % 8 = s.mode.id := by omega
  have hhigh : (depthField s.depth * 8 + s.mode.id) / 8 = depthField s.depth := by omega
  rw [pack_eq, unpack, hlow, hhigh, Mode.ofId_id]

theorem unpack_pack {s : LineState} (h : s.depth < 2 ^ 28) : unpack (pack s) = s := by
  rw [unpack_pack_eq, depthField_of_lt h]
  rfl

end LineState

end Haskell

namespace R

/-- What a closing bracket and a number of dashes must be to be packed and read back. -/
def Delimiter.Fits (d : Delimiter) : Prop := 0 < d.close ∧ d.close < 256 ∧ d.dashes < 2 ^ 23

namespace LineState

/-- What stands in the field of a number of dashes. -/
def dashesField (dashes : Nat) : Int :=
  (if dashes < 0x80000000 then (dashes : Int) else 0).bmod (2 ^ 24)

theorem dashesField_bounds (dashes : Nat) :
    -2 ^ 23 ≤ dashesField dashes ∧ dashesField dashes < 2 ^ 23 :=
  bmod_bounds _ (2 ^ 23) (by decide)

theorem dashesField_of_lt {dashes : Nat} (h : dashes < 2 ^ 23) : dashesField dashes = dashes := by
  rw [dashesField, if_pos (by omega)]
  exact Int.bmod_eq_of_le (by omega) (by omega)

theorem pack_some (d : Delimiter) : pack (some d) = dashesField d.dashes * 256 + d.close :=
  congrArg (· + (d.close : Int)) (mul_bmod_of_field _ 256 (by decide) (by decide) (by decide))

/-- Negative dashes are read as none. -/
theorem unpack_pack_some {d : Delimiter} (hpos : 0 < d.close) (hclose : d.close < 256) :
    unpack (pack (some d)) = some ⟨d.close, (dashesField d.dashes).toNat⟩ := by
  have hlow : ((dashesField d.dashes * 256 + d.close) % 256).toNat = d.close := by omega
  have hhigh : (dashesField d.dashes * 256 + d.close) / 256 = dashesField d.dashes := by omega
  rw [pack_some, unpack, hlow, hhigh, if_neg (by omega)]

theorem unpack_pack {saved : Option Delimiter} (h : ∀ d ∈ saved, d.Fits) :
    unpack (pack saved) = saved := by
  cases saved with
  | none => rfl
  | some d =>
    obtain ⟨hpos, hclose, hdashes⟩ := h d rfl
    rw [unpack_pack_some hpos hclose, dashesField_of_lt hdashes]
    rfl

/-- The first dashes that do not fit make the number negative, and are read back as none. -/
theorem unpack_pack_of_le {d : Delimiter} (hpos : 0 < d.close) (hclose : d.close < 256)
    (hdashes : 2 ^ 23 ≤ d.dashes) (hlt : d.dashes < 2 ^ 24) :
    unpack (pack (some d)) = some ⟨d.close, 0⟩ := by
  have hnone : (dashesField d.dashes).toNat = 0 := by
    rw [dashesField, if_pos (by omega), Int.bmod]
    split <;> omega
  rw [unpack_pack_some hpos hclose, hnone]

end LineState

end R

namespace FoldLevel

/-- The level with the fields that wrap when packed moved by a multiple of their range. -/
def shift (z : Int) (l : FoldLevel) : FoldLevel :=
  { l with level := l.level + 65536 * z, next := l.next + 65536 * z }

theorem pack_shift (z : Int) (l : FoldLevel) : (l.shift z).pack = l.pack := by
  have hlevel : (l.level + 65536 * z) % 4096 = l.level % 4096 := by omega
  have hnext : (l.next + 65536 * z) * 65536 = l.next * 65536 + (0x100000000 : Nat) * z := by
    omega
  unfold pack shift
  rw [hlevel, hnext, Int.add_mul_bmod_self_left]

theorem pack_eq (l : FoldLevel) :
    l.pack = l.level % 4096 + (if l.white then 4096 else 0) + (if l.header then 8192 else 0)
      + l.next.bmod 65536 * 65536 :=
  congrArg (_ + ·) (mul_bmod_of_field l.next 65536 (by decide) (by decide) (by decide))

/-- Of the level its twelve low bits are read back, of the next one sixteen with their sign. -/
theorem unpack_pack_eq (l : FoldLevel) :
    unpack l.pack = ⟨l.level % 4096, l.next.bmod 65536, l.white, l.header⟩ := by
  rw [pack_eq, unpack]
  cases l.white <;> cases l.header <;> simp <;> omega

/-- The level of the next line is read back up to a multiple of 65536. -/
theorem next_unpack_pack (l : FoldLevel) : ∃ z, (unpack l.pack).next = l.next + 65536 * z := by
  obtain ⟨z, hz⟩ : ((65536 : Nat) : Int) ∣ l.next.bmod 65536 - l.next := Int.dvd_bmod_sub_self
  refine ⟨z, ?_⟩
  rw [unpack_pack_eq]
  dsimp only
  omega

/-- Of a level its twelve low bits are read back, and the marks of the line. -/
theorem unpack_pack_mod (l : FoldLevel) :
    (unpack l.pack).level = l.level % 4096 ∧ (unpack l.pack).white = l.white
      ∧ (unpack l.pack).header = l.header := by
  rw [unpack_pack_eq]
  exact ⟨rfl, rfl, rfl⟩

/-- The level and the marks of a line are read back, unless the level is too high. -/
theorem unpack_pack_of_lt {l : FoldLevel} (h : 0 ≤ l.level) (h' : l.level < 4096) :
    (unpack l.pack).level = l.level ∧ (unpack l.pack).white = l.white
      ∧ (unpack l.pack).header = l.header := by
  have hmod := l.unpack_pack_mod
  rwa [Int.emod_eq_of_lt h h'] at hmod

/-- A level whose fields all fit is read back as it was. -/
theorem unpack_pack {l : FoldLevel} (h : 0 ≤ l.level) (h' : l.level < 4096)
    (hnext : -2 ^ 15 ≤ l.next) (hnext' : l.next < 2 ^ 15) : unpack l.pack = l := by
  have hkept : l.next.bmod 65536 = l.next := Int.bmod_eq_of_le (by omega) (by omega)
  rw [unpack_pack_eq, Int.emod_eq_of_lt h h', hkept]

end FoldLevel
end Restyle
