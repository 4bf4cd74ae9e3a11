/-
Restyle.Proofs.Packing.RoundTrip — just what is read back from packed
forms.

Whatever is read from a stored number (`Stored`) fits its packed form, and
packed forms are stored numbers. So a value is read back if it fits and
not otherwise, and a number is the packed form of what is read from it if
it uses the bits of the fields only (`packed_forms_exact`).

Comment depths are cut off at 2^31, but the field holds 28 bits. In between
the depth wraps, and a line in a comment can be stored as one that is in
none (`Haskell.LineState.depth_unpack_pack`,
`Haskell.LineState.deep_comment_stored_as_none`).
-/
import Restyle.Proofs.Packing

namespace Restyle

/-! ## 1. Stored numbers -/

/-- A number that a host can store for a line: a signed one of 32 bits. -/
def Stored (raw : Int) : Prop := -2 ^ 31 ≤ raw ∧ raw < 2 ^ 31

instance (raw : Int) : Decidable (Stored raw) := inferInstanceAs (Decidable (_ ∧ _))

/-! ## 2. Line states of Haskell -/

namespace Haskell

theorem Mode.id_ofId {n : Int} (h : 0 ≤ n) (h' : n < 7) : (ofId n).id = n := by
  obtain rfl | rfl | rfl | rfl | rfl | rfl | rfl :
      n = 0 ∨ n = 1 ∨ n = 2 ∨ n = 3 ∨ n = 4 ∨ n = 5 ∨ n = 6 := by omega
  all_goals rfl

theorem Mode.id_lt (m : Mode) : m.id < 7 := by cases m <;> decide

namespace LineState

theorem stored_pack (s : LineState) : Stored (pack s) := by
  have hfield := depthField_bounds s.depth
  have hmode := s.mode.id_bounds
  rw [pack_eq]
  constructor <;> omega

theorem depth_unpack_lt {raw : Int} (h : Stored raw) : (unpack raw).depth < 2 ^ 28 := by
  have := h.2
  show (raw / 8).toNat < 2 ^ 28
  omega

/-- A line state is read back if its depth fits, and not otherwise. -/
theorem unpack_pack_iff (s : LineState) : unpack (pack s) = s ↔ s.depth < 2 ^ 28 := by
  constructor
  · intro h
    rw [← h]
    exact depth_unpack_lt (stored_pack s)
  · exact unpack_pack

/-- Stored numbers are packed forms if they are not negative and hold a mode. -/
theorem pack_unpack_iff {raw : Int} (h : Stored raw) :
    pack (unpack raw) = raw ↔ 0 ≤ raw ∧ raw % 8 ≠ 7 := by
  have hpack : pack (unpack raw) = ((raw / 8).toNat : Int) * 8 + (Mode.ofId (raw % 8)).id := by
    rw [pack_eq, depthField_of_lt (depth_unpack_lt h)]
    rfl
  have hid := (Mode.ofId (raw % 8)).id_bounds
  have hlt := (Mode.ofId (raw % 8)).id_lt
  rw [hpack]
  constructor
  · intro heq
    omega
  · rintro ⟨hpos, hmode⟩
    rw [Mode.id_ofId (by omega) (by omega)]
    omega

/-! ### Comments that are too deep -/

theorem depthField_of_le {depth : Nat} (h : 2 ^ 31 ≤ depth) : depthField depth = 2 ^ 28 - 1 := by
  rw [depthField, if_neg (by omega)]
  rfl

/-- In between the depth wraps. -/
theorem toNat_depthField {depth : Nat} (h : depth < 2 ^ 31) :
    (depthField depth).toNat = if depth % 2 ^ 29 < 2 ^ 28 then depth % 2 ^ 29 else 0 := by
  rw [depthField, if_pos (by omega), Int.bmod]
  split <;> split <;> omega

/-- The mode of a line is always read back, and so is a comment depth that fits. From 2^31 on a
depth is read back as the greatest that fits. All these stay in order, and none but zero becomes
zero. The depths in between lose their high bits, and become zero where the highest bit that fits
is set. -/
theorem depth_unpack_pack (mode : Mode) :
    let read (depth : Nat) := unpack (pack ⟨mode, depth⟩)
    (∀ depth, (read depth).mode = mode)
      ∧ (∀ depth, depth < 2 ^ 28 ∨ 2 ^ 31 ≤ depth →
        (read depth).depth = min depth (2 ^ 28 - 1)
          ∧ (∀ less ≤ depth, (read less).depth ≤ (read depth).depth)
          ∧ (0 < depth → 0 < (read depth).depth))
      ∧ ∀ depth, 2 ^ 28 ≤ depth → depth < 2 ^ 31 →
        (read depth).depth = if depth % 2 ^ 29 < 2 ^ 28 then depth % 2 ^ 29 else 0 := by
  intro read
  have hread (depth : Nat) : read depth = ⟨mode, (depthField depth).toNat⟩ := unpack_pack_eq _
  have hexact (depth : Nat) (h : depth < 2 ^ 28 ∨ 2 ^ 31 ≤ depth) :
      (depthField depth).toNat = min depth (2 ^ 28 - 1) := by
    rcases h with h | h
    · rw [depthField_of_lt h]
      omega
    · rw [depthField_of_le h]
      omega
  refine ⟨fun depth => by rw [hread], fun depth h => ?_, fun depth _ h => ?_⟩
  · simp only [hread]
    refine ⟨hexact depth h, fun less hle => ?_, fun hpos => ?_⟩
    · rw [hexact depth h]
      rcases h with h | h
      · rw [hexact less (by omega)]
        omega
      · have := depthField_bounds less
        omega
    · rw [hexact depth h]
      omega
  · rw [hread]
    exact toNat_depthField h

/-- The greatest depth that fits, one that does not fit a signed number, and one in between. -/
theorem depth_unpack_pack_of_limits :
    (unpack (pack ⟨.foreignDecl, 2 ^ 28 - 1⟩)).depth = 2 ^ 28 - 1
      ∧ (unpack (pack ⟨.foreignDecl, 2 ^ 31⟩)).depth = 2 ^ 28 - 1
      ∧ (unpack (pack ⟨.foreignDecl, 2 ^ 29 + 5⟩)).depth = 5 := by
  obtain ⟨-, hfits, hwraps⟩ := depth_unpack_pack .foreignDecl
  exact ⟨(hfits (2 ^ 28 - 1) (by decide)).1, (hfits (2 ^ 31) (by decide)).1,
    hwraps (2 ^ 29 + 5) (by decide) (by decide)⟩

/-- The first depth that does not fit is stored as none, and so before the one below it. -/
theorem deep_comment_stored_as_none :
    let read (depth : Nat) := unpack (pack ⟨.moduleHeader, depth⟩)
    pack ⟨.moduleHeader, 2 ^ 28⟩ = -2147483644
      ∧ ¬(0 < 2 ^ 28 → 0 < (read (2 ^ 28)).depth)
      ∧ ¬(read (2 ^ 28 - 1)).depth ≤ (read (2 ^ 28)).depth
      ∧ (read (2 ^ 28)).depth ≠ 2 ^ 28 - 1 := by
  decide

end LineState

end Haskell

/-! ## 3. Line states of R -/

namespace R.LineState

theorem stored_pack {saved : Option Delimiter} (h : ∀ d ∈ saved, d.close < 256) :
    Stored (pack saved) := by
  cases saved with
  | none => exact ⟨by decide, by decide⟩
  | some d =>
    have hfield := dashesField_bounds d.dashes
    have hclose := h d rfl
    rw [pack_some]
    constructor <;> omega

/-- Whatever is read from a stored number fits. -/
theorem fits_unpack {raw : Int} (h : Stored raw) : ∀ d ∈ unpack raw, d.Fits := by
  have := h.2
  intro d hd
  unfold unpack at hd
  dsimp only at hd
  split at hd
  · cases hd
  · obtain rfl := Option.some.inj hd
    refine ⟨?_, ?_, ?_⟩
    · show 0 < (raw % 256).toNat
      omega
    · show (raw % 256).toNat < 256
      omega
    · show (raw / 256).toNat < 2 ^ 23
      omega

/-- What a line of R leaves open is read back if it fits, and not otherwise. -/
theorem unpack_pack_iff {saved : Option Delimiter} (h : ∀ d ∈ saved, d.close < 256) :
    unpack (pack saved) = saved ↔ ∀ d ∈ saved, d.Fits := by
  constructor
  · intro heq
    rw [← heq]
    exact fits_unpack (stored_pack h)
  · exact unpack_pack

/-- Stored numbers are packed forms if they are zero, or positive with a bracket. -/
theorem pack_unpack_iff {raw : Int} (h : Stored raw) :
    pack (unpack raw) = raw ↔ 0 ≤ raw ∧ (raw = 0 ∨ raw % 256 ≠ 0) := by
  have hfits := fits_unpack h
  unfold unpack at hfits ⊢
  dsimp only at hfits ⊢
  split
  · rename_i hnone
    show 0 = raw ↔ _
    omega
  · rename_i hsome
    rw [if_neg hsome] at hfits
    rw [pack_some, dashesField_of_lt (hfits _ rfl).2.2]
    dsimp only
    omega

end R.LineState

/-! ## 4. Fold levels -/

namespace FoldLevel

theorem next_bounds (l : FoldLevel) :
    -2 ^ 15 ≤ l.next.bmod 65536 ∧ l.next.bmod 65536 < 2 ^ 15 :=
  bmod_bounds l.next (2 ^ 15) (by decide)

theorem stored_pack (l : FoldLevel) : Stored l.pack := by
  have hnext := l.next_bounds
  rw [pack_eq]
  constructor <;> split <;> split <;> omega

/-- A fold level is read back if its fields fit, and not otherwise. -/
theorem unpack_pack_iff (l : FoldLevel) :
    unpack l.pack = l ↔ (0 ≤ l.level ∧ l.level < 4096) ∧ -2 ^ 15 ≤ l.next ∧ l.next < 2 ^ 15 := by
  constructor
  · intro h
    have hbounds := l.next_bounds
    rw [unpack_pack_eq] at h
    have hlevel : l.level % 4096 = l.level := congrArg level h
    have hnext : l.next.bmod 65536 = l.next := congrArg next h
    omega
  · rintro ⟨⟨h, h'⟩, hnext, hnext'⟩
    exact unpack_pack h h' hnext hnext'

/-- Stored numbers are packed forms if the bits without a meaning are clear. -/
theorem pack_unpack_iff {raw : Int} (h : Stored raw) :
    (unpack raw).pack = raw ↔ raw / 2 ^ 14 % 4 = 0 := by
  obtain ⟨hlow, hhigh⟩ := h
  have hnext : (raw / 65536).bmod 65536 = raw / 65536 := by
    exact Int.bmod_eq_of_le (by omega) (by omega)
  rw [pack_eq]
  unfold unpack
  simp only [decide_eq_true_eq]
  rw [hnext]
  split <;> split <;> omega

end FoldLevel

/-! ## 5. All packed forms -/

/-- Line states and fold levels are read back if they fit their packed forms, and not otherwise.
The other way round, a stored number is the packed form of what is read from it if it uses the
bits of the fields only: in Haskell if it is not negative and its mode is one, in R if it is zero,
or positive with a closing bracket, and for fold levels if bits 14 and 15 are clear. -/
theorem packed_forms_exact :
    (∀ s : Haskell.LineState, .unpack s.pack = s ↔ s.depth < 2 ^ 28)
      ∧ (∀ saved : Option R.Delimiter, (∀ d ∈ saved, d.close < 256) →
        (R.LineState.unpack (R.LineState.pack saved) = saved
          ↔ ∀ d ∈ saved, d.close ≠ 0 ∧ d.dashes < 2 ^ 23))
      ∧ (∀ l : FoldLevel, .unpack l.pack = l
        ↔ (0 ≤ l.level ∧ l.level ≤ 4095) ∧ -2 ^ 15 ≤ l.next ∧ l.next < 2 ^ 15)
      ∧ ∀ raw, Stored raw →
        ((Haskell.LineState.unpack raw).pack = raw ↔ 0 ≤ raw ∧ raw % 8 ≠ 7)
          ∧ (R.LineState.pack (R.LineState.unpack raw) = raw
            ↔ 0 ≤ raw ∧ (raw = 0 ∨ raw % 256 ≠ 0))
          ∧ ((FoldLevel.unpack raw).pack = raw ↔ raw / 2 ^ 14 % 4 = 0) := by
  refine ⟨Haskell.LineState.unpack_pack_iff, fun saved hbyte => ?_, fun l => ?_, fun raw h =>
    ⟨Haskell.LineState.pack_unpack_iff h, R.LineState.pack_unpack_iff h,
      FoldLevel.pack_unpack_iff h⟩⟩
  · rw [R.LineState.unpack_pack_iff hbyte]
    refine forall₂_congr fun d hd => ?_
    have hclose := hbyte d hd
    unfold R.Delimiter.Fits
    omega
  · rw [l.unpack_pack_iff]
    omega

/-- All fields are full, or hold the least that they can. -/
theorem packed_forms_exact_of_full_fields :
    let s : Haskell.LineState := ⟨.typeDecl, 2 ^ 28 - 1⟩
    let saved : Option R.Delimiter := some ⟨255, 2 ^ 23 - 1⟩
    let l : FoldLevel := ⟨4095, -2 ^ 15, true, true⟩
    .unpack s.pack = s ∧ R.LineState.unpack (R.LineState.pack saved) = saved ∧ .unpack l.pack = l
      ∧ (Haskell.LineState.unpack (2 ^ 31 - 2)).pack = 2 ^ 31 - 2
      ∧ R.LineState.pack (R.LineState.unpack (2 ^ 31 - 1)) = 2 ^ 31 - 1
      ∧ (FoldLevel.unpack (-2 ^ 31)).pack = -2 ^ 31 := by
  intro s saved l
  obtain ⟨hhaskell, hr, hlevel, hraw⟩ := packed_forms_exact
  exact ⟨(hhaskell s).2 (by decide), (hr saved (by decide)).2 (by decide),
    (hlevel l).2 (by decide), (hraw (2 ^ 31 - 2) (by decide)).1.2 (by decide),
    (hraw (2 ^ 31 - 1) (by decide)).2.1.2 (by decide),
    (hraw (-2 ^ 31) (by decide)).2.2.2 (by decide)⟩

end Restyle
