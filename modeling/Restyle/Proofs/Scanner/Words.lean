/-
Restyle.Proofs.Scanner.Words — the text that is looked up in word lists.

In UTF-8 a walk from a character boundary stays on such boundaries, and as
long as open spans end at the cursor only, they start there too
(`AtBoundaries`). A span that is too long is cut at the last position
within the limit where no continuation byte stands (`cutBack_spec`), so
what is looked up is the longest start of the open span that takes no more
than 99 bytes (`openText_exact`).
-/
import Restyle.Proofs.Scanner.Clients
import Restyle.Proofs.Text.Boundaries

namespace Restyle.Scanner

variable {t : Text} {s : Scanner t} {cs : List Char}

/-! ## 1. Cutting back -/

/-- From where a cut goes back to, up to where it starts, only continuation bytes stand, all before
the cursor. It goes back no further than to the mark, and further only over such bytes. -/
theorem cutBack_spec (t : Text) {mark stop : Nat} (pos : Nat) (h : mark ≤ stop) :
    let cut := cutBack t mark pos stop
    mark ≤ cut ∧ cut ≤ stop
      ∧ (∀ q, cut < q → q ≤ stop → Utf8.isContinuation (t.byteAt q) = true)
      ∧ (cut = mark ∨ pos ≤ cut ∨ Utf8.isContinuation (t.byteAt cut) = false) := by
  induction stop with
  | zero => exact ⟨h, Nat.le_refl 0, fun q hq hle => by omega, Or.inl (Nat.le_zero.1 h).symm⟩
  | succ stop ih =>
    rw [cutBack]
    split
    · rename_i hback
      obtain ⟨hmark, hle, hover, hend⟩ := ih (by omega)
      refine ⟨hmark, Nat.le_succ_of_le hle, fun q hq hstop => ?_, hend⟩
      rcases Nat.lt_or_eq_of_le hstop with hlt | rfl
      · exact hover q hq (by omega)
      · exact hback.2.2
    · rename_i hstay
      refine ⟨h, Nat.le_refl _, fun q hq hle => by omega, ?_⟩
      by_cases hmark : mark < stop + 1
      · by_cases hpos : stop + 1 < pos
        · exact Or.inr (Or.inr (Bool.eq_false_iff.2 fun hc => hstay ⟨hmark, hpos, hc⟩))
        · exact Or.inr (Or.inl (by omega))
      · exact Or.inl (by omega)

/-! ## 2. Walks on boundaries -/

/-- The cursor stands and the open span starts at boundaries of the text. -/
structure AtBoundaries (cs : List Char) (s : Scanner t) : Prop where
  measured : s.Measured
  pos : Text.Cuts cs (min s.pos t.size)
  mark : Text.Cuts cs s.mark
  mark_le : s.mark ≤ min s.pos t.size

theorem atBoundaries_start (ht : t.Encodes cs) {start : Nat} (hstart : Text.Cuts cs start)
    (length : Nat) (token : Token) : AtBoundaries cs (Scanner.start t start length token) := by
  have hle : start ≤ min start t.size := by
    obtain ⟨xs, ys, rfl, rfl⟩ := hstart
    rw [ht.size_eq, Utf8.sizeOf_append]
    omega
  refine ⟨Cursor.measured_start t start length, ?_, hstart, hle⟩
  show Text.Cuts cs (min start t.size)
  rwa [Nat.min_eq_left (by omega)]

namespace AtBoundaries

theorem forward (ht : t.Encodes cs) (h : AtBoundaries cs s) : AtBoundaries cs s.forward := by
  obtain ⟨hmeasured, hpos, hmark, hle⟩ := h
  have hle' : s.pos ≤ s.forward.pos := s.toCursor.pos_le_forward
  refine ⟨hmeasured.forward, ?_, hmark, by rw [mark_forward]; omega⟩
  cases hmore : s.more with
  | false =>
    rw [toCursor_forward, Cursor.forward_of_not_more hmore]
    exact hpos
  | true =>
    rw [toCursor_forward, hmeasured.pos_forward hmore]
    rcases Nat.lt_or_ge s.pos t.size with hlt | hge
    · rw [Nat.min_eq_left (Nat.le_of_lt hlt)] at hpos
      rw [Nat.min_eq_left (t.add_width_le_size hlt)]
      exact ht.cuts_add_width hpos hlt
    · rw [Nat.min_eq_right (by omega)]
      exact ht.cuts_size

theorem forwardBy (ht : t.Encodes cs) (count : Nat) (h : AtBoundaries cs s) :
    AtBoundaries cs (s.forwardBy count) := by
  induction count generalizing s with
  | zero => exact h
  | succ count ih => exact ih (h.forward ht)

theorem forwardTo (ht : t.Encodes cs) (target fuel : Nat) (h : AtBoundaries cs s) :
    AtBoundaries cs (s.forwardTo target fuel) := by
  induction fuel generalizing s with
  | zero => exact h
  | succ fuel ih =>
    rw [Scanner.forwardTo]
    split
    · exact ih (h.forward ht)
    · exact h

theorem relabel (token : Token) (h : AtBoundaries cs s) : AtBoundaries cs (s.relabel token) :=
  ⟨h.measured, h.pos, h.mark, h.mark_le⟩

theorem finish (h : AtBoundaries cs s) : AtBoundaries cs s.finish := by
  have hmark : s.finish.mark = min s.pos t.size := by
    have hle := h.mark_le
    rw [Scanner.finish, mark_paintTo]
    omega
  have hcursor : s.finish.toCursor = s.toCursor := toCursor_paintTo ..
  refine ⟨by rw [hcursor]; exact h.measured, by rw [hcursor]; exact h.pos, ?_, ?_⟩
  · rw [hmark]
    exact h.pos
  · exact Nat.le_of_eq (by rw [hmark, hcursor])

theorem switch (token : Token) (h : AtBoundaries cs s) : AtBoundaries cs (s.switch token) :=
  h.finish.relabel token

theorem apply (ht : t.Encodes cs) {op : Op} (hop : ∀ stop token, op ≠ .paintTo stop token)
    (h : AtBoundaries cs s) : AtBoundaries cs (op.apply s) := by
  cases op with
  | forward => exact h.forward ht
  | forwardBy count => exact h.forwardBy ht count
  | forwardBytes count => exact h.forwardTo ht _ _
  | switch token => exact h.switch token
  | forwardSwitch token => exact (h.forward ht).switch token
  | relabel token => exact h.relabel token
  | paintTo stop token => exact absurd rfl (hop stop token)
  | finish => exact h.finish

theorem applyAll (ht : t.Encodes cs) {ops : List Op}
    (hops : ∀ op ∈ ops, ∀ stop token, op ≠ .paintTo stop token) (h : AtBoundaries cs s) :
    AtBoundaries cs (applyAll ops s) := by
  induction ops generalizing s with
  | nil => exact h
  | cons op ops ih =>
    exact ih (fun op hop => hops op (List.mem_cons_of_mem _ hop))
      (h.apply ht (hops op List.mem_cons_self))

end AtBoundaries

/-! ## 3. What is looked up -/

/-- Where the open span is cut. -/
def wordStop (s : Scanner t) : Nat :=
  cutBack t s.mark s.pos (min (min s.pos (s.mark + maxWordSize)) t.size)

/-- `text` is the longest start of `whole` that takes no more than `limit` bytes. -/
structure LongestStart (limit : Nat) (whole text : String) : Prop where
  starts : text.toList <+: whole.toList
  size_le : text.utf8ByteSize ≤ limit
  longest : ∀ other : String, other.toList <+: whole.toList → other.utf8ByteSize ≤ limit →
    other.toList <+: text.toList

namespace AtBoundaries

/-- The open span is cut at a boundary, and at the last one within the limit. -/
theorem wordStop_spec (ht : t.Encodes cs) (h : AtBoundaries cs s) :
    s.mark ≤ s.wordStop ∧ s.wordStop ≤ min s.pos t.size ∧ s.wordStop ≤ s.mark + maxWordSize
      ∧ Text.Cuts cs s.wordStop
      ∧ ∀ q, Text.Cuts cs q → q ≤ min s.pos t.size → q ≤ s.mark + maxWordSize →
        q ≤ s.wordStop := by
  have hmark := h.mark_le
  obtain ⟨hle, hstop, hover, hend⟩ :=
    cutBack_spec t s.pos (show s.mark ≤ min (min s.pos (s.mark + maxWordSize)) t.size by omega)
  change s.mark ≤ s.wordStop at hle
  change s.wordStop ≤ _ at hstop
  change s.wordStop = s.mark ∨ s.pos ≤ s.wordStop ∨ _ at hend
  refine ⟨hle, by omega, by omega, ?_, fun q hq hpos hlimit => ?_⟩
  · rcases hend with hend | hend | hend
    · rw [hend]
      exact h.mark
    · have hpos := h.pos
      rwa [show min s.pos t.size = s.wordStop by omega] at hpos
    · rcases Nat.lt_or_ge s.wordStop t.size with hlt | hge
      · exact (ht.cuts_iff hlt).2 hend
      · rw [show s.wordStop = t.size by omega]
        exact ht.cuts_size
  · refine Nat.le_of_not_lt fun hlt => ?_
    have hcontinues := hover q hlt (by omega)
    rw [ht.isContinuation_of_cuts hq] at hcontinues
    cases hcontinues

/-- The open span lies between two boundaries, and what is looked up is its longest start within
the limit. -/
theorem openText (ht : t.Encodes cs) (h : AtBoundaries cs s) :
    ∃ xs ys zs, cs = xs ++ ys ++ zs ∧ Utf8.sizeOf xs = s.mark
      ∧ Utf8.sizeOf (xs ++ ys) = min s.pos t.size
      ∧ LongestStart maxWordSize (String.ofList ys) s.openText := by
  obtain ⟨hle, hpos, hlimit, hcut, hlast⟩ := h.wordStop_spec ht
  obtain ⟨xs, hxs, hmark⟩ := Text.cuts_iff_prefix.1 h.mark
  obtain ⟨ws, hws, hsize⟩ := Text.cuts_iff_prefix.1 hcut
  obtain ⟨vs, hvs, hend⟩ := Text.cuts_iff_prefix.1 h.pos
  obtain ⟨text, rfl⟩ := Utf8.prefix_of_sizeOf_le hxs hws (by omega)
  obtain ⟨more, rfl⟩ := Utf8.prefix_of_sizeOf_le hws hvs (by omega)
  obtain ⟨zs, rfl⟩ := hvs
  have hopen : s.openText = String.ofList text := by
    have hslice := (show t.Encodes (xs ++ (text ++ (more ++ zs))) by simpa using ht).slice_eq
    rw [← Utf8.sizeOf_append, hsize, hmark] at hslice
    exact hslice
  rw [Utf8.sizeOf_append] at hsize
  refine ⟨xs, text ++ more, zs, by simp, hmark, by simpa using hend, ?_, ?_,
    fun other hstart hsmall => ?_⟩
  · simp [hopen]
  · rw [hopen, Utf8.utf8ByteSize_eq, String.toList_ofList]
    omega
  · rw [hopen]
    rw [String.toList_ofList] at hstart ⊢
    rw [Utf8.utf8ByteSize_eq] at hsmall
    have hinside : Utf8.sizeOf (xs ++ other.toList) ≤ Utf8.sizeOf (xs ++ (text ++ more)) := by
      have hother := Utf8.sizeOf_le_of_prefix hstart
      rw [Utf8.sizeOf_append, Utf8.sizeOf_append]
      omega
    have hq : Text.Cuts (xs ++ text ++ more ++ zs) (Utf8.sizeOf (xs ++ other.toList)) := by
      obtain ⟨behind, hbehind⟩ := hstart
      rw [List.append_assoc xs, ← hbehind, ← List.append_assoc, List.append_assoc _ behind]
      exact Text.cuts_append _ _
    have hle : Utf8.sizeOf (xs ++ other.toList) ≤ s.wordStop := by
      apply hlast _ hq
      · rwa [← hend, List.append_assoc]
      · rw [Utf8.sizeOf_append, hmark]
        omega
    rw [Utf8.sizeOf_append] at hle
    exact Utf8.prefix_of_sizeOf_le hstart (List.prefix_append text more) (by omega)

end AtBoundaries

/-- In a UTF-8 text, whatever a client does from a character boundary on that only paints up to the
cursor, what it can look up is the longest start of the open span that takes no more than 99 bytes.
So there are no characters in it that the text does not have, replacement characters among them,
and it is all of the span if that takes no more. -/
theorem openText_exact (before after : String) (length : Nat) (token : Token) {ops : List Op}
    (hops : ∀ op ∈ ops, ∀ stop token, op ≠ .paintTo stop token) :
    let t := Text.ofString (before ++ after)
    let s := applyAll ops (Scanner.start t before.utf8ByteSize length token)
    ∃ painted pending rest : String, before ++ after = painted ++ pending ++ rest
      ∧ painted.utf8ByteSize = s.mark
      ∧ (painted ++ pending).utf8ByteSize = min s.pos t.size
      ∧ LongestStart 99 pending s.openText
      ∧ (∀ c ∈ s.openText.toList, c ∈ (before ++ after).toList)
      ∧ (pending.utf8ByteSize ≤ 99 → s.openText = pending) := by
  intro t s
  have ht : t.Encodes (before ++ after).toList := Text.encodes_ofString _
  have hstart : Text.Cuts (before ++ after).toList before.utf8ByteSize := by
    rw [Utf8.utf8ByteSize_eq, String.toList_append]
    exact Text.cuts_append _ _
  have hwalk : AtBoundaries (before ++ after).toList s :=
    (atBoundaries_start ht hstart length token).applyAll ht hops
  obtain ⟨xs, ys, zs, hcs, hmark, hpos, hlookup⟩ := hwalk.openText ht
  refine ⟨String.ofList xs, String.ofList ys, String.ofList zs, ?_, ?_, ?_, hlookup, ?_, ?_⟩
  · rw [← String.toList_inj, hcs]
    simp
  · rw [Utf8.utf8ByteSize_eq, String.toList_ofList, hmark]
  · rw [Utf8.utf8ByteSize_eq, String.toList_append, String.toList_ofList, String.toList_ofList,
      hpos]
  · intro c hc
    have hpending := hlookup.starts.subset hc
    rw [String.toList_ofList] at hpending
    rw [hcs]
    simp [hpending]
  · intro hfits
    have hwhole := hlookup.longest (String.ofList ys) (List.prefix_refl _) hfits
    exact String.toList_inj.1 (hlookup.starts.eq_of_length_le hwhole.length_le)

/-- A word of 101 bytes whose last character lies across the limit. -/
theorem openText_exact_across :
    let before := "é = "
    let after := String.ofList (List.replicate 49 'ß') ++ "日"
    let t := Text.ofString (before ++ after)
    let ops := [Op.switch .identifier, .forwardBy 50, .relabel .keyword]
    let s := applyAll ops (Scanner.start t before.utf8ByteSize after.utf8ByteSize .plain)
    (s.mark = 5 ∧ s.pos = 106)
      ∧ (∀ op ∈ ops, ∀ stop token, op ≠ .paintTo stop token)
      ∧ ∃ painted pending rest : String, before ++ after = painted ++ pending ++ rest
        ∧ painted.utf8ByteSize = s.mark
        ∧ (painted ++ pending).utf8ByteSize = min s.pos t.size
        ∧ LongestStart 99 pending s.openText
        ∧ (∀ c ∈ s.openText.toList, c ∈ (before ++ after).toList)
        ∧ (pending.utf8ByteSize ≤ 99 → s.openText = pending) := by
  intro before after t ops s
  have hops : ∀ op ∈ ops, ∀ stop token, op ≠ .paintTo stop token := by simp [ops]
  exact ⟨by decide +kernel, hops, openText_exact before after _ .plain hops⟩

end Restyle.Scanner
