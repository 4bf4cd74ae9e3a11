/-
Restyle.Proofs.Lexer.Seams — every lexer cuts a text at its seams.

The spans of a whole text start and end at seams (`seams_whole`), since
each machine keeps sewing. So two bytes outside ASCII that stand together
have one token (`tokenAt_succ_of_not_seam`).
-/
import Restyle.Proofs.Haskell.Seams
import Restyle.Proofs.Lexer.Resume
import Restyle.Proofs.R.Seams

namespace Restyle

variable {t : Text}

namespace Engine

variable {E : Engine}

/-- A machine that every round keeps sewing cuts a whole text at its seams. -/
theorem Sound.seams_whole (hE : E.Sound) {P : E.State t → Prop}
    (hscan : ∀ m, P m → (E.scan m).Sewn)
    (hround : ∀ m, P m → (E.scan m).more = true → P (E.round m))
    (hstart : P (E.start t 0 t.size .plain 0)) :
    ∀ span ∈ (E.whole t).spans, t.Seam span.start ∧ t.Seam span.stop := by
  have hends := hE.ends_start t 0 t.size .plain 0
  have hlast := hscan _ (hends.invariant hround hstart)
  have hno := hends.more
  rw [Cursor.more, decide_eq_false_iff_not, hlast.stop] at hno
  exact (hlast.paint (Text.seam_of_size_le (by omega)) _).spans

end Engine

theorem findSome?_congr {α β : Type} {f g : α → Option β} : ∀ {xs : List α},
    (∀ x ∈ xs, f x = g x) → xs.findSome? f = xs.findSome? g
  | [], _ => rfl
  | x :: xs, h => by
    rw [List.findSome?_cons, List.findSome?_cons, h x List.mem_cons_self,
      findSome?_congr fun y hy => h y (List.mem_cons_of_mem x hy)]

/-- Where the text cannot be cut such spans say one thing of the bytes on both sides. -/
theorem Styling.tokenAt?_succ_of_not_seam {r : Styling}
    (h : ∀ span ∈ r.spans, t.Seam span.start ∧ t.Seam span.stop) {p : Nat}
    (hp : ¬t.Seam (p + 1)) : r.tokenAt? (p + 1) = r.tokenAt? p := by
  have hcontains : ∀ span ∈ r.spans, span.contains (p + 1) = span.contains p := by
    intro span hspan
    obtain ⟨hstart, hstop⟩ := h span hspan
    have hne : span.start ≠ p + 1 := fun heq => hp (heq ▸ hstart)
    have hne' : span.stop ≠ p + 1 := fun heq => hp (heq ▸ hstop)
    rw [Bool.eq_iff_iff]
    simp only [Span.contains, Bool.and_eq_true, decide_eq_true_eq]
    omega
  rw [tokenAt?, tokenAt?, Array.findSomeRev?_eq_findSome?_reverse,
    Array.findSomeRev?_eq_findSome?_reverse, ← Array.findSome?_toList, ← Array.findSome?_toList]
  apply findSome?_congr
  intro span hspan
  rw [hcontains span (by simpa using hspan)]

namespace Lexer

theorem seams_whole (t : Text) : ∀ l : Lexer,
    ∀ span ∈ (l.whole t).spans, t.Seam span.start ∧ t.Seam span.stop
  | haskell g _ => (Haskell.sound g).seams_whole (P := Haskell.Machine.Sews g) (fun _ h => h.scan)
    (fun _ h hmore => h.step hmore) (Haskell.Machine.sews_start g t (Haskell.LineState.unpack 0) rfl)
  | r g => (R.sound g).seams_whole (P := R.Machine.Sews) (fun _ h => h.scan)
    (fun _ h hmore => h.step hmore) (R.Machine.sews_start t)

/-- Where the text cannot be cut the bytes on both sides have one token. -/
theorem tokenAt_succ_of_not_seam (l : Lexer) {b : Buffer} (hb : b.WellFormed) {p : Nat}
    (hlt : p + 1 < b.size) (hp : ¬b.text.Seam (p + 1)) :
    (l.lex b 0 b.size .plain).tokenAt (p + 1) = (l.lex b 0 b.size .plain).tokenAt p := by
  have hsame := Styling.tokenAt?_succ_of_not_seam (l.seams_whole b.text) hp
  rw [l.tokenAt?_whole hb hlt, l.tokenAt?_whole hb (Nat.lt_of_succ_lt hlt)] at hsame
  exact Option.some.inj hsame

end Lexer

end Restyle
