/-
Restyle.Proofs.Haskell.Resume — the Haskell lexer can start again at
every line start.

Two machines that are `Like` differ at most in what can no longer be
seen: where their open spans start, if these will not be relabelled, and
what they remember of numerals and line comments, if none is open. Every
round keeps that (`like_step`).

A round crosses a line end only with a move that stands last in it, in a
token that is not `isLoose`, and after mode and depth were noted for the
line. So all that a machine carries over a line end is its token, its
mode and its depth (`Arrived`), and the depth fits its place in texts
shorter than 2^28.
-/
import Restyle.Proofs.Engine.Lockstep
import Restyle.Proofs.Haskell.Tandem
import Restyle.Proofs.Packing

namespace Restyle

namespace Haskell

namespace Machine

open Scanner (Inside isSign)

variable {t t' : Text} {o k : Nat} {m : Machine t} {m' : Machine t'}

/-! ## 1. Like machines -/

/-- The machines say the same from `o` on and will do the same up to `k`. -/
structure Like (o k : Nat) (m : Machine t) (m' : Machine t') : Prop where
  scan : Scanner.Abreast isLoose o k m.scan m'.scan
  mode : m'.mode = m.mode
  depth : m'.depth = m.depth
  depth_le : m.depth ≤ m.scan.pos
  radix : m.scan.token = .number → m'.radix = m.radix
  inDashes : m.scan.token = .lineComment → m'.inDashes = m.inDashes
  onWord : m.scan.token = .identifier → m.scan.pos < k → isWordStart m.scan.ch = true

/-- Mode and depth are noted for `line`. -/
def Saved (m : Machine t) (line : Nat) : Prop :=
  m.scan.noted line = some (LineState.pack ⟨m.mode, m.depth⟩)

/-- Machines in the same mode and depth have saved the same. -/
theorem Saved.noted_eq {line : Nat} (h : m.Saved line) (h' : m'.Saved line)
    (hmode : m'.mode = m.mode) (hdepth : m'.depth = m.depth) :
    m'.scan.noted line = m.scan.noted line := by
  rw [Saved, hmode, hdepth] at h'
  exact h'.trans h.symm

/-- At the end of its line, mode and depth are noted for it. -/
def Ready (m : Machine t) : Prop := m.scan.atLineEnd = true → m.Saved m.scan.line

/-- The machine has just come over a line end: its token is in the byte before, its mode
and depth in the state of the line before. -/
structure Arrived (m : Machine t) : Prop where
  token : isLoose m.scan.token = false
  mark : m.scan.mark < m.scan.pos
  saved : m.Saved (m.scan.line - 1)

/-- Like machines that either have not come to `k` or have just come over a line end. -/
def Next (o k : Nat) (m : Machine t) (m' : Machine t') : Prop :=
  Like o k m m' ∧ (m.scan.pos = k → m.Arrived ∧ m'.Arrived)

/-- Like machines before `k`, in the middle of a round. -/
structure Poised (o k : Nat) (m : Machine t) (m' : Machine t') : Prop extends Like o k m m' where
  lt : m.scan.pos < k
  ready : m.Ready
  ready' : m'.Ready

theorem saved_saveLine (m : Machine t) : m.saveLine.Saved m.scan.line := by
  rw [Saved, saveLine, map, Scanner.noted_noteHere, if_pos rfl]

theorem noted_saveLine_eq (hline : m'.scan.line = m.scan.line) (hmode : m'.mode = m.mode)
    (hdepth : m'.depth = m.depth) :
    m'.saveLine.scan.noted m.scan.line = m.saveLine.scan.noted m.scan.line := by
  have hs' := m'.saved_saveLine
  rw [hline] at hs'
  exact m.saved_saveLine.noted_eq hs' hmode hdepth

theorem ready_noteEnd (m : Machine t) : m.noteEnd.Ready := by
  rw [noteEnd]
  split
  · intro _
    exact saved_saveLine m
  · rename_i hend
    intro hend'
    exact absurd hend' hend

theorem Ready.switch {token : Token} (h : m.Ready) : (m.map (·.switch token)).Ready := by
  intro hend
  have hend' : m.scan.atLineEnd = true := by
    rw [← hend]
    exact (congrArg Cursor.atLineEnd (Scanner.toCursor_switch ..)).symm
  have hsaved := h hend'
  simpa [Saved, map] using hsaved

/-- A machine that is ready arrives with a move over a line end. -/
theorem Ready.arrived_forward (h : m.Ready) (hsync : m.scan.InSync) (hmore : m.scan.more = true)
    (hmark : m.scan.mark ≤ m.scan.pos) (hl : isLoose m.scan.token = false)
    (hend : m.scan.atLineEnd = true) : (m.map (·.forward)).Arrived := by
  have hlt : m.scan.pos < m.scan.forward.pos := hsync.toMeasured.pos_lt_forward hmore
  have hline : m.scan.forward.line = m.scan.line + 1 := by
    rw [Scanner.toCursor_forward, Cursor.forward_line hmore, if_pos hend]
  refine { token := hl, mark := ?_, saved := ?_ }
  · show m.scan.mark < m.scan.forward.pos
    omega
  · show m.scan.noted (m.scan.forward.line - 1) = _
    rw [hline]
    exact h hend

section

variable {n : Machine t} {r : Machine t'} (hs : Inside isLoose o k n.scan r.scan)
  (hmode : r.mode = n.mode) (hdepth : r.depth = n.depth) (hle : n.depth ≤ n.scan.pos)
include hs hmode hdepth hle

omit hle in
theorem inside_noteEnd : Inside isLoose o k n.noteEnd.scan r.noteEnd.scan := by
  rw [noteEnd, noteEnd, hs.atLineEnd]
  split
  · rw [saveLine, saveLine, hmode, hdepth]
    exact hs.note _
  · exact hs

/-- A move of machines that are ready may take them over a line end. -/
theorem next_forward (hl : isLoose n.scan.token = false) (hr : n.Ready) (hr' : r.Ready) :
    Next o k (n.map (·.forward)) (r.map (·.forward)) := by
  have hmore := hs.cursor.more hs.lt
  have hmark := hs.mark_le
  have hmark' := hs.mark_le'
  have hend := hs.atLineEnd
  have hnoted : n.scan.atLineEnd = true → ∃ state,
      n.scan.noted n.scan.line = some state ∧ r.scan.noted n.scan.line = some state := by
    intro he
    have hsaved' := hr' (hend.trans he)
    rw [Saved, hmode, hdepth, hs.cursor.line] at hsaved'
    exact ⟨_, hr he, hsaved'⟩
  have hpos : n.scan.pos ≤ n.scan.forward.pos := n.scan.toCursor.pos_le_forward
  refine ⟨{ scan := hs.forward hnoted, mode := hmode, depth := hdepth,
            depth_le := Nat.le_trans hle hpos, radix := ?_, inDashes := ?_, onWord := ?_ }, ?_⟩
  · intro h
    have h : n.scan.token = .number := h
    rw [h] at hl; cases hl
  · intro h
    have h : n.scan.token = .lineComment := h
    rw [h] at hl; cases hl
  · intro h
    have h : n.scan.token = .identifier := h
    rw [h] at hl; cases hl
  · intro hk
    have hcross : n.scan.atLineEnd = true := by
      cases he : n.scan.atLineEnd with
      | true => rfl
      | false =>
        have hlt := (hs.forward_of_atLineEnd he).lt
        have hk : n.scan.forward.pos = k := hk
        omega
    exact ⟨hr.arrived_forward hs.cursor.sync hmore (by omega) hl hcross,
      hr'.arrived_forward hs.cursor.sync' (hs.cursor.more' hs.lt) (by omega)
        (by rw [hs.token]; exact hl) (hend.trans hcross)⟩

/-- With a note made if the line ends, machines are ready to move. -/
theorem next_noteEnd_forward (hl : isLoose n.scan.token = false) :
    Next o k (n.noteEnd.map (·.forward)) (r.noteEnd.map (·.forward)) :=
  next_forward (inside_noteEnd hs hmode hdepth) (by simpa using hmode) (by simpa using hdepth)
    (by simpa using hle) (by simpa using hl) n.ready_noteEnd r.ready_noteEnd

end

/-! ### Passing a line end -/

theorem Saved.forward (h : m.Saved m.scan.line) (hend : m.scan.atLineEnd = false)
    (hmore : m.scan.more = true) :
    (m.map (·.forward)).Saved (m.map (·.forward)).scan.line := by
  have heq : m.scan.forward.line = m.scan.line := by
    rw [Scanner.toCursor_forward, Cursor.forward_line hmore, hend, if_neg (by simp)]
  show m.scan.noted m.scan.forward.line = _
  rw [heq]
  exact h

theorem map_passLineEnd_of_pair
    (h : (m.scan.forward.sees '\r' && m.scan.forward.seesNext '\n') = true) :
    m.map passLineEnd = ((m.map (·.forward)).map (·.forward)).map (·.forward) := by
  rw [map, passLineEnd]
  rw [if_pos h]
  rfl

theorem map_passLineEnd_of_single
    (h : (m.scan.forward.sees '\r' && m.scan.forward.seesNext '\n') = false) :
    m.map passLineEnd = (m.map (·.forward)).map (·.forward) := by
  rw [map, passLineEnd]
  rw [h]
  rfl

/-! ## 2. Rounds -/

/-- Like machines before `k` go in tandem. -/
theorem Like.paired (h : Like o k m m') (hlt : m.scan.pos < k) : Paired (Inside isLoose o k) m m' where
  scan := ⟨h.scan, hlt⟩
  mode := h.mode
  depth := h.depth
  depth_le := h.depth_le
  radix := h.radix
  inDashes := h.inDashes
  onWord ht := h.onWord ht hlt

theorem Paired.next (h : Paired (Inside isLoose o k) m m') : Next o k m m' :=
  ⟨{ scan := h.scan.toAbreast
     mode := h.mode
     depth := h.depth
     depth_le := h.depth_le
     radix := h.radix
     inDashes := h.inDashes
     onWord := fun ht _ => h.onWord ht },
    fun hk => absurd hk (Nat.ne_of_lt h.scan.lt)⟩

namespace Poised

variable (h : Poised o k m m')
include h

theorem inside : Inside isLoose o k m.scan m'.scan := ⟨h.scan, h.lt⟩

/-- A move, maybe over a line end. -/
theorem next_move (hl : isLoose m.scan.token = false) :
    Next o k (m.map (·.forward)) (m'.map (·.forward)) :=
  next_forward h.inside h.mode h.depth h.depth_le hl h.ready h.ready'

theorem switch {token : Token} (hl : isLoose token = false) :
    Poised o k (m.map (·.switch token)) (m'.map (·.switch token)) :=
  { ((h.toLike.paired h.lt).switch (Inside.tandem _ _ isLoose o k) hl).next.1 with
    lt := (h.inside.switch token).1.lt
    ready := h.ready.switch
    ready' := h.ready'.switch }

/-- A move that ends the open span first. -/
theorem next_switch_forward {token : Token} (hl : isLoose token = false) :
    Next o k (m.map fun s => (s.switch token).forward)
      (m'.map fun s => (s.switch token).forward) :=
  (h.switch hl).next_move hl

/-- The character after a backslash may end the line. -/
theorem next_escape (he : m.escapes = true) :
    Next o k (((m.map (·.forward)).noteEnd).map (·.forward))
      (((m'.map (·.forward)).noteEnd).map (·.forward)) := by
  obtain ⟨htoken, hback⟩ := escapes_iff.1 he
  have hl : isLoose m.scan.token = false := by
    rcases htoken with ht | ht <;> rw [ht] <;> rfl
  exact next_noteEnd_forward (n := m.map (·.forward)) (r := m'.map (·.forward))
    (h.inside.forward_of_sees (by decide) hback) h.mode h.depth
    (Nat.le_trans h.depth_le m.scan.toCursor.pos_le_forward) hl

/-- A backslash before a line end is passed with it, after the state is noted. -/
theorem next_passLineEnd (hl : isLoose m.scan.token = false)
    (hs : m.scan.sees Ascii.backslash = true) :
    Next o k (m.saveLine.map passLineEnd) (m'.saveLine.map passLineEnd) := by
  have hin := h.inside
  have hsolid : isSolid m.scan.ch = true := Scanner.isSolid_of_sees (by decide) hs
  have hend := hin.atLineEnd_eq_false hsolid
  have hnote : Inside isLoose o k m.saveLine.scan m'.saveLine.scan := by
    rw [saveLine, saveLine, h.mode, h.depth]
    exact hin.note _
  have h₁ : Inside isLoose o k (m.saveLine.map (·.forward)).scan
      (m'.saveLine.map (·.forward)).scan := hnote.forward_of_solid hsolid
  have hs₁ := m.saved_saveLine.forward hend (hin.cursor.more hin.lt)
  have hs₁' := m'.saved_saveLine.forward (hin.atLineEnd.trans hend) (hin.cursor.more' hin.lt)
  have hle₁ : m.depth ≤ (m.saveLine.map (·.forward)).scan.pos :=
    Nat.le_trans h.depth_le m.scan.toCursor.pos_le_forward
  have hpair : ((m'.saveLine.map (·.forward)).scan.sees '\r'
        && (m'.saveLine.map (·.forward)).scan.seesNext '\n')
      = ((m.saveLine.map (·.forward)).scan.sees '\r'
        && (m.saveLine.map (·.forward)).scan.seesNext '\n') := by
    rw [h₁.sees]
    cases hc : (m.saveLine.map (·.forward)).scan.sees '\r' with
    | false => rfl
    | true =>
      rw [Cursor.sees, beq_iff_eq] at hc
      rw [h₁.seesNext_of_return hc]
  cases hc : (m.saveLine.map (·.forward)).scan.sees '\r'
      && (m.saveLine.map (·.forward)).scan.seesNext '\n' with
  | false =>
    rw [map_passLineEnd_of_single hc, map_passLineEnd_of_single (hpair.trans hc)]
    exact next_forward h₁ h.mode h.depth hle₁ hl (fun _ => hs₁) (fun _ => hs₁')
  | true =>
    rw [map_passLineEnd_of_pair hc, map_passLineEnd_of_pair (hpair.trans hc)]
    rw [Bool.and_eq_true, Cursor.sees, Cursor.seesNext, beq_iff_eq, beq_iff_eq] at hc
    have hend₁ := h₁.cursor.sync.atLineEnd_of_pair hc.1 hc.2
    have hs₂ := hs₁.forward hend₁ (h₁.cursor.more h₁.lt)
    have hs₂' := hs₁'.forward (h₁.atLineEnd.trans hend₁) (h₁.cursor.more' h₁.lt)
    exact next_forward (n := (m.saveLine.map (·.forward)).map (·.forward))
      (r := (m'.saveLine.map (·.forward)).map (·.forward))
      (h₁.forward_of_atLineEnd hend₁) h.mode h.depth
      (Nat.le_trans hle₁ (Cursor.pos_le_forward _)) hl (fun _ => hs₂) (fun _ => hs₂')

/-- Passing a character that is no sign, maybe over a line end. -/
theorem next_pass : Next o k m.pass m'.pass := by
  have hin := h.inside
  have hends : endsHere m'.scan = endsHere m.scan := by
    rw [endsHere, endsHere, hin.token, hin.atLineEnd]
  rw [pass, pass, map, map, hends]
  cases he : endsHere m.scan with
  | true => exact h.next_switch_forward rfl
  | false =>
    cases hl : isLoose m.scan.token with
    | false => exact h.next_move hl
    | true =>
      -- a line comment that goes on does not stand at the end of its line
      have hend : m.scan.token ≠ .identifier ∧ m.scan.atLineEnd = false := by
        rw [endsHere] at he
        cases ht : m.scan.token <;> simp [ht, isLoose] at he hl ⊢
        exact he
      exact Paired.next ((h.toLike.paired h.lt).move (hin.forward_of_atLineEnd hend.2)
        Scanner.Reach.refl.forward rfl hend.1)

end Poised

theorem like_noteEnd (h : Like o k m m') (hlt : m.scan.pos < k) : Poised o k m.noteEnd m'.noteEnd :=
  { ((h.paired hlt).noteEnd (Inside.tandem _ _ isLoose o k)).next.1 with
    lt := by simpa using hlt
    ready := m.ready_noteEnd
    ready' := m'.ready_noteEnd }

/-- Every round of like machines ends in like machines. -/
theorem like_step (g : Settings) (h : Like o k m m') (hlt : m.scan.pos < k) :
    Next o k (m.step g) (m'.step g) := by
  have hp := like_noteEnd h hlt
  refine (h.paired hlt).step_elim (Inside.tandem _ _ isLoose o k) g ?_ ?_ ?_ Paired.next
  · intro hc
    obtain ⟨hback, htoken, -⟩ := continues_iff.1 hc
    refine hp.next_passLineEnd ?_ (by simpa using hback)
    rw [token_noteEnd]
    rcases htoken with ht | ht <;> rw [ht] <;> rfl
  · intro _ he
    exact hp.next_escape (by simpa using he)
  · intro _ _
    exact hp.next_pass

/-! ## 3. Where machines start -/

theorem Like.right (h : Like o k m m') : Like o k m' m' where
  scan := h.scan.right
  mode := rfl
  depth := rfl
  depth_le := by rw [h.depth, h.scan.cursor.pos]; exact h.depth_le
  radix := fun _ => rfl
  inDashes := fun _ => rfl
  onWord := by
    intro ht hlt
    rw [h.scan.cursor.pos] at hlt
    rw [h.scan.cursor.ch hlt]
    exact h.onWord (h.scan.token.symm.trans ht) hlt

theorem like_start {length length' : Nat}
    (h : Scanner.Abreast isLoose 0 k (Scanner.start t 0 length .plain)
      (Scanner.start t' 0 length' .plain)) :
    Like 0 k (start t 0 length .plain (LineState.unpack 0))
      (start t' 0 length' .plain (LineState.unpack 0)) where
  scan := h
  mode := rfl
  depth := rfl
  depth_le := Nat.le_refl 0
  radix := fun _ => rfl
  inDashes := fun _ => rfl
  onWord := by intro ht; cases ht

variable {k' : Nat}

/-- Another machine in the same token, mode and depth is like one that has arrived. -/
theorem Arrived.like (ha : m.Arrived) {n : Machine t} (h : Like o k m m') {o' : Nat}
    (hs : Scanner.Abreast isLoose o' k' m.scan n.scan) (hmode : n.mode = m.mode)
    (hdepth : n.depth = m.depth) : Like o' k' m n where
  scan := hs
  mode := hmode
  depth := hdepth
  depth_le := h.depth_le
  radix := by intro ht; have hl := ha.token; rw [ht] at hl; cases hl
  inDashes := by intro ht; have hl := ha.token; rw [ht] at hl; cases hl
  onWord := by intro ht; have hl := ha.token; rw [ht] at hl; cases hl

/-- A machine that has arrived is like one that starts where it stands, in the token of the
byte before and after the state of the line before. -/
theorem Arrived.restart (ha : m.Arrived) (h : Like o k m m') (ht : t.size < 2 ^ 28)
    {length : Nat} (hk : t.IsStop k') (hlt : m.scan.pos < k')
    (hlen : m.scan.pos + length ≤ t.size) (hstop : k' ≤ m.scan.stop)
    (hstop' : k' ≤ (Cursor.start t m.scan.pos length).stop) :
    ∃ token raw, m.scan.look (m.scan.pos - 1) = some token
      ∧ m.scan.noted (m.scan.line - 1) = some raw
      ∧ Like m.scan.pos k' m (start t m.scan.pos length token (LineState.unpack raw)) := by
  have hmark := ha.mark
  have hdepth := h.depth_le
  refine ⟨m.scan.token, _, Scanner.look_of_le (by omega), ha.saved, ?_⟩
  rw [LineState.unpack_pack (by show m.depth < 2 ^ 28; omega)]
  exact ha.like h (h.scan.restart ha.token hk hlt hlen hstop hstop') rfl rfl

end Machine

/-- The Haskell lexer can start again at the line starts of texts shorter than 2^28. -/
def resumable (g : Settings) : (engine g).Resumable (2 ^ 28) where
  loose := isLoose
  Like := Machine.Like
  Arrived := Machine.Arrived
  abreast h := h.scan
  right h := h.right
  round h hlt := Or.inl (Machine.like_step g h hlt)
  start h := Machine.like_start h
  restart h ha ht hk hlt hlen hstop hstop' := ha.restart h ht hk hlt hlen hstop hstop'
  finish {_ _ _ _ _ m _} h ha hk hle hstop :=
    ⟨m.map (·.finish), rfl, ha.like h (h.scan.self_finish ha.token hk hle hstop) rfl rfl⟩

end Haskell

end Restyle
