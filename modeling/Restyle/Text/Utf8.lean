/-
Restyle.Text.Utf8 — UTF-8 in both directions a highlighter needs it.

* `decode?` is the strict decoder of one character from the four bytes
  at a position: shortest forms of scalar values only, so whatever it
  refuses is treated by the caller as a character of its own.
* `lossy` turns any byte string into characters for display. Every
  maximal piece that starts like a character and is cut short becomes
  one U+FFFD, and so does every byte that starts none.

Both agree on what a character is; they differ only in what they do
with a byte that belongs to none.
-/

namespace Restyle.Utf8

/-! ## One character -/

/-- A decoded character: its code point and the bytes it takes. -/
structure Decoded where
  code : Nat
  width : Nat
  deriving DecidableEq, Repr

/-- The bytes 0x80 to 0xBF, which only ever continue a character. -/
def isContinuation (b : Nat) : Bool := 0x80 ≤ b && b ≤ 0xBF

/-- The six low bits that a continuation byte adds to a code point. -/
def payload (b : Nat) : Nat := b - 0x80

/-- The character of two bytes with lead `b₀`. -/
def decode₂ (b₀ b₁ : Nat) : Option Decoded :=
  if isContinuation b₁ then some ⟨(b₀ - 0xC0) * 0x40 + payload b₁, 2⟩ else none

/-- The character of three bytes with lead `b₀`; overlong forms and surrogates are none. -/
def decode₃ (b₀ b₁ b₂ : Nat) : Option Decoded :=
  if isContinuation b₁ && isContinuation b₂ then
    let code := (b₀ - 0xE0) * 0x1000 + payload b₁ * 0x40 + payload b₂
    if code < 0x800 ∨ (0xD800 ≤ code ∧ code ≤ 0xDFFF) then none else some ⟨code, 3⟩
  else none

/-- The character of four bytes with lead `b₀`; overlong forms and codes above U+10FFFF are none. -/
def decode₄ (b₀ b₁ b₂ b₃ : Nat) : Option Decoded :=
  if isContinuation b₁ && isContinuation b₂ && isContinuation b₃ then
    let code :=
      (b₀ - 0xF0) * 0x40000 + payload b₁ * 0x1000 + payload b₂ * 0x40 + payload b₃
    if code < 0x10000 ∨ 0x10FFFF < code then none else some ⟨code, 4⟩
  else none

/-- The multi-byte character that starts with the bytes given, if one does. A
single byte below 0x80 is not its business. -/
def decode? (b₀ b₁ b₂ b₃ : Nat) : Option Decoded :=
  if 0xC2 ≤ b₀ ∧ b₀ ≤ 0xDF then decode₂ b₀ b₁
  else if 0xE0 ≤ b₀ ∧ b₀ ≤ 0xEF then decode₃ b₀ b₁ b₂
  else if 0xF0 ≤ b₀ ∧ b₀ ≤ 0xF4 then decode₄ b₀ b₁ b₂ b₃
  else none

/-! ## Any bytes as characters -/

/-- U+FFFD, what stands in for bytes that are no character. -/
def replacement : Char := '\uFFFD'

/-- Whether `second` can follow `lead` in a character. -/
def secondFits (lead second : Nat) : Bool :=
  if lead = 0xE0 then 0xA0 ≤ second && second ≤ 0xBF
  else if lead = 0xED then 0x80 ≤ second && second ≤ 0x9F
  else if lead = 0xF0 then 0x90 ≤ second && second ≤ 0xBF
  else if lead = 0xF4 then 0x80 ≤ second && second ≤ 0x8F
  else 0xC2 ≤ lead && lead ≤ 0xF4 && isContinuation second

/-- The characters of a byte string, with U+FFFD for each maximal invalid piece. -/
def lossy : List UInt8 → List Char
  | [] => []
  | b₀ :: rest₀ =>
    if b₀.toNat < 0x80 then Char.ofNat b₀.toNat :: lossy rest₀
    else match rest₀ with
      | [] => [replacement]
      | b₁ :: rest₁ =>
        if !secondFits b₀.toNat b₁.toNat then replacement :: lossy (b₁ :: rest₁)
        else if b₀.toNat < 0xE0 then
          Char.ofNat ((b₀.toNat - 0xC0) * 0x40 + payload b₁.toNat) :: lossy rest₁
        else match rest₁ with
          | [] => [replacement]
          | b₂ :: rest₂ =>
            if !isContinuation b₂.toNat then replacement :: lossy (b₂ :: rest₂)
            else if b₀.toNat < 0xF0 then
              Char.ofNat ((b₀.toNat - 0xE0) * 0x1000 + payload b₁.toNat * 0x40
                + payload b₂.toNat) :: lossy rest₂
            else match rest₂ with
              | [] => [replacement]
              | b₃ :: rest₃ =>
                if !isContinuation b₃.toNat then replacement :: lossy (b₃ :: rest₃)
                else
                  Char.ofNat ((b₀.toNat - 0xF0) * 0x40000 + payload b₁.toNat * 0x1000
                    + payload b₂.toNat * 0x40 + payload b₃.toNat) :: lossy rest₃

/-- The text a byte string shows as. -/
def toDisplay (bytes : List UInt8) : String := String.ofList (lossy bytes)

/-- The text a byte string encodes, if it is valid throughout. -/
def toText? (bytes : Array UInt8) : Option String := String.fromUTF8? ⟨bytes⟩

/-- The bytes that encode a text. -/
def ofText (text : String) : Array UInt8 := text.toUTF8.data

end Restyle.Utf8
