import ModalEditor.Text.Basic

/-!
# UTF-8

Texts as bytes. A lone surrogate is written as the replacement character, and so is read every longest
stretch of bytes that begins a character and does not end it; a byte that begins no character is such
a stretch of its own. A byte order mark is a character like any other.
-/

namespace ModalEditor

/-- What stands for anything that is no character. -/
def replacementCharacter : CodeUnit := 0xFFFD

namespace Utf8

/-! ## Writing -/

/-- The last six bits of a number, as a continuation byte. -/
def continuation (n : Nat) : UInt8 := UInt8.ofNat (0x80 + n % 0x40)

/-- The bytes of a code point. -/
def encodePoint (n : Nat) : List UInt8 :=
  if n < 0x80 then [UInt8.ofNat n]
  else if n < 0x800 then [UInt8.ofNat (0xC0 + n / 0x40), continuation n]
  else if n < 0x10000 then
    [UInt8.ofNat (0xE0 + n / 0x1000), continuation (n / 0x40), continuation n]
  else
    [UInt8.ofNat (0xF0 + n / 0x40000), continuation (n / 0x1000), continuation (n / 0x40),
      continuation n]

/-- The code point written for one that may be a lone surrogate. -/
def scalar (n : Nat) : Nat := if 0xD800 ≤ n ∧ n ≤ 0xDFFF then replacementCharacter.toNat else n

/-- The bytes of a text. -/
def encode (t : Text) : List UInt8 := t.codePoints.flatMap fun n => encodePoint (scalar n)

/-! ## Reading -/

/-- Where the reader stands inside a character: how many bytes are owed after the next one, between
which bounds the next one has to lie, and the bits read so far. -/
structure Partial where
  owed : Nat
  low : UInt8
  high : UInt8
  bits : Nat
deriving DecidableEq, Repr

/-- What a first byte begins. -/
inductive Lead where
  | single (u : CodeUnit)
  | more (p : Partial)
  | bad
deriving DecidableEq, Repr

/-- What a byte begins between characters. -/
def lead (b : UInt8) : Lead :=
  if b < 0x80 then .single (UInt16.ofNat b.toNat)
  else if 0xC2 ≤ b ∧ b ≤ 0xDF then .more ⟨0, 0x80, 0xBF, b.toNat % 0x20⟩
  else if b = 0xE0 then .more ⟨1, 0xA0, 0xBF, 0⟩
  else if b = 0xED then .more ⟨1, 0x80, 0x9F, 0xD⟩
  else if 0xE1 ≤ b ∧ b ≤ 0xEF then .more ⟨1, 0x80, 0xBF, b.toNat % 0x10⟩
  else if b = 0xF0 then .more ⟨2, 0x90, 0xBF, 0⟩
  else if 0xF1 ≤ b ∧ b ≤ 0xF3 then .more ⟨2, 0x80, 0xBF, b.toNat % 0x8⟩
  else if b = 0xF4 then .more ⟨2, 0x80, 0x8F, 4⟩
  else .bad

/-- What is read from bytes, from between characters or from inside one. -/
def decodeFrom : Option Partial → List UInt8 → Text
  | none, [] => []
  | some _, [] => [replacementCharacter]
  | none, b :: rest =>
    match lead b with
    | .single u => u :: decodeFrom none rest
    | .more p => decodeFrom (some p) rest
    | .bad => replacementCharacter :: decodeFrom none rest
  | some p, b :: rest =>
    if p.low ≤ b ∧ b ≤ p.high then
      let bits := p.bits * 0x40 + b.toNat % 0x40
      if p.owed = 0 then Text.ofPoint bits ++ decodeFrom none rest
      else decodeFrom (some ⟨p.owed - 1, 0x80, 0xBF, bits⟩) rest
    else
      replacementCharacter :: match lead b with
        | .single u => u :: decodeFrom none rest
        | .more p => decodeFrom (some p) rest
        | .bad => replacementCharacter :: decodeFrom none rest

/-- The text that bytes write. -/
def decode (bytes : List UInt8) : Text := decodeFrom none bytes

/-- The bytes are UTF-8 without fault. -/
def valid (bytes : List UInt8) : Bool := encode (decode bytes) == bytes

end Utf8

end ModalEditor
