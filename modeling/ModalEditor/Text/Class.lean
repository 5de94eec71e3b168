import ModalEditor.Text.Basic
import ModalEditor.Text.Letter

/-!
# Blanks, word characters and punctuation

Word motions stop where the class of the text changes. Every single code unit has one class: blank,
word (letters, numbers and the underscore) or punctuation, which is everything else, lone halves of
surrogate pairs included.
-/

namespace ModalEditor

/-- What a word motion tells apart. -/
inductive CharClass where
  | blank
  | word
  | punctuation
deriving DecidableEq, Repr

/-- The white space of line and word layout: controls 9 to 13, the space separators, the line and
paragraph separators and the byte order mark. -/
def blankRanges : List (Nat × Nat) :=
  [(0x9, 0xD), (0x20, 0x20), (0xA0, 0xA0), (0x1680, 0x1680), (0x2000, 0x200A), (0x2028, 0x2029),
   (0x202F, 0x202F), (0x205F, 0x205F), (0x3000, 0x3000), (0xFEFF, 0xFEFF)]

namespace CodeUnit

/-- White space. -/
def isBlank (u : CodeUnit) : Bool := inRanges blankRanges u.toNat

/-- A letter, a number or the underscore. -/
def isWord (u : CodeUnit) : Bool := u = 0x5F || inRanges letterRanges u.toNat

/-- The class of one code unit. -/
def charClass (u : CodeUnit) : CharClass :=
  if isBlank u then .blank else if isWord u then .word else .punctuation

/-- A space or a tab: what indentation is made of. -/
def isIndent (u : CodeUnit) : Bool := u = space || u = tab

/-- A control character, delete included. -/
def isControl (u : CodeUnit) : Bool := u ≤ 0x1F || u = 0x7F

end CodeUnit

/-- The spaces and tabs a line begins with. -/
def Text.indent (line : Text) : Text := line.takeWhile CodeUnit.isIndent

/-- Indentation is part of its line. -/
theorem Text.indent_length_le (line : Text) : line.indent.length ≤ line.length :=
  (List.takeWhile_prefix _).length_le

end ModalEditor
