import ModalEditor.Buffer.Basic
import ModalEditor.Key.Basic
import ModalEditor.Motion

/-!
# Plain typing

What keys do in an editor without modes: text replaces the selection, Backspace and Delete remove a
character, and the arrows move. Chords, Escape and control characters are declined.
-/

namespace ModalEditor

namespace CodeUnit

/-- A control character that no key types: all but the tab and the line feed. -/
def isUntypable (u : CodeUnit) : Bool := u ≤ 0x8 || (0xB ≤ u && u ≤ 0x1F) || u = 0x7F

end CodeUnit

namespace Buffer

/-- The selection replaced by a text, with the cursor after it. -/
def typeText (b : Buffer) (t : Text) : Except EditError Buffer := do
  let start := b.text.clamp b.cursor.first
  let b ← b.replace start (b.text.clamp b.cursor.last) t
  return b.setCursor (.collapsed (start + t.length))

/-- The selection removed, or the character before the cursor. -/
def eraseBackward (b : Buffer) : Except EditError Buffer :=
  if b.cursor.hasSelection then b.typeText []
  else
    let here := b.text.clamp b.cursor.position
    if here = 0 then .ok b
    else do
      let start := b.text.prev here
      let b ← b.replace start here []
      return b.setCursor (.collapsed start)

/-- The selection removed, or the character after the cursor. -/
def eraseForward (b : Buffer) : Except EditError Buffer :=
  if b.cursor.hasSelection then b.typeText []
  else
    let here := b.text.clamp b.cursor.position
    if b.text.length ≤ here then .ok b else b.replace here (b.text.next here) []

/-- The cursor moved by a motion. -/
def move (b : Buffer) (m : Motion) (select : Bool) : Buffer :=
  b.setCursor (b.cursor.move b.text m select)

/-- The cursor moved by a page. -/
def page (b : Buffer) (lines : Int) (d : Direction) : Buffer :=
  b.setCursor (b.cursor.page b.text lines d)

/-- What a named key does; the answer is `none` if the key is declined. -/
def pressNamed (b : Buffer) (pageLines : Int) (select : Bool) (k : NamedKey) :
    Option (Except EditError Buffer) :=
  match k with
  | .backspace => some b.eraseBackward
  | .delete => some b.eraseForward
  | .tab => some (b.typeText [tab])
  | .enter => some (b.typeText [newline])
  | .arrowLeft => some (.ok (b.move .left select))
  | .arrowRight => some (.ok (b.move .right select))
  | .arrowUp => some (.ok (b.move .up select))
  | .arrowDown => some (.ok (b.move .down select))
  | .home => some (.ok (b.move .lineStart select))
  | .endKey => some (.ok (b.move .lineEnd select))
  | .pageUp => some (.ok (b.page pageLines .up))
  | .pageDown => some (.ok (b.page pageLines .down))
  | .escape => none

/-- One key typed, with the height of a page, and whether it was taken. -/
def press (b : Buffer) (pageLines : Int) (k : KeyPress) : Except EditError (Buffer × Bool) :=
  if k.isChord then .ok (b, false)
  else match k.named? with
    | some named =>
      match b.pressNamed pageLines k.hasShift named with
      | some outcome => outcome.map (·, true)
      | none => .ok (b, false)
    | none =>
      if k.key = [] ∨ k.key.any CodeUnit.isUntypable then .ok (b, false)
      else (b.typeText k.key).map (·, true)

end Buffer

end ModalEditor
