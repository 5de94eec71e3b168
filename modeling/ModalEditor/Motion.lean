import ModalEditor.Cursor
import ModalEditor.Text.Class

/-!
# Motions

Where the cursor may go: by characters (a surrogate pair is one), by words, by lines and to the ends
of the text. `Motion.target` starts from any offset and lands inside the text; `Cursor.move` moves a
cursor, with or without its anchor, and `Cursor.page` moves it a page of lines.
-/

namespace ModalEditor

namespace Text

/-! ## Characters -/

/-- One character to the right; a surrogate pair is one character. -/
def next (t : Text) (o : Int) : Int :=
  if t.length ≤ o then t.length
  else if isPair (t.slice o (o + 2)) then o + 2
  else o + 1

/-- One character to the left; a surrogate pair is one character. -/
def prev (t : Text) (o : Int) : Int :=
  if o ≤ 0 then 0
  else if 2 ≤ o ∧ isPair (t.slice (o - 2) o) then o - 2
  else o - 1

/-! ## Words -/

/-- The class of the code unit at an offset; outside the text there is only punctuation. -/
def classAt (t : Text) (o : Int) : CharClass := (t.unitAt? o).elim .punctuation CodeUnit.charClass

/-- The length of the run of one class at the beginning of a text. -/
def runLength (c : CharClass) (t : Text) : Nat := (t.takeWhile (CodeUnit.charClass · = c)).length

/-- The beginning of the next word: past the run at the offset, if it is not blank, and past the
blanks after it. -/
def nextWord (t : Text) (o : Int) : Int :=
  if t.length ≤ o then t.length
  else
    let ahead := t.drop o.toNat
    let word := if t.classAt o = .blank then 0 else runLength (t.classAt o) ahead
    (o.toNat + word + runLength .blank (ahead.drop word) : Nat)

/-- The beginning of the word before: back over blanks, then over the run that ends there. An offset
before the text stays. -/
def prevWord (t : Text) (o : Int) : Int :=
  if o < 0 then o
  else
    let behind := (t.take o.toNat).reverse
    let gap := runLength .blank behind
    match behind.drop gap with
    | [] => 0
    | u :: rest => (behind.length - gap - runLength (CodeUnit.charClass u) (u :: rest) : Nat)

end Text

/-! ## Motions -/

/-- Where the cursor may be sent. -/
inductive Motion where
  | left
  | right
  | down
  | up
  | lineStart
  | lineEnd
  | firstNonBlank
  | wordRight
  | wordLeft
  | documentStart
  | documentEnd
deriving DecidableEq, Repr

/-- Where a motion lands. Vertical motions keep the column where the line is long enough, and stay
on the first and the last line. -/
def Motion.target (t : Text) (o : Int) (m : Motion) : Int :=
  let here := t.clamp o
  let line : Int := t.lineAt here
  match m with
  | .left => t.prev here
  | .right => t.next here
  | .down => if (t.lineCount : Int) - 1 ≤ line then here else t.atColumn (line + 1) (t.columnOf here)
  | .up => if line ≤ 0 then here else t.atColumn (line - 1) (t.columnOf here)
  | .lineStart => t.lineStart line
  | .lineEnd => t.lineEnd line
  | .firstNonBlank => t.lineStart line + (t.lineText line).indent.length
  | .wordRight => t.nextWord here
  | .wordLeft => t.prevWord here
  | .documentStart => 0
  | .documentEnd => t.length

namespace Cursor

/-- A cursor moved without its anchor: the selection grows, and at the first and the last line
vertical motions reach the ends of the text. -/
def extend (c : Cursor) (t : Text) (m : Motion) : Cursor :=
  let line : Int := t.lineAt (t.clamp c.position)
  let target : Int :=
    if m = .down ∧ (t.lineCount : Int) - 1 ≤ line then t.length
    else if m = .up ∧ line ≤ 0 then 0
    else m.target t c.position
  ⟨target, t.clamp c.anchor⟩

/-- A cursor moved by a motion, extending the selection or dropping it. -/
def move (c : Cursor) (t : Text) (m : Motion) (select : Bool) : Cursor :=
  if select then c.extend t m else collapsed (m.target t c.position)

/-- A cursor moved a page of lines, at least one, keeping its column. -/
def page (c : Cursor) (t : Text) (lines : Int) (d : Direction) : Cursor :=
  let here := t.clamp c.position
  let line : Int := t.lineAt here
  let step := max 1 lines
  collapsed (t.atColumn (match d with | .down => line + step | .up => line - step) (t.columnOf here))

/-- The cursor one character further, for typing after the character under it. -/
def pastCharacter (c : Cursor) (t : Text) : Cursor := collapsed (t.next (t.clamp c.position))

end Cursor

end ModalEditor
