import ModalEditor.Buffer.Basic
import ModalEditor.Motion

/-!
# Planned edits

What an editing command does to a text, worked out before anything is changed: the range to replace,
where the cursor goes, and the text taken out. `Buffer.carryOut` performs a plan as one undo step. A
plan without an edit leaves the text alone.

Line-wise plans treat the empty line after a final line feed as part of the line before it
(`Text.lastFullLine`).
-/

namespace ModalEditor

/-- A range to be replaced, under the name the undo step gets. -/
structure Edit where
  description : Text
  start : Int
  stop : Int
  inserted : Text
deriving DecidableEq, Repr

/-- The text after the edit. -/
def Edit.result (e : Edit) (t : Text) : Text := t.before e.start ++ e.inserted ++ t.following e.stop

/-- An edit to be made, the cursor after it, and the text it takes out. -/
structure Plan where
  edit : Option Edit
  cursor : Cursor
  removed : Text := []
deriving DecidableEq, Repr

namespace Plan

/-- Nothing to be done. -/
def none (c : Cursor) : Plan := { edit := .none, cursor := c }

/-- The text once the plan is carried out. -/
def result (p : Plan) (t : Text) : Text := p.edit.elim t fun e => e.result t

/-! ## Lines -/

/-- The line with its line feed, as it is kept for pasting. -/
def wholeLine (t : Text) (line : Int) : Text := t.lineText line ++ [newline]

/-- The cursor's line taken out with its separator: the one after it, or the one before it on the
last line, so that no empty line is left behind. -/
def cutLine (t : Text) (c : Cursor) : Plan :=
  if t = [] then .none (.collapsed 0)
  else
    let line := t.lineAt c.position
    let start := t.lineStart line
    let stop := t.lineEnd line
    let atEnd : Bool := t.lastFullLine ≤ line ∧ 0 < line
    let edit : Edit :=
      { description := Text.ofString "Delete line"
        start := if atEnd then start - 1 else start
        stop := if atEnd then stop else min (stop + 1) t.length
        inserted := [] }
    let rest := edit.result t
    { edit
      cursor := .collapsed (rest.lineStart (rest.lineAt edit.start))
      removed := wholeLine t line }

/-- The cursor's line with its line feed; nothing of an empty text. -/
def copyLine (t : Text) (c : Cursor) : Text :=
  if t = [] then [] else wholeLine t (t.lineAt c.position)

/-- A text put in as new lines below the cursor's line, less one final line feed. -/
def pasteBelow (t : Text) (c : Cursor) (pasted : Text) : Plan :=
  if pasted = [] then .none c
  else
    let body := if pasted.getLast? = some newline then pasted.dropLast else pasted
    let stop := t.lineEnd (t.lineAt c.position)
    { edit := some
        { description := Text.ofString "Paste line", start := stop, stop, inserted := newline :: body }
      cursor := .collapsed (stop + 1) }

/-- The indentation of the line that holds an offset. -/
def indentAt (t : Text) (o : Int) : Text := (t.lineText (t.lineAt o)).indent

/-- A new line below the cursor's line, indented like it. An empty text already is one empty line. -/
def openBelow (t : Text) (c : Cursor) : Plan :=
  if t = [] then .none (.collapsed 0)
  else
    let indent := indentAt t c.position
    let stop := t.lineEnd (t.lineAt c.position)
    { edit := some
        { description := Text.ofString "Open line below", start := stop, stop
          inserted := newline :: indent }
      cursor := .collapsed (stop + 1 + indent.length) }

/-- A new line above the cursor's line, indented like it. -/
def openAbove (t : Text) (c : Cursor) : Plan :=
  let indent := indentAt t c.position
  let start := t.lineStart (t.lineAt c.position)
  { edit := some
      { description := Text.ofString "Open line above", start, stop := start
        inserted := indent ++ [newline] }
    cursor := .collapsed (start + indent.length) }

/-- A line break in place of the selection, with the indentation of the line the selection begins
on. The blanks after the break are dropped, so that the new line has just that indentation. -/
def breakLine (t : Text) (c : Cursor) : Plan :=
  let start := t.clamp c.first
  let indent := indentAt t start
  let stop := t.clamp c.last
  let blanks := (t.slice stop (t.lineEnd (t.lineAt stop))).indent
  { edit := some
      { description := Text.ofString "New line", start, stop := stop + blanks.length
        inserted := newline :: indent }
    cursor := .collapsed (start + 1 + indent.length) }

/-! ## Selections and characters -/

/-- The selection taken out. -/
def cutSelection (t : Text) (c : Cursor) : Plan :=
  if c.hasSelection then
    let start := t.clamp c.first
    let stop := t.clamp c.last
    { edit := some { description := Text.ofString "Delete selection", start, stop, inserted := [] }
      cursor := .collapsed start
      removed := t.slice start stop }
  else .none c

/-- The character under the cursor taken out; there is none at the end of the text. -/
def cutCharacter (t : Text) (c : Cursor) : Plan :=
  let here := t.clamp c.position
  if t.length ≤ here then .none (.collapsed here)
  else
    { edit := some
        { description := Text.ofString "Delete character", start := here, stop := t.next here
          inserted := [] }
      cursor := .collapsed here
      removed := t.slice here (t.next here) }

/-- The character under the cursor replaced; there is none at the end of a line. -/
def overwrite (t : Text) (c : Cursor) (character : Text) : Plan :=
  let here := t.clamp c.position
  if t.unitAt? here = Option.none ∨ t.unitAt? here = some newline then .none (.collapsed here)
  else
    { edit := some
        { description := Text.ofString "Replace character", start := here, stop := t.next here
          inserted := character }
      cursor := .collapsed here }

end Plan

/-! ## Carrying out -/

namespace Buffer

/-- A plan carried out as one undo step. -/
def carryOut (b : Buffer) (p : Plan) : Except EditError Buffer :=
  match p.edit with
  | none => .ok b
  | some e => do
    let b ← (b.beginGroup e.description).replace e.start e.stop e.inserted
    b.endGroup

/-- A plan carried out, and the cursor put where the plan says. -/
def follow (b : Buffer) (p : Plan) : Except EditError Buffer := do
  let b ← b.carryOut p
  return b.setCursor p.cursor

end Buffer

end ModalEditor
