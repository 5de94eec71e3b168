import ModalEditor.Buffer.Typing
import ModalEditor.Modal.Interpreter

/-!
# Keys at work

A desk is what one key press works on: an interpreter, the register it yanks to, and a buffer.
`Desk.press` is the interpreter's answer to a key; a key it passes through goes to plain typing in
`Desk.offer`.

A key that is obeyed in navigation ends a pending composition unless it is part of one. Keys that are
answered before, the page chord and Enter with automatic indentation, leave a pending operator or `g`
waiting.
-/

namespace ModalEditor

/-- What a key press works on. A host that is `bare` reports no page height. -/
structure Desk where
  vi : Interpreter
  register : Text
  buffer : Buffer
  bare : Bool := false

/-- Whether the interpreter took a key. -/
inductive Verdict where
  | handled
  | passThrough
deriving DecidableEq, Repr

namespace Desk

/-- An event sent to the mode. -/
def send (d : Desk) (e : ModeEvent) : Desk := { d with vi := d.vi.send e }

/-- The cursor put somewhere. -/
def setCursor (d : Desk) (c : Cursor) : Desk := { d with buffer := d.buffer.setCursor c }

/-- A plan carried out, and the cursor put where the plan says. -/
def follow (d : Desk) (p : Plan) : Except EditError Desk := do
  return { d with buffer := ← d.buffer.follow p }

/-- The plan followed, and what it takes out kept in the register. -/
def cut (d : Desk) (p : Plan) : Except EditError Desk := ({ d with register := p.removed }).follow p

/-! ## Page scrolling -/

/-- The height of a page: the host's, if it reports one. -/
def pageLines (d : Desk) : Int := if d.bare then d.vi.pageLines else d.buffer.pageLines

/-- The cursor moved by a page. -/
def scroll (d : Desk) (direction : Direction) : Desk :=
  { d with buffer := d.buffer.page d.pageLines direction }

/-! ## Edits -/

/-- An edit made at the cursor. A selection and a line go to the register, a character does not. -/
def edit (d : Desk) (e : Repeatable) : Except EditError Desk :=
  let text := d.buffer.text
  let cursor := d.buffer.cursor
  match e with
  | .deleteChar =>
    if cursor.hasSelection then d.cut (.cutSelection text cursor)
    else d.follow (.cutCharacter text cursor)
  | .delete =>
    if cursor.hasSelection then d.cut (.cutSelection text cursor)
    else d.cut (.cutLine text cursor)
  | .paste => d.follow (.pasteBelow text cursor d.register)
  | .overwrite character => d.follow (.overwrite text cursor character)

/-- An edit made at the cursor and remembered. -/
def perform (d : Desk) (e : Repeatable) : Except EditError Desk := do
  let d ← d.edit e
  return { d with vi := { d.vi with lastEdit := some e } }

/-- The cursor's line kept in the register. -/
def yank (d : Desk) : Desk := { d with register := Plan.copyLine d.buffer.text d.buffer.cursor }

/-- What the second key of an operator does to the cursor's line. -/
def completeOperator (d : Desk) : Operator → Except EditError Desk
  | .delete => d.perform .delete
  | .yank => .ok d.yank

/-- An operator key: at once on a selection that is to be deleted, otherwise on the line at the
second key. -/
def operate (d : Desk) (op : Operator) : Except EditError Desk := do
  if op = .delete ∧ d.buffer.cursor.hasSelection then
    (d.send .reset).perform .delete
  else if d.vi.pending = .operator op then
    let d ← d.completeOperator op
    return d.send (.operator op)
  else
    return d.send (.operator op)

/-- The place where insertion is to begin made ready. -/
def prepareInsertion (d : Desk) (place : InsertPlace) : Except EditError Desk :=
  let text := d.buffer.text
  let cursor := d.buffer.cursor
  match place with
  | .before => .ok (d.setCursor cursor)
  | .after => .ok (d.setCursor (cursor.pastCharacter text))
  | .lineBelow => d.follow (.openBelow text cursor)
  | .lineAbove => d.follow (.openAbove text cursor)

/-- Insertion begun at a place of the cursor's line. -/
def beginInsertion (d : Desk) (place : InsertPlace) : Except EditError Desk := do
  let d ← (d.send .reset).prepareInsertion place
  return d.send .insert

/-- The last step undone, with the cursor where it began. -/
def undo (d : Desk) : Desk :=
  match d.buffer.undo with
  | (b, some o) => { d with buffer := b.setCursor (.collapsed (b.text.clamp o)) }
  | (b, none) => { d with buffer := b }

/-- `g`: the second one goes to the beginning of the text. -/
def go (d : Desk) : Desk :=
  let d := if d.vi.pending = .go then d.setCursor (.collapsed 0) else d
  d.send .go

/-- The keys that are neither motion, operator nor insertion, `g` aside, with nothing pending. Only
navigation keys and chords are passed through; a key that means nothing is taken and does nothing. -/
def act (d : Desk) (c : Control) : Except EditError (Desk × Verdict) := do
  match c with
  | .deleteChar => return (← d.perform .deleteChar, .handled)
  | .paste => return (← d.perform .paste, .handled)
  | .overwrite => return (d.send .overwrite, .handled)
  | .again =>
    match d.vi.lastEdit with
    | some e => return (← d.perform e, .handled)
    | none => return (d, .handled)
  | .undo => return (d.undo, .handled)
  | .pageUp => return (d.scroll .up, .handled)
  | .pageDown => return (d.scroll .down, .handled)
  | .navigation | .chord => return (d, .passThrough)
  | .go | .escape | .newline | .unmapped => return (d, .handled)

/-- The keys that are neither motion, operator nor insertion; all but `g` end what is pending. -/
def control (d : Desk) (c : Control) : Except EditError (Desk × Verdict) :=
  if c = .go then .ok (d.go, .handled) else (d.send .reset).act c

/-- A command obeyed in navigation. -/
def obey (d : Desk) (command : Command) : Except EditError (Desk × Verdict) := do
  match command with
  | .motion m select =>
    let d := d.send .reset
    return ({ d with buffer := d.buffer.move m select }, .handled)
  | .operator op => return (← d.operate op, .handled)
  | .insert place => return (← d.beginInsertion place, .handled)
  | .control c => d.control c

/-! ## Key presses -/

/-- A key in insertion: Escape leaves it, everything else is passed through. -/
def pressInserting (d : Desk) (k : KeyPress) (command : Command) : Desk × Verdict :=
  if command = .control .escape ∧ k.isChord = false then (d.send .escape, .handled)
  else (d.send .reset, .passThrough)

/-- A key in navigation: the character after `r` replaces the one under the cursor; any other key
drops a pending `r` and acts as usual. -/
def pressNavigating (d : Desk) (k : KeyPress) (command : Command) :
    Except EditError (Desk × Verdict) := do
  if d.vi.pending = .overwrite then
    let d := d.send .reset
    match k.character? with
    | some character => return (← d.perform (.overwrite character), .handled)
    | none => d.obey command
  else d.obey command

/-- One key given to the interpreter. With automatic indentation Enter is taken in every mode, even
by an interpreter that is off. -/
def press (d : Desk) (k : KeyPress) : Except EditError (Desk × Verdict) := do
  let command := Command.ofKey d.vi.qStartsLine k
  if command = .control .newline ∧ d.vi.autoIndent then
    let d := if d.vi.pending = .overwrite then d.send .reset else d
    return (← d.follow (.breakLine d.buffer.text d.buffer.cursor), .handled)
  else if !d.vi.enabled then return (d, .passThrough)
  else if command = .control .pageUp then return (d.scroll .up, .handled)
  else if command = .control .pageDown then return (d.scroll .down, .handled)
  else if d.vi.mode.isInsertion then return d.pressInserting k command
  else d.pressNavigating k command

/-! ## Plain typing behind the interpreter -/

/-- The height of a page for plain typing; where the host reports none it is twenty lines. -/
def typingPageLines (d : Desk) : Int := if d.bare then 20 else d.buffer.pageLines

/-- One key given to plain typing, and whether it was taken. -/
def typeKey (d : Desk) (k : KeyPress) : Except EditError (Desk × Bool) := do
  let (buffer, taken) ← d.buffer.press d.typingPageLines k
  return ({ d with buffer }, taken)

/-- One key given to the interpreter and, if it passes the key through, to plain typing; whether one
of them took it. -/
def offer (d : Desk) (k : KeyPress) : Except EditError (Desk × Bool) := do
  match ← d.press k with
  | (d, .handled) => return (d, true)
  | (d, .passThrough) => d.typeKey k

end Desk

end ModalEditor
