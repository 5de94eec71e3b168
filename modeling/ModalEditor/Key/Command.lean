import ModalEditor.Key.Basic
import ModalEditor.Motion

/-!
# Commands

What a key press asks for. The answer of `Command.ofKey` does not depend on the mode: what a command
means in the current mode is the interpreter's matter.
-/

namespace ModalEditor

/-- Commands that wait for a second key. -/
inductive Operator where
  | delete
  | yank
deriving DecidableEq, Repr

/-- Where insertion begins. -/
inductive InsertPlace where
  | before
  | after
  | lineBelow
  | lineAbove
deriving DecidableEq, Repr

/-- The commands that are neither motion, operator nor insertion. -/
inductive Control where
  /-- `g`, which waits for a second `g`. -/
  | go
  | deleteChar
  | paste
  | undo
  /-- `r`, which waits for the replacement character. -/
  | overwrite
  /-- `.`, which repeats the last edit. -/
  | again
  | escape
  | newline
  | pageUp
  | pageDown
  /-- Arrows, Home, End and the page keys. -/
  | navigation
  /-- A key with Control, Alt or Meta. -/
  | chord
  | unmapped
deriving DecidableEq, Repr

/-- What a key press asks for. -/
inductive Command where
  | motion (m : Motion) (select : Bool)
  | operator (op : Operator)
  | insert (place : InsertPlace)
  | control (c : Control)
deriving DecidableEq, Repr

namespace Command

/-- The command of a plain letter or sign, with or without Shift. With `qStartsLine`, `q` is one more
key for the beginning of the line. -/
def ofLetter (qStartsLine : Bool) (letter : Char) (shift : Bool) : Command :=
  match letter, shift with
  | 'h', _ => .motion .left shift
  | 'l', _ => .motion .right shift
  | 'j', false => .motion .down false
  | 'k', false => .motion .up false
  | 'n', true => .motion .down true
  | 'u', true => .motion .up true
  | '0', _ => .motion .lineStart false
  | '$', _ => .motion .lineEnd false
  | '^', _ => .motion .firstNonBlank false
  | 'q', false => if qStartsLine then .motion .lineStart false else .control .unmapped
  | 'w', false => .motion .wordRight false
  | 'b', false => .motion .wordLeft false
  | 'g', true => .motion .documentEnd false
  | 'g', false => .control .go
  | 'd', false => .operator .delete
  | 'y', false => .operator .yank
  | 'i', false => .insert .before
  | 'a', false => .insert .after
  | 'o', false => .insert .lineBelow
  | 'o', true => .insert .lineAbove
  | 'x', false => .control .deleteChar
  | 'p', false => .control .paste
  | 'u', false => .control .undo
  | 'r', false => .control .overwrite
  | '.', _ => .control .again
  | _, _ => .control .unmapped

/-- The page chord of a key press: Control and Shift with `j` or `k`. -/
def pageChord? (k : KeyPress) : Option Control :=
  if k.hasCtrl && k.base.2 then
    if k.base.1 = Text.ofString "j" then some .pageDown
    else if k.base.1 = Text.ofString "k" then some .pageUp
    else none
  else none

/-- The command of a key press. Enter comes before all else, then the page chord, Escape, the chords
that are left to the host, the navigation keys, and last the letters. -/
def ofKey (qStartsLine : Bool) (k : KeyPress) : Command :=
  if k.named? = some .enter then .control .newline
  else match pageChord? k with
  | some page => .control page
  | none =>
    if k.named? = some .escape then .control .escape
    else if k.isChord then .control .chord
    else if k.named?.any NamedKey.isNavigation then .control .navigation
    else match k.base with
      | ([u], shift) => ofLetter qStartsLine (Char.ofNat u.toNat) shift
      | _ => .control .unmapped

end Command

end ModalEditor
