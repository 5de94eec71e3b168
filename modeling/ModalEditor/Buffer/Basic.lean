import ModalEditor.Cursor
import ModalEditor.Number.Decimal
import ModalEditor.Undo.History
import ModalEditor.Undo.Splice
import ModalEditor.Undo.Watcher

/-!
# Buffers

A buffer is a text with a cursor and an undo history. Its version counts its changes: every change of
the text, the cursor or the history raises it and calls every watcher, once for each step by which the
change happens. An edit replaces a range of the text; edits between `beginGroup` and `endGroup` are
undone together.

A question about lines is answered by an index of the lines, which is made at the first question and
kept until the text is set.
-/

namespace ModalEditor

/-- Why a buffer refuses an operation. -/
inductive EditError where
  /-- A range that is not `0 ≤ start ≤ stop ≤ length` in whole numbers. -/
  | invalidRange (start stop : Decimal) (length : Nat)
  /-- The end of a group when none is open. -/
  | noOpenGroup
deriving DecidableEq, Repr

/-- The wording of an error. -/
def EditError.message : EditError → Text
  | .invalidRange start stop length =>
    Text.ofString "Invalid range [" ++ start.toText ++ Text.ofString ", " ++ stop.toText ++
      Text.ofString ") for document of length " ++ Text.ofNat length
  | .noOpenGroup => Text.ofString "endBatch() called without a matching beginBatch()"

/-- What can be seen of a buffer from outside. -/
structure Snapshot where
  text : Text
  cursor : Cursor
  version : Nat
  undoDescription : Option Text
  redoDescription : Option Text
  canUndo : Bool
  canRedo : Bool
  modified : Bool
deriving DecidableEq, Repr

/-- A text with a cursor, an undo history and a change counter. -/
structure Buffer where
  text : Text
  savedText : Text
  cursor : Cursor := ⟨0, 0⟩
  version : Nat := 0
  pageLines : Int := 20
  history : History Splice := {}
  watchers : List (Watcher Snapshot) := []
  /-- Where the lines begin, once this was asked for; not known any more when the text is set. -/
  starts : Option (List Nat) := none

namespace Buffer

/-- A new buffer with a text, a page height and an undo depth. -/
def ofText (text : Text) (pageLines : Int) (maxHistory : Int) : Buffer :=
  { text, savedText := text, pageLines, history := { limit := maxHistory } }

/-- The text differs from the one last loaded or saved. -/
def isModified (b : Buffer) : Bool := b.text != b.savedText

/-- What can be seen of the buffer now. -/
def snapshot (b : Buffer) : Snapshot where
  text := b.text
  cursor := b.cursor
  version := b.version
  undoDescription := b.history.undoDescription?
  redoDescription := b.history.redoDescription?
  canUndo := b.history.canUndo
  canRedo := b.history.canRedo
  modified := b.isModified

/-! ## Watchers -/

/-- One change counted, and every watcher called. -/
def changed (b : Buffer) : Buffer :=
  let b := { b with version := b.version + 1 }
  { b with watchers := Watcher.callAll b.watchers b.snapshot }

/-- A watcher who joins. -/
def subscribe (b : Buffer) (name : Text) : Buffer :=
  { b with watchers := Watcher.join b.watchers name }

/-- A watcher who is no longer called. -/
def unsubscribe (b : Buffer) (name : Text) : Buffer :=
  { b with watchers := Watcher.leave b.watchers name }

/-- The watcher of a name. -/
def watcher? (b : Buffer) (name : Text) : Option (Watcher Snapshot) :=
  b.watchers.find? fun w => w.name = name

/-! ## Text and cursor -/

/-- The text replaced, with the cursor kept inside it. -/
def setText (b : Buffer) (t : Text) : Buffer :=
  { b with text := t, starts := none, cursor := b.cursor.clampTo t }.changed

/-- The cursor moved to the nearest place inside the text; it is a change only if the cursor moves. -/
def setCursor (b : Buffer) (c : Cursor) : Buffer :=
  if c.clampTo b.text = b.cursor then b else { b with cursor := c.clampTo b.text }.changed

/-! ## Lines -/

/-- The index of the lines: the one that is kept, or a new one. -/
def index (b : Buffer) : List Nat := b.starts.getD b.text.lineStarts

/-- The index kept for the next question. -/
def keepIndex (b : Buffer) : Buffer := { b with starts := some b.index }

/-- The number of lines. -/
def lineCount (b : Buffer) : Buffer × Nat := (b.keepIndex, b.index.length)

/-- The line that holds an offset. -/
def lineAt (b : Buffer) (o : Int) : Buffer × Nat := (b.keepIndex, b.text.lineAtBy b.index o)

/-- Where a line begins. -/
def lineStart (b : Buffer) (line : Int) : Buffer × Int :=
  (b.keepIndex, Text.lineStartBy b.index line)

/-- A line without its separator. -/
def lineText (b : Buffer) (line : Int) : Buffer × Text :=
  (b.keepIndex, b.text.lineTextBy b.index line)

/-! ## Edits -/

/-- A splice of the text, recorded in the history. -/
def splice (b : Buffer) (s : Splice) : Buffer :=
  let b := b.setText (s.apply b.text)
  { b with history := b.history.record (.edit (describeChange s.removed s.inserted) s.start s) }.changed

/-- The range from `start` to `stop` replaced. Replacing nothing by nothing is no edit. -/
def replaceDecimal (b : Buffer) (start stop : Decimal) (inserted : Text) : Except EditError Buffer :=
  match start.toInt?, stop.toInt? with
  | some i, some j =>
    if i < 0 ∨ j < i ∨ b.text.length < j then .error (.invalidRange start stop b.text.length)
    else if i = j ∧ inserted = [] then .ok b
    else .ok (b.splice (.of b.text i.toNat j.toNat inserted))
  | _, _ => .error (.invalidRange start stop b.text.length)

/-- The range between two whole offsets replaced. -/
def replace (b : Buffer) (start stop : Int) (inserted : Text) : Except EditError Buffer :=
  b.replaceDecimal (.ofInt start) (.ofInt stop) inserted

/-- A group of edits opened. -/
def beginGroup (b : Buffer) (description : Text) : Buffer :=
  { b with history := b.history.beginGroup description }

/-- The innermost group of edits closed; it is a change if the group becomes an undo step. -/
def endGroup (b : Buffer) : Except EditError Buffer :=
  match b.history.endGroup? with
  | none => .error .noOpenGroup
  | some (history, pushed) =>
    let b := { b with history }
    .ok (if pushed then b.changed else b)

/-! ## Undo and redo -/

/-- The last step undone, and where to put the cursor; nothing if there is no step. -/
def undo (b : Buffer) : Buffer × Option Int :=
  match b.history.undo? with
  | none => (b, none)
  | some (action, history) =>
    let b := action.revert (fun s b => b.setText (s.undo b.text)) b
    let b := { b with history }.changed
    (b, some (b.text.clamp (action.position?.getD 0)))

/-- The step undone last done again, and where to put the cursor; nothing if there is no step. -/
def redo (b : Buffer) : Buffer × Option Int :=
  match b.history.redo? with
  | none => (b, none)
  | some (action, history) =>
    let b := action.perform (fun s b => b.setText (s.apply b.text)) b
    let b := { b with history }.changed
    (b, some (b.text.clamp (action.position?.getD 0)))

/-! ## Loading and saving -/

/-- A new text without history, as from a file. -/
def load (b : Buffer) (t : Text) : Buffer :=
  let b := { b with history := b.history.clear }.changed
  { b with savedText := t, cursor := ⟨0, 0⟩ }.setText t

/-- The text taken for saved. -/
def markSaved (b : Buffer) : Buffer := { b with savedText := b.text }.changed

/-- The page height set to a whole number of lines, at least one. -/
def setPageLines (b : Buffer) (lines : Decimal) : Buffer := { b with pageLines := max 1 lines.floor }

/-! ## Laws -/

/-- Between whole offsets exactly the ranges inside the text can be replaced. -/
theorem replace_eq_error_iff {b : Buffer} {start stop : Int} {inserted : Text} {e : EditError} :
    b.replace start stop inserted = .error e ↔
      ¬ (0 ≤ start ∧ start ≤ stop ∧ stop ≤ b.text.length) ∧
        e = .invalidRange (.ofInt start) (.ofInt stop) b.text.length := by
  simp only [replace, replaceDecimal, Decimal.toInt?_ofInt]
  split
  · constructor
    · intro h
      cases h
      exact ⟨by omega, rfl⟩
    · rintro ⟨-, rfl⟩
      rfl
  · split
    · exact iff_of_false nofun fun h => h.1 (by omega)
    · exact iff_of_false nofun fun h => h.1 (by omega)

theorem setCursor_cursor (b : Buffer) (c : Cursor) : (b.setCursor c).cursor = c.clampTo b.text := by
  unfold setCursor
  split
  · exact Eq.symm ‹_›
  · rfl

theorem setCursor_text (b : Buffer) (c : Cursor) : (b.setCursor c).text = b.text := by
  unfold setCursor
  split <;> rfl

theorem setText_text (b : Buffer) (t : Text) : (b.setText t).text = t := rfl

end Buffer

end ModalEditor
