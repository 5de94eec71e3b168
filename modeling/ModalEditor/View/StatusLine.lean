import ModalEditor.Modal.Interpreter
import ModalEditor.Number.Decimal
import ModalEditor.View.Element

/-!
# The status line

On the left the mode, the file and a message; on the right the key waited for, what can be undone and
redone, and the cursor's place.
-/

namespace ModalEditor

/-- What the status line tells. Line and column count from zero. -/
structure Status where
  insertion : Bool
  enabled : Bool
  pending : Pending
  fileName : Text
  modified : Bool
  canUndo : Bool
  canRedo : Bool
  line : Int
  column : Int
  message : Option Text
deriving DecidableEq, Repr

namespace Status

/-- What is typed is inserted: in insertion, and always when the interpreter is off. -/
def inserts (s : Status) : Bool := !s.enabled || s.insertion

/-- The mode's badge. -/
def badge (s : Status) : Text :=
  if !s.enabled then Text.ofString " EDIT "
  else if s.insertion then Text.ofString " INSERT "
  else Text.ofString " NORMAL "

/-- The key that is waited for, as it was typed. -/
def pendingLabel : Pending → Text
  | .idle => []
  | .go => Text.ofString "g"
  | .overwrite => Text.ofString "r"
  | .operator .delete => Text.ofString "d"
  | .operator .yank => Text.ofString "y"

/-- The keys that would undo and redo. -/
def historyLabel (s : Status) : Text :=
  Text.ofString (if s.canUndo then "u" else "-") ++ Text.ofString "/" ++
    Text.ofString (if s.canRedo then "^r" else "-")

/-- The cursor's place, counted from one. -/
def place (s : Status) : Text :=
  (Decimal.ofInt (s.line + 1)).toText ++ Text.ofString ":" ++
    (Decimal.ofInt (s.column + 1)).toText

/-- An element that is there only on a condition. -/
def onlyIf (b : Bool) (e : Element) : List Element := if b then [e] else []

/-- The status line drawn. -/
def render (s : Status) : Element :=
  let message := s.message.getD []
  .box [("justifyContent", .word "space-between"), ("paddingX", .number 1)]
    [.box [("gap", .number 2)]
      ([.label [("bold", .flag true), ("color", .word (if s.inserts then "green" else "cyan")),
            ("inverse", .flag true)] s.badge,
          .box [("gap", .number 1)]
            (.label [("bold", .flag true)] s.fileName ::
              onlyIf s.modified (.label [("color", .word "yellow")] (Text.ofString "[+]")))] ++
        onlyIf (message ≠ []) (.label [("color", .word "magenta")] message)),
      .box [("flexGrow", .number 1)] [],
      .box [("gap", .number 2)]
        (onlyIf (s.pending ≠ .idle) (.label [("color", .word "yellow")] (pendingLabel s.pending)) ++
          onlyIf (s.canUndo || s.canRedo) (.label [("dimColor", .flag true)] s.historyLabel) ++
          [.label [("dimColor", .flag true)] s.place])]

end Status

end ModalEditor
