import ModalEditor.Undo.Action
import ModalEditor.Undo.Splice

/-!
# Drafts

A draft is a plain text under replacements that are made first and performed later, perhaps more than
once. A replacement removes what stands in its range when it is first performed; the draft keeps that
text under the replacement's slot, and undoing puts it back. The bounds of a replacement follow
`Text.slice`: a negative bound counts from the end.
-/

namespace ModalEditor

/-- The text from `start` to `stop` gives way to `inserted`; `slot` tells replacements apart. -/
structure Replacement where
  slot : Nat
  start : Int
  stop : Int
  inserted : Text
deriving DecidableEq, Repr

/-- A text, and what the replacements performed so far removed. -/
structure Draft where
  text : Text
  removed : Nat → Option Text := fun _ => none

namespace Draft

/-- What a replacement removed, kept under its slot. -/
def keep (d : Draft) (slot : Nat) (t : Text) : Draft :=
  { d with removed := fun s => if s = slot then some t else d.removed s }

end Draft

namespace Replacement

/-- The action that performs the replacement, described by the text it is made for. -/
def toAction (r : Replacement) (t : Text) : Action Replacement :=
  .edit (describeChange (t.slice r.start r.stop) r.inserted) r.start r

/-- The text after the replacement. -/
def result (r : Replacement) (t : Text) : Text := t.before r.start ++ r.inserted ++ t.following r.stop

/-- The replacement performed; what it removes is kept the first time. -/
def perform (r : Replacement) (d : Draft) : Draft :=
  let d := if (d.removed r.slot).isNone then d.keep r.slot (d.text.slice r.start r.stop) else d
  { d with text := r.result d.text }

/-- The replacement undone; one that was never performed changes nothing. -/
def revert (r : Replacement) (d : Draft) : Draft :=
  match d.removed r.slot with
  | none => d
  | some t =>
    { d with text := d.text.before r.start ++ t ++ d.text.following (r.start + r.inserted.length) }

end Replacement

end ModalEditor
