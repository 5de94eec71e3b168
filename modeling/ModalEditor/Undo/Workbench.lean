import ModalEditor.Undo.Draft
import ModalEditor.Undo.History
import ModalEditor.Undo.Watcher

/-!
# Workbenches

A workbench is a draft with an undo history: the history on its own, without the buffer that an editor
works on. Actions can be made, put together and kept under a name before they are performed, with the
history or without it. Watchers are called when the history changes.
-/

namespace ModalEditor

/-- A draft, its history, and the actions made so far. -/
structure Workbench where
  draft : Draft
  history : History Replacement
  slots : Nat := 0
  made : List (Text × Action Replacement) := []
  watchers : List (Watcher Unit) := []

/-- A range of the text and what is to stand there. -/
structure Proposal where
  start : Int
  stop : Int
  inserted : Text
deriving DecidableEq, Repr

namespace Workbench

/-- A new workbench. -/
def ofText (text : Text) (maxHistory : Int) : Workbench :=
  { draft := { text }, history := { limit := maxHistory } }

/-- Every watcher called. -/
def changed (w : Workbench) : Workbench := { w with watchers := Watcher.callAll w.watchers () }

/-! ## Making actions -/

/-- A new replacement, described by the text as it is now. -/
def make (w : Workbench) (p : Proposal) : Workbench × Action Replacement :=
  let r : Replacement := ⟨w.slots, p.start, p.stop, p.inserted⟩
  ({ w with slots := w.slots + 1 }, r.toAction w.draft.text)

/-- New replacements, all described by the text as it is now. -/
def makeAll (w : Workbench) : List Proposal → Workbench × List (Action Replacement)
  | [] => (w, [])
  | p :: rest =>
    let (w, a) := w.make p
    let (w, as) := w.makeAll rest
    (w, a :: as)

/-- A new batch of new replacements. -/
def makeBatch (w : Workbench) (ps : List Proposal) (description : Text) :
    Workbench × Action Replacement :=
  let (w, parts) := w.makeAll ps
  (w, .batch description parts)

/-- The action kept under a name, if there is one. -/
def find? (w : Workbench) (name : Text) : Option (Action Replacement) := w.made.lookup name

/-- A batch of actions made before. -/
def wrap (w : Workbench) (names : List Text) (description : Text) : Action Replacement :=
  .batch description (names.filterMap w.find?)

/-- An action kept under a name. -/
def keep (w : Workbench) (name : Text) (a : Action Replacement) : Workbench :=
  { w with made := (name, a) :: w.made }

/-! ## Performing -/

/-- An action performed without the history. -/
def run (w : Workbench) (a : Action Replacement) : Workbench :=
  { w with draft := a.perform Replacement.perform w.draft }

/-- An action undone without the history. -/
def revert (w : Workbench) (a : Action Replacement) : Workbench :=
  { w with draft := a.revert Replacement.revert w.draft }

/-- An action performed and recorded. -/
def execute (w : Workbench) (a : Action Replacement) : Workbench :=
  { w.run a with history := w.history.record a }.changed

/-- A group opened. -/
def beginGroup (w : Workbench) (description : Text) : Workbench :=
  { w with history := w.history.beginGroup description }

/-- The innermost group closed, if one is open. -/
def endGroup? (w : Workbench) : Option Workbench :=
  w.history.endGroup?.map fun (history, pushed) =>
    let w := { w with history }
    if pushed then w.changed else w

/-- The last action undone: the action, if there was one. -/
def undo (w : Workbench) : Workbench × Option (Action Replacement) :=
  match w.history.undo? with
  | none => (w, none)
  | some (a, history) => ({ w.revert a with history }.changed, some a)

/-- The action undone last performed again: the action, if there was one. -/
def redo (w : Workbench) : Workbench × Option (Action Replacement) :=
  match w.history.redo? with
  | none => (w, none)
  | some (a, history) => ({ w.run a with history }.changed, some a)

/-- Nothing to undo and nothing to redo. -/
def clear (w : Workbench) : Workbench := { w with history := w.history.clear }.changed

/-- The text replaced, past the history. -/
def setText (w : Workbench) (t : Text) : Workbench := { w with draft := { w.draft with text := t } }

end Workbench

end ModalEditor
