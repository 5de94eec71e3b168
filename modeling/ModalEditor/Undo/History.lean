import ModalEditor.Undo.Action

/-!
# Undo history

A history keeps the actions that can be undone and those that can be redone, the next one first. A
new action forgets what could be redone, and the oldest action when there are more than `limit`.
Between `beginGroup` and the matching `endGroup` actions are collected and become one batch; groups
nest, and only the outermost one ends the batch.
-/

namespace ModalEditor

/-- A group that is still open: its description, how many groups are open inside it, and the actions
collected so far, first to last. -/
structure OpenGroup (ε : Type) where
  description : Text
  inner : Nat := 0
  actions : List (Action ε) := []

/-- The actions done and undone. -/
structure History (ε : Type) where
  past : List (Action ε) := []
  future : List (Action ε) := []
  group : Option (OpenGroup ε) := none
  limit : Int := 100

namespace History

variable {ε : Type}

/-- There is something to undo. -/
def canUndo (h : History ε) : Bool := !h.past.isEmpty

/-- There is something to redo. -/
def canRedo (h : History ε) : Bool := !h.future.isEmpty

/-- What would be undone. -/
def undoDescription? (h : History ε) : Option Text := h.past.head?.map Action.description

/-- What would be redone. -/
def redoDescription? (h : History ε) : Option Text := h.future.head?.map Action.description

/-- How many groups are open. -/
def depth (h : History ε) : Nat := h.group.elim 0 fun g => g.inner + 1

/-- The actions without the oldest one, if they are too many. -/
def trim (limit : Int) (actions : List (Action ε)) : List (Action ε) :=
  if limit < actions.length then actions.dropLast else actions

/-- A new action that can be undone. -/
def push (h : History ε) (a : Action ε) : History ε :=
  { h with past := trim h.limit (a :: h.past), future := [] }

/-- An action done: collected by the open group, if there is one. -/
def record (h : History ε) (a : Action ε) : History ε :=
  match h.group with
  | some g => { h with group := some { g with actions := g.actions ++ [a] } }
  | none => h.push a

/-- A group opened. The outermost one gives the description. -/
def beginGroup (h : History ε) (description : Text) : History ε :=
  match h.group with
  | some g => { h with group := some { g with inner := g.inner + 1 } }
  | none => { h with group := some { description } }

/-- The innermost group closed, and whether that made a new action; nothing if no group is open. -/
def endGroup? (h : History ε) : Option (History ε × Bool) :=
  match h.group with
  | none => none
  | some g =>
    if g.inner = 0 then
      let closed := { h with group := none }
      if g.actions.isEmpty then some (closed, false)
      else some (closed.push (.batch g.description g.actions), true)
    else some ({ h with group := some { g with inner := g.inner - 1 } }, false)

/-- The action to undo, and the history once it is undone. -/
def undo? (h : History ε) : Option (Action ε × History ε) :=
  match h.past with
  | [] => none
  | a :: past => some (a, { h with past, future := a :: h.future })

/-- The action to redo, and the history once it is redone. -/
def redo? (h : History ε) : Option (Action ε × History ε) :=
  match h.future with
  | [] => none
  | a :: future => some (a, { h with past := a :: h.past, future })

/-- Nothing to undo and nothing to redo; an open group stays open. -/
def clear (h : History ε) : History ε := { h with past := [], future := [] }

end History

end ModalEditor
