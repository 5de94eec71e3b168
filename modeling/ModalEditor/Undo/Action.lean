import ModalEditor.Text.Basic

/-!
# Reversible actions

An action is one edit, or a batch of actions performed in order and reverted in reverse order. What
an edit does to the state it works on is given by two functions, `act` and `undo`.
-/

namespace ModalEditor

/-- One edit with its description and the offset it starts at, or a batch of actions. -/
inductive Action (ε : Type) where
  | edit (description : Text) (position : Int) (edit : ε)
  | batch (description : Text) (parts : List (Action ε))

namespace Action

variable {ε σ : Type}

/-- What the action is called in undo and redo. -/
def description : Action ε → Text
  | .edit d _ _ => d
  | .batch d _ => d

/-- Where the cursor goes when the action is undone or redone: where its first part starts. -/
def position? : Action ε → Option Int
  | .edit _ p _ => some p
  | .batch _ [] => none
  | .batch _ (a :: _) => a.position?

mutual

/-- The state after the action. -/
def perform (act : ε → σ → σ) : Action ε → σ → σ
  | .edit _ _ e, s => act e s
  | .batch _ parts, s => performAll act parts s

/-- The state after the actions, first to last. -/
def performAll (act : ε → σ → σ) : List (Action ε) → σ → σ
  | [], s => s
  | a :: rest, s => performAll act rest (perform act a s)

end

mutual

/-- The state before the action. -/
def revert (undo : ε → σ → σ) : Action ε → σ → σ
  | .edit _ _ e, s => undo e s
  | .batch _ parts, s => revertAll undo parts s

/-- The state before the actions, last to first. -/
def revertAll (undo : ε → σ → σ) : List (Action ε) → σ → σ
  | [], s => s
  | a :: rest, s => revert undo a (revertAll undo rest s)

end

theorem performAll_append (act : ε → σ → σ) (as bs : List (Action ε)) (s : σ) :
    performAll act (as ++ bs) s = performAll act bs (performAll act as s) := by
  induction as generalizing s with
  | nil => rfl
  | cons a as ih => simp [performAll, ih]

theorem revertAll_append (undo : ε → σ → σ) (as bs : List (Action ε)) (s : σ) :
    revertAll undo (as ++ bs) s = revertAll undo as (revertAll undo bs s) := by
  induction as with
  | nil => rfl
  | cons a as ih => simp [revertAll, ih]

end Action

end ModalEditor
