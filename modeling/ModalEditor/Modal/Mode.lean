import ModalEditor.Key.Command

/-!
# Modes

The editor is in insertion or in navigation, and in navigation it may wait for the second key of a
command. A pending operator, a pending `g` and a pending `r` are values of one type, so no two of
them are ever pending together. `Mode.step` says which mode an event leads to; an event that does
not concern the current mode leaves it as it is.
-/

namespace ModalEditor

/-- The second key navigation waits for. -/
inductive Pending where
  | idle
  | go
  | overwrite
  | operator (op : Operator)
deriving DecidableEq, Repr

/-- The same is waited for: operators are compared, all else by its kind. -/
def Pending.same : Pending → Pending → Bool
  | .operator op, .operator op' => op = op'
  | .idle, .idle | .go, .go | .overwrite, .overwrite => true
  | _, _ => false

theorem Pending.same_iff {p q : Pending} : p.same q = true ↔ p = q := by
  cases p <;> cases q <;> simp [same]

/-- Insertion, or navigation with what it waits for. -/
inductive Mode where
  | insertion
  | navigation (pending : Pending)
deriving DecidableEq, Repr

/-- What can happen to the mode. -/
inductive ModeEvent where
  | operator (op : Operator)
  | go
  | overwrite
  | insert
  | escape
  | navigate
  | reset
deriving DecidableEq, Repr

namespace Mode

/-- The mode of a new editor. -/
def initial : Mode := .navigation .idle

/-- What is typed is inserted. -/
def isInsertion : Mode → Bool
  | .insertion => true
  | .navigation _ => false

/-- The second key waited for. -/
def pending : Mode → Pending
  | .insertion => .idle
  | .navigation p => p

/-- What waits after the first or second key of an operator: the same operator twice is complete,
another one takes its place, and a pending `r` is not disturbed. -/
def Pending.afterOperator (op : Operator) : Pending → Pending
  | .operator op' => if op = op' then .idle else .operator op
  | .overwrite => .overwrite
  | .idle | .go => .operator op

/-- What waits after `g`: the second `g` is complete, and a pending `r` is not disturbed. -/
def Pending.afterGo : Pending → Pending
  | .go => .idle
  | .overwrite => .overwrite
  | .idle | .operator _ => .go

/-- The mode after an event. -/
def step : Mode → ModeEvent → Mode
  | .insertion, .escape | .insertion, .navigate => .navigation .idle
  | .insertion, _ => .insertion
  | .navigation p, .operator op => .navigation (Pending.afterOperator op p)
  | .navigation p, .go => .navigation (Pending.afterGo p)
  | .navigation _, .overwrite => .navigation .overwrite
  | .navigation _, .insert => .insertion
  | .navigation _, .escape | .navigation _, .navigate | .navigation _, .reset => .navigation .idle

/-! ## Laws -/

/-- A reset never changes between insertion and navigation, and leaves nothing pending. -/
theorem step_reset (m : Mode) :
    (m.step .reset).isInsertion = m.isInsertion ∧ (m.step .reset).pending = .idle := by
  cases m <;> exact ⟨rfl, rfl⟩

end Mode

end ModalEditor
