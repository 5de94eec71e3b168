import ModalEditor.Buffer.Plan
import ModalEditor.Modal.Mode

/-!
# The interpreter's state and its notices

The interpreter knows the mode, its options and the last edit. Whoever subscribes is told when the
mode flips, when the cursor style changes and when the interpreter is turned on or off. Notices are
delivered to the subscribers in the order in which they subscribed; `Interpreter.log` is the record
of what was delivered, oldest first.

Besides subscribers there are those who follow the mode and are called at each of its events. A call
says nothing; who is called looks for himself. `Interpreter.calls` is the record of what there was to
see at each call.

A stopped interpreter has no subscribers and its mode does not move any more.
-/

namespace ModalEditor

/-- How the cursor is drawn. -/
inductive CursorStyle where
  | block
  | bar
deriving DecidableEq, Repr

/-- What subscribers are told. -/
inductive Notice where
  | mode (isInsertion : Bool)
  | style (style : CursorStyle)
  | enabled (enabled : Bool)
deriving DecidableEq, Repr

/-- A subscriber. One that listens `once` takes its leave at a notice: at its first one, or after as
many more as it has the patience for. -/
structure Subscriber where
  name : Text
  once : Bool := false
  patience : Nat := 0
deriving DecidableEq, Repr

/-- The subscriber after a notice, unless it has taken its leave. -/
def Subscriber.afterNotice? (s : Subscriber) : Option Subscriber :=
  if s.once then
    match s.patience with
    | 0 => none
    | n + 1 => some { s with patience := n }
  else some s

/-- A call to look again, with what there is to see. -/
inductive Call where
  /-- To those who follow the mode, after an event. -/
  | event (mode : Mode)
  /-- To a subscriber who gets a notice. -/
  | notice (subscriber : Subscriber) (style : CursorStyle) (enabled : Bool)
deriving DecidableEq, Repr

/-- An edit that can be repeated. -/
inductive Repeatable where
  /-- A character, or the selection. -/
  | deleteChar
  /-- The selection, or a line. -/
  | delete
  | paste
  | overwrite (character : Text)
deriving DecidableEq, Repr

/-- Mode, options, subscribers and the last edit. -/
structure Interpreter where
  enabled : Bool := true
  blockCursor : Bool := true
  autoIndent : Bool := true
  qStartsLine : Bool := false
  /-- The page height, where the host does not report one. -/
  pageLines : Int := 20
  mode : Mode := .initial
  lastEdit : Option Repeatable := none
  running : Bool := true
  /-- The mode of the last mode notice. -/
  saidInsertion : Bool := false
  /-- The style of the last style notice, or the first style. -/
  saidStyle : CursorStyle
  subscribers : List Subscriber := []
  log : List (Subscriber × Notice) := []
  calls : List Call := []

namespace Interpreter

/-- The style of a mode: a block in navigation, where the interpreter is on and may draw one. -/
def styleOf (enabled blockCursor insertion : Bool) : CursorStyle :=
  if enabled && blockCursor && !insertion then .block else .bar

/-- A new interpreter. -/
def new (enabled blockCursor autoIndent qStartsLine : Bool) (pageLines : Int) : Interpreter :=
  { enabled, blockCursor, autoIndent, qStartsLine, pageLines
    saidStyle := styleOf enabled blockCursor false }

/-- How the cursor is to be drawn now. -/
def style (v : Interpreter) : CursorStyle := styleOf v.enabled v.blockCursor v.mode.isInsertion

/-- The second key waited for. -/
def pending (v : Interpreter) : Pending := v.mode.pending

/-! ## Notices -/

/-- A new subscriber. -/
def subscribe (v : Interpreter) (s : Subscriber) : Interpreter :=
  { v with subscribers := v.subscribers ++ [s] }

/-- A subscriber who takes its leave. -/
def unsubscribe (v : Interpreter) (s : Subscriber) : Interpreter :=
  { v with subscribers := v.subscribers.erase s }

/-- A notice delivered to everyone. -/
def tell (v : Interpreter) (n : Notice) : Interpreter :=
  { v with
    log := v.log ++ v.subscribers.map (·, n)
    calls := v.calls ++ v.subscribers.map (.notice · v.style v.enabled)
    subscribers := v.subscribers.filterMap Subscriber.afterNotice? }

/-- The style told, if it differs from the one told last. -/
def tellStyle (v : Interpreter) : Interpreter :=
  if v.style = v.saidStyle then v else { v with saidStyle := v.style }.tell (.style v.style)

/-- The mode told, if it has flipped. -/
def tellMode (v : Interpreter) : Interpreter :=
  if v.mode.isInsertion = v.saidInsertion then v
  else ({ v with saidInsertion := v.mode.isInsertion }.tell (.mode v.mode.isInsertion)).tellStyle

/-- Those who follow the mode called. -/
def callFollowers (v : Interpreter) : Interpreter :=
  { v with calls := v.calls ++ [.event v.mode] }

/-- An event sent to the mode. -/
def send (v : Interpreter) (e : ModeEvent) : Interpreter :=
  if v.running then { v with mode := v.mode.step e }.tellMode.callFollowers else v

/-! ## Options -/

/-- The interpreter turned on or off; on or off, it goes back to navigation. -/
def setEnabled (v : Interpreter) (enabled : Bool) : Interpreter :=
  if v.enabled = enabled then v
  else
    let v := ({ v with enabled }.send .navigate).tell (.enabled enabled)
    let v := if enabled then v.tell (.mode false) else v
    v.tellStyle

/-- The block cursor allowed or not. -/
def setBlockCursor (v : Interpreter) (blockCursor : Bool) : Interpreter :=
  { v with blockCursor }.tellStyle

/-- Automatic indentation turned on or off. -/
def setAutoIndent (v : Interpreter) (autoIndent : Bool) : Interpreter := { v with autoIndent }

/-- Back to navigation with nothing pending. -/
def reset (v : Interpreter) : Interpreter := v.send .navigate

/-- No more events, and no more subscribers. -/
def stop (v : Interpreter) : Interpreter := { v with running := false, subscribers := [] }

end Interpreter

end ModalEditor
