import ModalEditor.Text.Basic

/-!
# Watchers

Whoever watches a thing is called at each of its changes. A watcher remembers how often it was called
and what it saw the last time; one that has left is not called any more, and its count stands until
it comes back.

A watcher is a name, and each of its joinings brings a listener function of its own: one that joins
again without having left is called twice, and leaving takes away only the last function. The functions
themselves are kept as a set, in which one that is added twice stands once; that is a single joining
here.
-/

namespace ModalEditor

/-- Someone who is told of changes: how often so far, and what the last change left to be seen. -/
structure Watcher (ν : Type) where
  name : Text
  calls : Nat := 0
  seen : Option ν := none
  /-- The last joining stands. -/
  active : Bool := true
  /-- How many joinings before the last one stand. -/
  earlier : Nat := 0
deriving DecidableEq, Repr

namespace Watcher

variable {ν : Type}

/-- How many joinings stand: so often the watcher is called at each change. -/
def standing (w : Watcher ν) : Nat := w.earlier + if w.active then 1 else 0

/-- The watcher called, with what is to be seen now. -/
def call (view : ν) (w : Watcher ν) : Watcher ν :=
  if w.standing = 0 then w else { w with calls := w.calls + w.standing, seen := some view }

/-- Everyone called. -/
def callAll (ws : List (Watcher ν)) (view : ν) : List (Watcher ν) := ws.map (call view)

/-- A watcher joining with a listener function of its own: one who has been there goes on counting, a new
one has not been called yet. -/
def join (ws : List (Watcher ν)) (name : Text) : List (Watcher ν) :=
  if ws.any fun w => w.name = name then
    ws.map fun w => if w.name = name then { w with active := true, earlier := w.standing } else w
  else ws ++ [{ name := name }]

/-- The watchers, one of whom has left. -/
def leave (ws : List (Watcher ν)) (name : Text) : List (Watcher ν) :=
  ws.map fun w => if w.name = name then { w with active := false } else w

end Watcher

end ModalEditor
