import ModalEditor.Modal.Desk

/-!
# Bindings

A binding ties an interpreter and a buffer to what is shown of them. It follows the mode, subscribes
to the interpreter and watches the buffer, and it looks again only when one of them has called, and
only if what there is to see at the call differs, in that respect, from what is shown. Keys go to the
interpreter, then to plain typing, and what both decline goes to the host.
-/

namespace ModalEditor

/-- What is shown of an interpreter and a buffer. -/
structure Display where
  insertion : Bool
  pending : Pending
  style : CursorStyle
  enabled : Bool
  version : Nat
deriving DecidableEq, Repr

/-- What there is to show now. -/
def Desk.display (d : Desk) : Display where
  insertion := d.vi.mode.isInsertion
  pending := d.vi.pending
  style := d.vi.style
  enabled := d.vi.enabled
  version := d.buffer.version

/-- An interpreter and a buffer, and what was last shown of them. -/
structure Binding where
  desk : Desk
  shown : Display

namespace Binding

/-- The subscriber by which the binding hears the interpreter. -/
def subscriber : Subscriber := { name := Text.ofString "view" }

/-- The name under which the binding watches the buffer. -/
def watcher : Text := Text.ofString "view"

/-- A binding that has looked once. -/
def mount (d : Desk) : Binding :=
  let d := { d with vi := d.vi.subscribe subscriber, buffer := d.buffer.subscribe watcher }
  { desk := d, shown := d.display }

/-- At a call, there is something else to see than what is shown. -/
def outdates (shown : Display) : Call → Bool
  | .event mode => mode.isInsertion != shown.insertion || !mode.pending.same shown.pending
  | .notice s style enabled =>
    s = subscriber && (style != shown.style || enabled != shown.enabled)

/-- The buffer has called since it was `old`, and at the last call its version was another one than
what is shown. -/
def isOutdatedBy (shown : Display) (old new : Buffer) : Bool :=
  (new.watcher? watcher).map Watcher.calls != (old.watcher? watcher).map Watcher.calls &&
    ((new.watcher? watcher).bind Watcher.seen).map Snapshot.version != some shown.version

/-- A call since the binding last looked makes what it shows out of date. -/
def isStale (b : Binding) (d : Desk) : Bool :=
  (d.vi.calls.drop b.desk.vi.calls.length).any (outdates b.shown) ||
    isOutdatedBy b.shown b.desk.buffer d.buffer

/-- The binding once its interpreter and buffer have moved on. -/
def update (b : Binding) (d : Desk) : Binding :=
  { desk := d, shown := if b.isStale d then d.display else b.shown }

/-- How a key was dealt with: taken or not, and offered to the host or not. -/
structure Outcome where
  taken : Bool
  offered : Bool
deriving DecidableEq, Repr

/-- One key. What neither the interpreter nor plain typing takes is offered to `host`, if there is
one. -/
def press (b : Binding) (host : Option (KeyPress → Bool)) (k : KeyPress) :
    Except EditError (Binding × Outcome) := do
  let (d, taken) ← b.desk.offer k
  match taken, host with
  | true, _ => return (b.update d, ⟨true, false⟩)
  | false, none => return (b.update d, ⟨false, false⟩)
  | false, some accepts => return (b.update d, ⟨accepts k, true⟩)

end Binding

end ModalEditor
