import ModalEditor.Host.Timers
import ModalEditor.Text.Basic

/-!
# Debounced saving

A debounce follows a version counter: whenever the version, the switch or the delay differs from the
last time it looked, and the switch is on, it arms its timer anew. The timer runs out once, unless it
is armed again, flushed or cancelled before. Turning the switch off does not stop a timer that runs.
The clock counts milliseconds at double precision.

A `Debounce` has a timer of its own, which waits the delay that is asked for; it stands for one on the
host's timers wherever the host takes that delay as it is. On the host's timers a debounce has the
handle of the timer that it started last, until that one has run out or was stopped
(`HandledDebounce`); a `Saver` calls back through it.
-/

namespace ModalEditor

/-- What a debounce looks at. -/
structure Watched where
  version : Int
  enabled : Bool
  delay : Int
deriving DecidableEq, Repr

/-- The clock, the time at which the timer runs out, and what was seen last. -/
structure Debounce where
  now : Int := 0
  timer : Option Int := none
  last : Option Watched := none
deriving DecidableEq, Repr

namespace Debounce

/-- The delay where none is asked for, in milliseconds. -/
def defaultDelay : Int := 1000

/-- The time that the clock shows `ms` milliseconds from now. -/
def later (d : Debounce) (ms : Int) : Int := Precision.round (d.now + ms)

/-- A look at what is watched. -/
def look (d : Debounce) (w : Watched) : Debounce :=
  if d.last = some w then d
  else { d with last := some w, timer := if w.enabled then some (d.later w.delay) else d.timer }

/-- Time passes; whether the timer runs out, which it does also exactly at the end. -/
def advance (d : Debounce) (ms : Int) : Debounce × Bool :=
  let now := d.later ms
  match d.timer with
  | some due => if due ≤ now then ({ d with now, timer := none }, true) else ({ d with now }, false)
  | none => ({ d with now }, false)

/-- The timer run out before its time, if it runs; whether it did. -/
def flush (d : Debounce) : Debounce × Bool := ({ d with timer := none }, d.timer.isSome)

/-- The timer stopped. -/
def cancel (d : Debounce) : Debounce := { d with timer := none }

/-- How many timers run. -/
def running (d : Debounce) : Nat := if d.timer.isSome then 1 else 0

end Debounce

/-! ## A debounce on the host's timers -/

/-- A debounce as it runs on the host's timers: the timers, the handle of the one it would stop, and
what was seen last. -/
structure HandledDebounce where
  timers : Timers := {}
  handle : Option Nat := none
  last : Option Watched := none
deriving DecidableEq, Repr

namespace HandledDebounce

/-- The timer stopped, if its handle is held. -/
def cancel (d : HandledDebounce) : HandledDebounce :=
  match d.handle with
  | some handle => { d with timers := d.timers.clear handle, handle := none }
  | none => d

/-- The timer run out before its time, if its handle is held; whether it was. -/
def flush (d : HandledDebounce) : HandledDebounce × Bool := (d.cancel, d.handle.isSome)

/-- A timer started in place of the one whose handle is held. -/
def arm (d : HandledDebounce) (delay : Int) : HandledDebounce :=
  let d := d.cancel
  { d with timers := d.timers.start delay, handle := some d.timers.fresh }

/-- A look at what is watched. -/
def look (d : HandledDebounce) (w : Watched) : HandledDebounce :=
  if d.last = some w then d
  else
    let d := { d with last := some w }
    if w.enabled then d.arm w.delay else d

/-- How many timers run. -/
def running (d : HandledDebounce) : Nat := d.timers.running.length

end HandledDebounce

/-! ## A debounced saver -/

/-- A debounce on the host's timers with the name of what it calls, and the calls so far, oldest
first. -/
structure Saver where
  debounce : HandledDebounce := {}
  callback : Text := []
  calls : List Text := []
  mounted : Bool := true
deriving DecidableEq, Repr

namespace Saver

/-- What was watched last. -/
def watched (s : Saver) : Watched := s.debounce.last.getD ⟨0, false, Debounce.defaultDelay⟩

/-- The callback called. -/
def call (s : Saver) : Saver := { s with calls := s.calls ++ [s.callback] }

/-- What is watched and what is called given anew, the callback before the look. -/
def render (s : Saver) (w : Watched) (callback : Text) : Saver :=
  if s.mounted then { s with callback, debounce := s.debounce.look w } else s

/-- A new saver on a host. -/
def new (host : Host) : Saver := { debounce := { timers := { host } } }

/-- A new saver on a simulated clock, which has looked once. -/
def mount (w : Watched) (callback : Text) : Saver := (new .simulation).render w callback

/-- A timer has run out: no handle is held any more, and the callback is called. -/
def fire (s : Saver) : Saver := { s with debounce := { s.debounce with handle := none } }.call

/-- Time passes. -/
def tick (s : Saver) (ms : Int) : Saver :=
  let (timers, due) := s.debounce.timers.advance ms
  due.foldl (fun s _ => s.fire) { s with debounce := { s.debounce with timers } }

/-- A pending call made now. -/
def flush (s : Saver) : Saver :=
  match s.debounce.flush with
  | (debounce, true) => { s with debounce }.call
  | (debounce, false) => { s with debounce }

/-- A pending call dropped. -/
def cancel (s : Saver) : Saver := { s with debounce := s.debounce.cancel }

/-- The saver put away, with a pending call made now. -/
def unmount (s : Saver) : Saver := if s.mounted then { s.flush with mounted := false } else s

/-- What can happen to a saver. -/
inductive Event where
  | render (version : Int) (enabled : Bool) (callback : Text)
  | tick (ms : Nat)
  | flush
  | cancel
  | unmount
deriving DecidableEq, Repr

/-- A saver whose delay stays the same after one event. -/
def step (delay : Int) (s : Saver) : Event → Saver
  | .render version enabled callback => s.render ⟨version, enabled, delay⟩ callback
  | .tick ms => s.tick ms
  | .flush => s.flush
  | .cancel => s.cancel
  | .unmount => s.unmount

/-- A new saver on a host after some events. -/
def run (host : Host) (delay : Int) (events : List Event) : Saver :=
  events.foldl (step delay) (new host)

end Saver

end ModalEditor
