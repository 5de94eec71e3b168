import ModalEditor.Number.Precision

/-!
# The host's timers

A host keeps any number of timers. Starting one gives a handle, by which it can be stopped as long as
it runs; when time passes, all timers that are due run out, in the order of their times. The clock
counts milliseconds at double precision. The runtime takes a delay that does not fit a timer, too short
or too long, for a millisecond.
-/

namespace ModalEditor

/-- What keeps the timers: the runtime, or a simulation of its clock. -/
inductive Host where
  | runtime
  | simulation
deriving DecidableEq, Repr

namespace Host

/-- The longest delay that the runtime takes as it is, in milliseconds. -/
def longest : Int := 2147483647

/-- How long a timer waits that is started with a delay. A simulation waits whatever it is asked to. -/
def waited : Host → Int → Int
  | runtime, delay => if 1 ≤ delay ∧ delay ≤ longest then delay else 1
  | simulation, delay => delay

/-- A delay that fits a timer is waited as it is. -/
theorem waited_of_fits (host : Host) {delay : Int} (h : 1 ≤ delay) (h' : delay ≤ longest) :
    host.waited delay = delay := by
  cases host with
  | runtime => exact if_pos ⟨h, h'⟩
  | simulation => rfl

end Host

/-- A timer that runs: its handle, and the time at which it runs out. -/
structure Timer where
  handle : Nat
  due : Int
deriving DecidableEq, Repr

/-- The clock, the timers that run, and how many have been started so far. -/
structure Timers where
  host : Host := .runtime
  now : Int := 0
  running : List Timer := []
  started : Nat := 0
deriving DecidableEq, Repr

namespace Timers

/-- The time that the clock shows `ms` milliseconds from now. -/
def later (t : Timers) (ms : Int) : Int := Precision.round (t.now + ms)

/-- The handle of the timer that is started next. -/
def fresh (t : Timers) : Nat := t.started

/-- One more timer, which waits as long as the host makes of the delay. -/
def start (t : Timers) (delay : Int) : Timers :=
  { t with
    running := t.running ++ [⟨t.fresh, t.later (t.host.waited delay)⟩]
    started := t.started + 1 }

/-- The timer of that handle stopped, if it runs. -/
def clear (t : Timers) (handle : Nat) : Timers :=
  { t with running := t.running.filter (·.handle ≠ handle) }

/-- Time passes; the timers that run out, also those exactly at the end. -/
def advance (t : Timers) (ms : Int) : Timers × List Timer :=
  let now := t.later ms
  let (due, running) := t.running.partition (·.due ≤ now)
  ({ t with now, running }, due.mergeSort (·.due ≤ ·.due))

end Timers

end ModalEditor
