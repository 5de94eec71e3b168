import Mathlib.Data.List.Infix
import ModalEditor.Host.Debounce

/-!
# The law of the debounced saver

Along every history of renders, passing time, flushes and cancels, until the saver is put away:

- A timer is armed exactly by the first render that is enabled, and by each later one whose version or
  switch differs from the render before (`Saver.Arms`).
- It is stopped by a cancel or by the next arming (`Saver.Stops`), and it runs out when the time has
  passed that the host makes of its delay (`Host.waited`), at a flush, or when the saver is put away
  (`Saver.Expires`), whichever is first. Until then it waits (`Saver.Waits`).
- The saver calls back exactly once for each timer that runs out and never else, and what it calls is
  the callback of the latest render.

All of it is read off the history alone (`Saver.Debounces`). The invariant (`Saver.Stands`) says that
the only timer that the host runs is the one that waits, and that its handle is held.
-/

namespace ModalEditor

/-! ## The one timer that runs -/

namespace HandledDebounce

variable {d : HandledDebounce}

/-- No timer runs but, if any, the one given, and its handle is held. -/
def Holds (d : HandledDebounce) (timer : Option Timer) : Prop :=
  d.timers.running = timer.toList ∧ d.handle = timer.map (·.handle)

theorem Holds.cancel {held : Option Timer} (h : d.Holds held) :
    d.cancel = { d with timers := { d.timers with running := [] }, handle := none } := by
  obtain ⟨hrunning, hhandle⟩ := h
  obtain ⟨⟨host, now, running, started⟩, handle, last⟩ := d
  dsimp only at hrunning hhandle
  cases held with
  | none =>
    obtain rfl : running = [] := hrunning
    obtain rfl : handle = none := hhandle
    rfl
  | some timer =>
    obtain rfl : running = [timer] := hrunning
    obtain rfl : handle = some timer.handle := hhandle
    simp [HandledDebounce.cancel, Timers.clear]

theorem Holds.arm {held : Option Timer} (h : d.Holds held) (delay : Int) :
    d.arm delay = { d with
      timers := { d.timers with
        running := [⟨d.timers.started, d.timers.later (d.timers.host.waited delay)⟩]
        started := d.timers.started + 1 }
      handle := some d.timers.started } := by
  unfold HandledDebounce.arm
  rw [h.cancel]
  rfl

theorem Holds.running {held : Option Timer} (h : d.Holds held) :
    d.running = held.toList.length := congrArg List.length h.1

end HandledDebounce

namespace Timers

theorem advance_of_not_due {t : Timers} {held : Option Timer} {ms : Int}
    (h : t.running = held.toList) (hdue : ∀ timer ∈ held, t.later ms < timer.due) :
    t.advance ms = ({ t with now := t.later ms }, []) := by
  cases held with
  | none =>
    unfold advance
    rw [h]
    simp
  | some timer =>
    have hlt := hdue timer rfl
    unfold advance
    rw [h]
    simp [List.partition_eq_filter_filter, hlt]

theorem advance_of_due {t : Timers} {timer : Timer} {ms : Int} (h : t.running = [timer])
    (hdue : timer.due ≤ t.later ms) :
    t.advance ms = ({ t with now := t.later ms, running := [] }, [timer]) := by
  unfold advance
  rw [h]
  simp [List.partition_eq_filter_filter, hdue]

end Timers

namespace Saver

variable {s : Saver} {held : Option Timer} {ms : Int}

theorem tick_of_not_due (h : s.debounce.Holds held)
    (hdue : ∀ timer ∈ held, s.debounce.timers.later ms < timer.due) :
    s.tick ms = { s with debounce := { s.debounce with timers :=
      { s.debounce.timers with now := s.debounce.timers.later ms } } } := by
  unfold tick
  rw [Timers.advance_of_not_due h.1 hdue]
  rfl

theorem tick_of_due {timer : Timer} (h : s.debounce.Holds (some timer))
    (hdue : timer.due ≤ s.debounce.timers.later ms) :
    s.tick ms = { s with
      debounce := { s.debounce with
        timers := { s.debounce.timers with now := s.debounce.timers.later ms, running := [] }
        handle := none }
      calls := s.calls ++ [s.callback] } := by
  unfold tick
  rw [Timers.advance_of_due h.1 hdue]
  rfl

theorem flush_of_holds (h : s.debounce.Holds held) :
    s.flush = { s with
      debounce := { s.debounce with
        timers := { s.debounce.timers with running := [] }
        handle := none }
      calls := s.calls ++ if held.isSome then [s.callback] else [] } := by
  unfold flush HandledDebounce.flush
  rw [h.cancel, h.2]
  cases held with
  | none => simp
  | some timer => rfl

theorem flush_mounted (s : Saver) : s.flush.mounted = s.mounted := by
  unfold flush
  split <;> rfl

theorem cancel_of_holds (h : s.debounce.Holds held) :
    s.cancel = { s with debounce := { s.debounce with
      timers := { s.debounce.timers with running := [] }
      handle := none } } := by
  unfold cancel
  rw [h.cancel]

/-! ## Histories -/

/-- The version and the switch at the latest render. -/
def seen (past : List Event) : Option (Int × Bool) :=
  past.foldl (fun seen event => match event with
    | .render version enabled _ => some (version, enabled)
    | _ => seen) none

/-- The callback given at the latest render. -/
def latest (past : List Event) : Text :=
  past.foldl (fun latest event => match event with
    | .render _ _ callback => callback
    | _ => latest) []

/-- What the clock shows. -/
def clock (past : List Event) : Int :=
  past.foldl (fun now event => match event with
    | .tick ms => Precision.round (now + ms)
    | _ => now) 0

/-- How many milliseconds have passed. -/
def elapsed (past : List Event) : Nat :=
  past.foldl (fun total event => match event with
    | .tick ms => total + ms
    | _ => total) 0

/-- The event is a render that arms a timer: enabled, and the first or one that differs in version or
switch from the one before. -/
def Arms (past : List Event) : Event → Prop
  | .render version enabled _ => enabled = true ∧ seen past ≠ some (version, enabled)
  | _ => False

instance (past : List Event) : DecidablePred (Arms past) := fun event =>
  match event with
  | .render version enabled _ =>
    inferInstanceAs (Decidable (enabled = true ∧ seen past ≠ some (version, enabled)))
  | .tick _ | .flush | .cancel | .unmount => inferInstanceAs (Decidable False)

/-- The event drops a timer that waits: a cancel, or another timer armed in its place. -/
def Stops (past : List Event) (event : Event) : Prop := event = .cancel ∨ Arms past event

/-- The event makes the timer armed at the end of `armed` run out if it still waits: the time it
waits has passed, or it need not pass. -/
def Expires (host : Host) (delay : Int) (armed past : List Event) : Event → Prop
  | .tick ms => Precision.round (clock armed + host.waited delay) ≤ clock (past ++ [.tick ms])
  | .flush | .unmount => True
  | .render .. | .cancel => False

/-- A timer was armed by the last event of `armed`. -/
def IsArmed (armed : List Event) : Prop := ∃ past event, armed = past ++ [event] ∧ Arms past event

/-- The timer armed by the last event of `armed` still waits after `now`: nothing has stopped it or
made it run out since. -/
structure Waits (host : Host) (delay : Int) (armed now : List Event) : Prop where
  isArmed : IsArmed armed
  part : armed <+: now
  since : ∀ past event, armed <+: past → past ++ [event] <+: now →
    ¬ Stops past event ∧ ¬ Expires host delay armed past event

variable {host : Host} {delay : Int} {armed past : List Event} {event : Event}

theorem seen_concat : seen (past ++ [event]) = match event with
    | .render version enabled _ => some (version, enabled)
    | _ => seen past := List.foldl_concat ..

theorem latest_concat : latest (past ++ [event]) = match event with
    | .render _ _ callback => callback
    | _ => latest past := List.foldl_concat ..

theorem clock_concat : clock (past ++ [event]) = match event with
    | .tick ms => Precision.round (clock past + ms)
    | _ => clock past := List.foldl_concat ..

theorem elapsed_concat : elapsed (past ++ [event]) = match event with
    | .tick ms => elapsed past + ms
    | _ => elapsed past := List.foldl_concat ..

theorem clock_eq_elapsed (h : elapsed past ≤ Precision.limit) : clock past = elapsed past := by
  induction past using List.reverseRecOn with
  | nil => rfl
  | append_singleton past event ih =>
    rw [clock_concat]
    rw [elapsed_concat] at h ⊢
    cases event with
    | tick ms =>
      dsimp only at h ⊢
      rw [ih (by omega), ← Int.natCast_add, Precision.round_of_le (by omega)]
    | render | flush | cancel | unmount => exact ih h

theorem not_waits_nil : ¬ Waits host delay armed [] := by
  rintro ⟨⟨past, event, rfl, -⟩, hpart, -⟩
  exact List.concat_ne_nil _ _ (List.prefix_nil.1 hpart)

/-- After one more event there waits what it arms, and what waited before and does not end. -/
theorem waits_concat : Waits host delay armed (past ++ [event]) ↔
    armed = past ++ [event] ∧ Arms past event ∨
    Waits host delay armed past ∧ ¬ Stops past event ∧ ¬ Expires host delay armed past event := by
  constructor
  · rintro ⟨harmed, hpart, hsince⟩
    rcases List.prefix_concat_iff.1 hpart with rfl | hpart
    · obtain ⟨past', event', heq, harms⟩ := harmed
      obtain ⟨rfl, rfl⟩ : past = past' ∧ event = event' := by simpa using heq
      exact .inl ⟨rfl, harms⟩
    · exact .inr ⟨⟨harmed, hpart, fun before e hbefore he =>
        hsince before e hbefore (he.trans (List.prefix_append _ _))⟩,
        hsince past event hpart (List.prefix_refl _)⟩
  · rintro (⟨rfl, harms⟩ | ⟨⟨harmed, hpart, hsince⟩, hends⟩)
    · refine ⟨⟨past, event, rfl, harms⟩, List.prefix_refl _, fun before e hbefore he => ?_⟩
      have := hbefore.length_le
      have := he.length_le
      simp only [List.length_append, List.length_singleton] at *
      omega
    · refine ⟨harmed, hpart.trans (List.prefix_append _ _), fun before e hbefore he => ?_⟩
      rcases List.prefix_concat_iff.1 he with heq | he
      · obtain ⟨rfl, rfl⟩ : before = past ∧ e = event := by simpa using heq
        exact hends
      · exact hsince before e hbefore he

/-! ## What the host's timers have to do with the history -/

/-- What a debounce holds after a history: the timer that waits, and no other. -/
inductive Pending (host : Host) (delay : Int) (past : List Event) (d : HandledDebounce) : Prop
  | idle (nothing : ∀ armed, ¬ Waits host delay armed past) (holds : d.Holds none)
  | waiting (armed : List Event) (handle : Nat)
      (only : ∀ other, Waits host delay other past ↔ other = armed)
      (holds : d.Holds (some ⟨handle, Precision.round (clock armed + host.waited delay)⟩))

namespace Pending

variable {d d' : HandledDebounce}

theorem stays (h : Pending host delay past d) (hd : ∀ held, d.Holds held → d'.Holds held)
    (hstops : ¬ Stops past event)
    (hexpires : ∀ armed, Waits host delay armed past → ¬ Expires host delay armed past event) :
    Pending host delay (past ++ [event]) d' := by
  have hsame (armed : List Event) :
      Waits host delay armed (past ++ [event]) ↔ Waits host delay armed past := by
    rw [waits_concat, or_iff_right fun harms => hstops (.inr harms.2)]
    exact and_iff_left_of_imp fun hwaits => ⟨hstops, hexpires armed hwaits⟩
  cases h with
  | idle nothing holds => exact .idle (fun armed => (hsame armed).not.2 (nothing armed)) (hd _ holds)
  | waiting armed handle only holds =>
    exact .waiting armed handle (fun other => (hsame other).trans (only other)) (hd _ holds)

theorem ends (hd : d'.Holds none) (harms : ¬ Arms past event)
    (hends : ∀ armed, Waits host delay armed past →
      Stops past event ∨ Expires host delay armed past event) :
    Pending host delay (past ++ [event]) d' := by
  refine .idle (fun armed hwaits => ?_) hd
  rcases waits_concat.1 hwaits with ⟨-, h⟩ | ⟨hwaits, hstops, hexpires⟩
  · exact harms h
  · exact (hends armed hwaits).elim hstops hexpires

theorem arms {handle : Nat} (harms : Arms past event)
    (hd : d'.Holds (some ⟨handle, Precision.round (clock (past ++ [event]) + host.waited delay)⟩)) :
    Pending host delay (past ++ [event]) d' := by
  refine .waiting _ handle (fun other => ?_) hd
  rw [waits_concat]
  exact ⟨fun h => h.elim (·.1) fun h => absurd (.inr harms) h.2.1, fun h => .inl ⟨h, harms⟩⟩

theorem holds (h : Pending host delay past d) :
    ∃ held, d.Holds held ∧ (held.isSome = true ↔ ∃ armed, Waits host delay armed past) := by
  cases h with
  | idle nothing hheld =>
    exact ⟨_, hheld, nofun, fun ⟨armed, hwaits⟩ => absurd hwaits (nothing armed)⟩
  | waiting armed handle only hheld =>
    exact ⟨_, hheld, fun _ => ⟨armed, (only armed).2 rfl⟩, fun _ => rfl⟩

end Pending

/-- What a saver remembers of its past, and the timer that waits. -/
structure Stands (host : Host) (delay : Int) (past : List Event) (s : Saver) : Prop where
  last : s.debounce.last = (seen past).map fun w => ⟨w.1, w.2, delay⟩
  callback : s.callback = latest past
  hosted : s.debounce.timers.host = host
  now : s.debounce.timers.now = clock past
  pending : Pending host delay past s.debounce

/-- What a saver does at an event: it starts a timer if the event arms one, and calls back if a timer
that waits runs out. -/
structure Answers (host : Host) (delay : Int) (past : List Event) (event : Event) (s s' : Saver) :
    Prop where
  stands : Stands host delay (past ++ [event]) s'
  started : s'.debounce.timers.started =
    s.debounce.timers.started + if Arms past event then 1 else 0
  called : (∃ armed, Waits host delay armed past ∧ Expires host delay armed past event) →
    s'.calls = s.calls ++ [latest past]
  silent : (¬ ∃ armed, Waits host delay armed past ∧ Expires host delay armed past event) →
    s'.calls = s.calls
  mounted : event ≠ .unmount → s'.mounted = s.mounted

section
variable {s : Saver} (h : Stands host delay past s)
include h

theorem Stands.seen_iff {version : Int} {enabled : Bool} :
    s.debounce.last = some ⟨version, enabled, delay⟩ ↔ seen past = some (version, enabled) := by
  rw [h.last, Option.map_eq_some_iff]
  constructor
  · rintro ⟨w, hw, heq⟩
    simp only [Watched.mk.injEq, and_true] at heq
    rw [hw, ← heq.1, ← heq.2]
  · exact fun hw => ⟨_, hw, rfl⟩

theorem Stands.render_of_not_arms (hm : s.mounted = true) {version : Int} {enabled : Bool}
    {callback : Text} (harms : ¬ Arms past (.render version enabled callback)) :
    Answers host delay past (.render version enabled callback) s
      (s.render ⟨version, enabled, delay⟩ callback) := by
  have hlook : s.debounce.look ⟨version, enabled, delay⟩ =
      { s.debounce with last := some ⟨version, enabled, delay⟩ } := by
    unfold HandledDebounce.look
    split
    case isTrue hlast => rw [← hlast]
    case isFalse hlast =>
      dsimp only
      rw [if_neg fun henabled => harms ⟨henabled, fun hw => hlast (h.seen_iff.2 hw)⟩]
  have hstops : ¬ Stops past (.render version enabled callback) := by
    rintro (hcancel | h)
    · cases hcancel
    · exact harms h
  rw [render, if_pos hm, hlook]
  refine ⟨⟨?_, ?_, h.hosted, ?_, h.pending.stays (fun _ hd => hd) hstops fun _ _ => id⟩, ?_, ?_,
    fun _ => rfl, fun _ => rfl⟩
  · rw [seen_concat]
    rfl
  · rw [latest_concat]
  · rw [clock_concat]
    exact h.now
  · rw [if_neg harms]
    rfl
  · rintro ⟨_, _, hexpires⟩
    exact hexpires.elim

theorem Stands.render_of_arms (hm : s.mounted = true) {version : Int} {enabled : Bool}
    {callback : Text} (harms : Arms past (.render version enabled callback)) :
    Answers host delay past (.render version enabled callback) s
      (s.render ⟨version, enabled, delay⟩ callback) := by
  obtain rfl : enabled = true := harms.1
  obtain ⟨held, hheld, -⟩ := h.pending.holds
  have hlook : s.debounce.look ⟨version, true, delay⟩ =
      ({ s.debounce with last := some ⟨version, true, delay⟩ } : HandledDebounce).arm delay := by
    unfold HandledDebounce.look
    rw [if_neg fun hlast => harms.2 (h.seen_iff.1 hlast), if_pos rfl]
  have harm := HandledDebounce.Holds.arm
    (d := { s.debounce with last := some ⟨version, true, delay⟩ }) hheld delay
  rw [render, if_pos hm, hlook, harm]
  refine ⟨⟨?_, ?_, h.hosted, ?_, .arms harms ⟨?_, rfl⟩⟩, ?_, ?_, fun _ => rfl, fun _ => rfl⟩
  · rw [seen_concat]
    rfl
  · rw [latest_concat]
  · rw [clock_concat]
    exact h.now
  · rw [clock_concat, ← h.now, ← h.hosted]
    rfl
  · rw [if_pos harms]
  · rintro ⟨_, _, hexpires⟩
    exact hexpires.elim

theorem Stands.passes {s' : Saver} (hevent : ∀ version enabled callback,
      event ≠ .render version enabled callback)
    (hlast : s'.debounce.last = s.debounce.last) (hcallback : s'.callback = s.callback)
    (hhost : s'.debounce.timers.host = s.debounce.timers.host)
    (hnow : s'.debounce.timers.now = clock (past ++ [event]))
    (hpending : Pending host delay (past ++ [event]) s'.debounce) :
    Stands host delay (past ++ [event]) s' := by
  refine ⟨?_, ?_, hhost.trans h.hosted, hnow, hpending⟩
  · rw [hlast, h.last, seen_concat]
    cases event with
    | render version enabled callback => exact absurd rfl (hevent version enabled callback)
    | tick | flush | cancel | unmount => rfl
  · rw [hcallback, h.callback, latest_concat]
    cases event with
    | render version enabled callback => exact absurd rfl (hevent version enabled callback)
    | tick | flush | cancel | unmount => rfl

theorem Stands.tick (ms : Nat) : Answers host delay past (.tick ms) s (s.tick ms) := by
  have hlater : s.debounce.timers.later ms = clock (past ++ [.tick ms]) := by
    rw [clock_concat, Timers.later, h.now]
  have hstops : ¬ Stops past (.tick ms) := by
    rintro (hcancel | h)
    · cases hcancel
    · exact h
  -- until the timer is due, or where none runs, only the clock goes on
  have hwait {held : Option Timer} (hheld : s.debounce.Holds held)
      (hdue : ∀ timer ∈ held, s.debounce.timers.later ms < timer.due)
      (hexpires : ∀ armed, Waits host delay armed past →
        ¬ Expires host delay armed past (.tick ms)) :
      Answers host delay past (.tick ms) s (s.tick ms) := by
    rw [tick_of_not_due hheld hdue]
    refine ⟨h.passes nofun rfl rfl rfl hlater (h.pending.stays (fun _ hd => hd) hstops hexpires),
      rfl, ?_, fun _ => rfl, fun _ => rfl⟩
    rintro ⟨armed, hwaits, hdue⟩
    exact absurd hdue (hexpires armed hwaits)
  cases h.pending with
  | idle nothing hheld => exact hwait hheld nofun fun armed hwaits => absurd hwaits (nothing armed)
  | waiting armed handle only hheld =>
    rcases Int.lt_or_le (s.debounce.timers.later ms)
      (Precision.round (clock armed + host.waited delay)) with hlt | hle
    · refine hwait hheld (by rintro _ ⟨⟩; exact hlt) fun other hwaits hexpires => ?_
      rw [(only other).1 hwaits] at hexpires
      exact Int.not_le.2 hlt (hlater ▸ hexpires)
    · have hexpires : Expires host delay armed past (.tick ms) := hle.trans_eq hlater
      rw [tick_of_due hheld hle]
      refine ⟨h.passes nofun rfl rfl rfl hlater (.ends ⟨rfl, rfl⟩ id fun other hwaits => .inr ?_),
        rfl, fun _ => ?_, fun hnone => ?_, fun _ => rfl⟩
      · rwa [(only other).1 hwaits]
      · rw [h.callback]
      · exact absurd ⟨armed, (only armed).2 rfl, hexpires⟩ hnone

theorem Stands.flush (hevent : event = .flush ∨ event = .unmount) {mounted : Bool}
    (hmounted : event ≠ .unmount → mounted = s.mounted) :
    Answers host delay past event s { s.flush with mounted } := by
  have hnot_arms : ¬ Arms past event := by rcases hevent with rfl | rfl <;> exact id
  have hexpires (armed : List Event) : Expires host delay armed past event := by
    rcases hevent with rfl | rfl <;> trivial
  have hpasses {s' : Saver} (hlast : s'.debounce.last = s.debounce.last)
      (hcallback : s'.callback = s.callback)
      (hhost : s'.debounce.timers.host = s.debounce.timers.host)
      (hnow : s'.debounce.timers.now = s.debounce.timers.now) (hnone : s'.debounce.Holds none) :
      Stands host delay (past ++ [event]) s' := by
    refine h.passes (by rcases hevent with rfl | rfl <;> nofun) hlast hcallback hhost ?_
      (.ends hnone hnot_arms fun armed _ => .inr (hexpires armed))
    rw [hnow, h.now, clock_concat]
    rcases hevent with rfl | rfl <;> rfl
  obtain ⟨held, hheld, hwaits⟩ := h.pending.holds
  rw [flush_of_holds hheld]
  refine ⟨hpasses rfl rfl rfl rfl ⟨rfl, rfl⟩, by rw [if_neg hnot_arms]; rfl, ?_, fun hnone => ?_,
    hmounted⟩
  · rintro ⟨armed, hwaiting, -⟩
    rw [if_pos (hwaits.2 ⟨armed, hwaiting⟩), h.callback]
  · have hheld : ¬ held.isSome = true := fun hsome =>
      let ⟨armed, hwaiting⟩ := hwaits.1 hsome
      hnone ⟨armed, hwaiting, hexpires armed⟩
    rw [if_neg hheld, List.append_nil]

theorem Stands.cancel : Answers host delay past .cancel s s.cancel := by
  obtain ⟨held, hheld, -⟩ := h.pending.holds
  rw [cancel_of_holds hheld]
  refine ⟨h.passes nofun rfl rfl rfl ?_ (.ends ⟨rfl, rfl⟩ id fun _ _ => .inl (.inl rfl)), rfl,
    ?_, fun _ => rfl, fun _ => rfl⟩
  · rw [clock_concat]
    exact h.now
  · rintro ⟨_, _, hexpires⟩
    exact hexpires.elim

/-- **One event.** -/
theorem Stands.answers (hm : s.mounted = true) (event : Event) :
    Answers host delay past event s (step delay s event) := by
  cases event with
  | render version enabled callback =>
    by_cases harms : Arms past (.render version enabled callback)
    · exact h.render_of_arms hm harms
    · exact h.render_of_not_arms hm harms
  | tick ms => exact h.tick ms
  | flush => exact h.flush (.inl rfl) fun _ => s.flush_mounted
  | cancel => exact h.cancel
  | unmount =>
    rw [step, unmount, if_pos hm]
    exact h.flush (.inr rfl) fun hne => absurd rfl hne

end

theorem run_concat (host : Host) (delay : Int) (past : List Event) (event : Event) :
    run host delay (past ++ [event]) = step delay (run host delay past) event := List.foldl_concat ..

/-- **Every history** of a saver that has not been put away. -/
theorem stands_run (host : Host) (delay : Int) (h : .unmount ∉ past) :
    (run host delay past).mounted = true ∧ Stands host delay past (run host delay past) := by
  induction past using List.reverseRecOn with
  | nil => exact ⟨rfl, rfl, rfl, rfl, rfl, .idle (fun _ => not_waits_nil) ⟨rfl, rfl⟩⟩
  | append_singleton past event ih =>
    rw [List.mem_append, List.mem_singleton, not_or] at h
    obtain ⟨hm, hstands⟩ := ih h.1
    have hanswers := hstands.answers hm event
    rw [run_concat]
    exact ⟨(hanswers.mounted (Ne.symm h.2)).trans hm, hanswers.stands⟩

/-! ## The law -/

/-- What a saver with a delay does on a host along a history, as far as it can be read off the
history. -/
structure Debounces (host : Host) (delay : Int) (history : List Event) : Prop where
  running : ∀ now, now <+: history → (run host delay now).debounce.running ≤ 1 ∧
    ((run host delay now).debounce.running = 1 ↔ ∃ armed, Waits host delay armed now)
  started : ∀ past event, past ++ [event] <+: history →
    (run host delay (past ++ [event])).debounce.timers.started =
      (run host delay past).debounce.timers.started + if Arms past event then 1 else 0
  called : ∀ past event, past ++ [event] <+: history →
    (∃ armed, Waits host delay armed past ∧ Expires host delay armed past event) →
    (run host delay (past ++ [event])).calls = (run host delay past).calls ++ [latest past]
  silent : ∀ past event, past ++ [event] <+: history →
    (¬ ∃ armed, Waits host delay armed past ∧ Expires host delay armed past event) →
    (run host delay (past ++ [event])).calls = (run host delay past).calls
  /-- Each timer that is armed waits without a call up to one event, at which it runs out with one
  call or is stopped without a call, and it does not wait after that. -/
  ends : ∀ armed, IsArmed armed → armed <+: history → ∃ past event,
    past ++ [event] <+: history ∧ Waits host delay armed past ∧
    (run host delay past).calls = (run host delay armed).calls ∧
    (Expires host delay armed past event ∧
        (run host delay (past ++ [event])).calls = (run host delay armed).calls ++ [latest past] ∨
      Stops past event ∧ (run host delay (past ++ [event])).calls = (run host delay armed).calls) ∧
    ∀ now, past ++ [event] <+: now → ¬ Waits host delay armed now
  /-- As long as the clock is exact, time makes a timer run out exactly when what the host makes of
  its delay has passed since it was armed, -/
  onTime : elapsed history + (host.waited delay).natAbs ≤ Precision.limit → ∀ armed past ms,
    armed <+: past → past ++ [.tick ms] <+: history →
    (Expires host delay armed past (.tick ms) ↔
      elapsed armed + host.waited delay ≤ elapsed (past ++ [.tick ms]))
  /-- and that is the delay itself, if it fits a timer. -/
  asAsked : 1 ≤ delay → delay ≤ Host.longest → host.waited delay = delay

theorem Waits.unique {other : List Event} (h : Waits host delay armed past)
    (hother : Waits host delay other past) : armed = other := by
  induction past using List.reverseRecOn with
  | nil => exact absurd h not_waits_nil
  | append_singleton past event ih =>
    rcases waits_concat.1 h with ⟨rfl, harms⟩ | ⟨h, hstops, -⟩ <;>
      rcases waits_concat.1 hother with ⟨rfl, harms'⟩ | ⟨hother, hstops', -⟩
    · rfl
    · exact absurd (.inr harms) hstops'
    · exact absurd (.inr harms') hstops
    · exact ih h hother

theorem not_expires_of_stops (h : Stops past event) : ¬ Expires host delay armed past event := by
  rcases h with rfl | harms
  · exact id
  · cases event with
    | render => exact id
    | tick | flush | cancel | unmount => exact harms.elim

theorem IsArmed.ends {history : List Event} (h : IsArmed armed) (hpart : armed <+: history)
    (hnot : ¬ Waits host delay armed history) :
    ∃ past event, past ++ [event] <+: history ∧ Waits host delay armed past ∧
      (Expires host delay armed past event ∨ Stops past event) := by
  induction history using List.reverseRecOn with
  | nil =>
    obtain ⟨past, event, rfl, -⟩ := h
    exact absurd (List.prefix_nil.1 hpart) (List.concat_ne_nil _ _)
  | append_singleton history event ih =>
    rw [waits_concat, not_or] at hnot
    rcases List.prefix_concat_iff.1 hpart with rfl | hpart
    · obtain ⟨past, last, heq, harms⟩ := h
      obtain ⟨rfl, rfl⟩ : history = past ∧ event = last := by simpa using heq
      exact absurd ⟨rfl, harms⟩ hnot.1
    by_cases hwaits : Waits host delay armed history
    · refine ⟨history, event, List.prefix_refl _, hwaits, ?_⟩
      by_contra hneither
      rw [not_or] at hneither
      exact hnot.2 ⟨hwaits, hneither.2, hneither.1⟩
    · obtain ⟨past, last, hlast, hends⟩ := ih hpart hwaits
      exact ⟨past, last, hlast.trans (List.prefix_append _ _), hends⟩

theorem elapsed_le {now : List Event} (h : past <+: now) : elapsed past ≤ elapsed now := by
  induction now using List.reverseRecOn with
  | nil => rw [List.prefix_nil.1 h]
  | append_singleton now event ih =>
    rcases List.prefix_concat_iff.1 h with rfl | h
    · exact le_rfl
    · refine (ih h).trans ?_
      rw [elapsed_concat]
      cases event with
      | tick ms => exact Nat.le_add_right _ _
      | render | flush | cancel | unmount => exact le_rfl

theorem expires_tick_iff {ms : Nat} (hpast : armed <+: past)
    (hexact : elapsed (past ++ [.tick ms]) + (host.waited delay).natAbs ≤ Precision.limit) :
    Expires host delay armed past (.tick ms) ↔
      elapsed armed + host.waited delay ≤ elapsed (past ++ [.tick ms]) := by
  have harmed := elapsed_le (hpast.trans (List.prefix_append past [.tick ms]))
  show Precision.round (clock armed + host.waited delay) ≤ clock (past ++ [.tick ms]) ↔ _
  rw [clock_eq_elapsed (by omega), clock_eq_elapsed (by omega), Precision.round_of_le (by omega)]

section
variable {events : List Event} (h : .unmount ∉ events)
include h

/-- The saver answers each event of its life, also the one that ends it. -/
theorem answers_of_part (hpart : past ++ [event] <+: events ++ [.unmount]) :
    Answers host delay past event (run host delay past) (run host delay (past ++ [event])) := by
  have hpast : past <+: events := by
    rcases List.prefix_concat_iff.1 hpart with heq | hpart
    · rw [(List.append_inj' heq rfl).1]
    · exact (List.prefix_append _ _).trans hpart
  obtain ⟨hm, hstands⟩ := stands_run host delay fun hmem => h (hpast.subset hmem)
  rw [run_concat]
  exact hstands.answers hm event

theorem pending_of_part (host : Host) (delay : Int) {now : List Event}
    (hpart : now <+: events ++ [.unmount]) :
    Pending host delay now (run host delay now).debounce := by
  rcases List.eq_nil_or_concat' now with rfl | ⟨past, event, rfl⟩
  · exact .idle (fun _ => not_waits_nil) ⟨rfl, rfl⟩
  · exact (answers_of_part h hpart).stands.pending

theorem calls_of_waits {now : List Event} (hpart : now <+: events ++ [.unmount])
    (hwaits : Waits host delay armed now) :
    (run host delay now).calls = (run host delay armed).calls := by
  induction now using List.reverseRecOn with
  | nil => exact absurd hwaits not_waits_nil
  | append_singleton now event ih =>
    rcases waits_concat.1 hwaits with ⟨rfl, -⟩ | ⟨hbefore, -, hnot⟩
    · rfl
    · refine ((answers_of_part h hpart).silent ?_).trans
        (ih ((List.prefix_append _ _).trans hpart) hbefore)
      rintro ⟨other, hother, hexpires⟩
      rw [hother.unique hbefore] at hexpires
      exact hnot hexpires

/-- **The law of the debounced saver**, on every host, with every delay and along every history up to
the end of its life. -/
theorem run_debounces (host : Host) (delay : Int) : Debounces host delay (events ++ [.unmount]) where
  running now hpart := by
    obtain ⟨held, hheld, hwaits⟩ := (pending_of_part h host delay hpart).holds
    rw [hheld.running, ← hwaits]
    cases held <;> simp
  started past event hpart := (answers_of_part h hpart).started
  called past event hpart := (answers_of_part h hpart).called
  silent past event hpart := (answers_of_part h hpart).silent
  ends armed harmed hpart := by
    have hlast : ¬ Waits host delay armed (events ++ [.unmount]) := by
      rw [waits_concat]
      rintro (⟨-, harms⟩ | ⟨-, -, hnot⟩)
      · exact harms
      · exact hnot trivial
    obtain ⟨past, event, hend, hwaits, hends⟩ := harmed.ends hpart hlast
    have hcalls := calls_of_waits h ((List.prefix_append _ _).trans hend) hwaits
    refine ⟨past, event, hend, hwaits, hcalls, ?_, fun now hnow hstill => ?_⟩
    · rw [← hcalls]
      rcases hends with hexpires | hstops
      · exact .inl ⟨hexpires, (answers_of_part h hend).called ⟨armed, hwaits, hexpires⟩⟩
      · refine .inr ⟨hstops, (answers_of_part h hend).silent ?_⟩
        rintro ⟨_, -, hexpires⟩
        exact not_expires_of_stops hstops hexpires
    · obtain ⟨hnstops, hnexpires⟩ := hstill.since past event hwaits.part hnow
      exact hends.elim hnexpires hnstops
  onTime hexact armed past ms hpast hpart := by
    have hnow := elapsed_le hpart
    exact expires_tick_iff hpast (by omega)
  asAsked := host.waited_of_fits

end

/-- A timer is armed, another one in its place, which runs out in time, and a third one, which a flush
ends after the callback has changed. -/
theorem debounces_flushed :
    let events : List Event := [.render 1 true [97], .tick 300, .render 2 true [97], .tick 300,
      .tick 200, .render 3 true [97], .render 3 true [98], .flush]
    .unmount ∉ events ∧ Debounces .runtime 500 (events ++ [.unmount]) ∧
      (run .runtime 500 events).calls = [[97], [98]] := by
  intro events
  have hmounted : .unmount ∉ events := by decide
  exact ⟨hmounted, run_debounces hmounted .runtime 500, by decide +kernel⟩

end Saver

end ModalEditor
