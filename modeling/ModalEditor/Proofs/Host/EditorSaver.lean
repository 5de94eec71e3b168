import ModalEditor.Proofs.Host.Debouncing
import ModalEditor.Proofs.Host.IdleSave

/-!
# The editor's saver

The debounce of the editor has a timer of its own. On the host's timers there runs a saver in its
place, which hears of time, of the end, and of the editor whenever it has settled (`Editor.history`).

Both do the same: a saver does at each event what a debounce with a timer of its own does
(`Saver.run_toDebounce`), and so the debounce of an editor after a run is the saver's
(`Editor.Tracks.run`). Hence the law of the debounced saver tells when the editor saves by itself:
`Editor.saves_when_saver_calls`.
-/

namespace ModalEditor

/-! ## A debounce with a timer of its own -/

namespace HandledDebounce

variable {d : HandledDebounce} {held : Option Timer}

/-- A debounce that has the timer itself where the host runs one. -/
def toDebounce (d : HandledDebounce) : Debounce where
  now := d.timers.now
  timer := d.timers.running.head?.map (·.due)
  last := d.last

theorem Holds.toDebounce_cancel (h : d.Holds held) : d.cancel.toDebounce = d.toDebounce.cancel := by
  rw [h.cancel]
  rfl

theorem Holds.toDebounce_flush (h : d.Holds held) :
    (d.flush.1.toDebounce, d.flush.2) = d.toDebounce.flush := by
  have hsome : d.handle.isSome = d.toDebounce.timer.isSome := by
    rw [toDebounce, h.1, h.2]
    cases held <;> rfl
  rw [flush, h.toDebounce_cancel, hsome]
  rfl

/-- A look does the same if the host takes the delay as it is. -/
theorem Holds.toDebounce_look (h : d.Holds held) {w : Watched}
    (hdelay : d.timers.host.waited w.delay = w.delay) :
    (d.look w).toDebounce = d.toDebounce.look w := by
  have hlast : d.toDebounce.last = d.last := rfl
  unfold look Debounce.look
  rw [hlast]
  split
  · rfl
  · dsimp only
    split
    · rw [Holds.arm (d := { d with last := some w }) h, hdelay]
      rfl
    · rfl

end HandledDebounce

namespace Saver

variable {s : Saver} {held : Option Timer} {host : Host} {delay : Int} {past : List Event}

theorem tick_toDebounce (h : s.debounce.Holds held) (ms : Int) :
    let answered := s.debounce.toDebounce.advance ms
    (s.tick ms).debounce.toDebounce = answered.1 ∧
      (s.tick ms).calls = s.calls ++ if answered.2 then [s.callback] else [] := by
  dsimp only
  have htimer : s.debounce.toDebounce.timer = held.map (·.due) := by
    rw [HandledDebounce.toDebounce, h.1]
    cases held <;> rfl
  cases held with
  | none =>
    rw [tick_of_not_due h nofun]
    simp only [Debounce.advance, htimer, Option.map_none]
    refine ⟨?_, (List.append_nil _).symm⟩
    rw [HandledDebounce.toDebounce, h.1]
    rfl
  | some timer =>
    simp only [Debounce.advance, htimer, Option.map_some]
    split
    case isTrue hdue =>
      rw [tick_of_due h hdue]
      exact ⟨rfl, rfl⟩
    case isFalse hdue =>
      rw [tick_of_not_due h (by rintro _ ⟨⟩; exact Int.not_le.1 hdue)]
      refine ⟨?_, (List.append_nil _).symm⟩
      rw [HandledDebounce.toDebounce, h.1]
      rfl

/-- What a debounce with a timer of its own does at an event, and whether it calls. -/
def answer (delay : Int) (d : Debounce) : Event → Debounce × Bool
  | .render version enabled _ => (d.look ⟨version, enabled, delay⟩, false)
  | .tick ms => d.advance ms
  | .flush | .unmount => d.flush
  | .cancel => (d.cancel, false)

section
variable (h : .unmount ∉ past) (hdelay : host.waited delay = delay) (event : Event)
include h hdelay

/-- **On the host's timers a saver does at each event what a debounce with a timer of its own
does**, and calls back when that one does. -/
theorem run_toDebounce :
    let s := run host delay past
    let s' := run host delay (past ++ [event])
    let answered := answer delay s.debounce.toDebounce event
    s'.debounce.toDebounce = answered.1 ∧
      s'.calls = s.calls ++ if answered.2 then [latest past] else [] := by
  intro s s' answered
  obtain ⟨hm, hstands⟩ := stands_run host delay h
  obtain ⟨held, hheld, -⟩ := hstands.pending.holds
  have hstep : s' = step delay s event := run_concat ..
  have hflush : s.flush.debounce.toDebounce = s.debounce.toDebounce.flush.1 ∧
      s.flush.calls = s.calls ++ if s.debounce.toDebounce.flush.2 then [latest past] else [] := by
    rw [flush_of_holds hheld, ← hheld.toDebounce_flush, ← hstands.callback]
    refine ⟨?_, ?_⟩
    · rw [HandledDebounce.flush, hheld.cancel]
    · rw [HandledDebounce.flush, hheld.2, Option.isSome_map]
  rw [hstep]
  cases event with
  | render version enabled callback =>
    have hasked : s.debounce.timers.host.waited delay = delay := by rw [hstands.hosted, hdelay]
    rw [step, render, if_pos hm]
    exact ⟨hheld.toDebounce_look hasked, (List.append_nil _).symm⟩
  | tick ms =>
    have := tick_toDebounce hheld ms
    rwa [hstands.callback] at this
  | flush => exact hflush
  | cancel => exact ⟨hheld.toDebounce_cancel, (List.append_nil _).symm⟩
  | unmount =>
    rw [step, unmount, if_pos hm]
    exact hflush

/-- A debounce with a timer of its own calls exactly where a timer that waits runs out. -/
theorem answer_calls_iff : (answer delay (run host delay past).debounce.toDebounce event).2 = true ↔
    ∃ armed, Waits host delay armed past ∧ Expires host delay armed past event := by
  obtain ⟨-, hcalls⟩ := run_toDebounce h hdelay event
  obtain ⟨hm, hstands⟩ := stands_run host delay h
  have hanswers := hstands.answers hm event
  rw [← run_concat] at hanswers
  by_cases hexpires : ∃ armed, Waits host delay armed past ∧ Expires host delay armed past event
  · rw [hanswers.called hexpires, List.append_cancel_left_eq] at hcalls
    exact ⟨fun _ => hexpires, fun _ => by by_contra hnot; simp [hnot] at hcalls⟩
  · rw [hanswers.silent hexpires, List.self_eq_append_right] at hcalls
    exact ⟨fun hcall => by simp [hcall] at hcalls, fun h => absurd h hexpires⟩

end

end Saver

/-! ## What the saver hears of an editor -/

namespace Editor

/-- What the saver hears of an editor that settles. -/
def rendered (e : Editor) : Saver.Event := .render e.watched.version e.watched.enabled []

/-- What the saver hears of an event itself. -/
def signal? : Event → Option Saver.Event
  | .tick ms => some (.tick ms.toNat)
  | .unmount => some .unmount
  | .input .. | .resize .. | .disk _ | .mishaps _ => none

/-- What the saver hears at an event. -/
def heard (e : Editor) (event : Event) : List Saver.Event :=
  (signal? event).toList ++ if (e.answer event).mounted then [(e.answer event).rendered] else []

/-- What the saver hears along a run. -/
def history (e : Editor) : List Event → List Saver.Event
  | [] => []
  | event :: rest => e.heard event ++ (e.step event).history rest

theorem history_concat (e : Editor) (before : List Event) (event : Event) :
    e.history (before ++ [event]) = e.history before ++ (e.run before).heard event := by
  induction before generalizing e with
  | nil => exact List.append_nil _
  | cons first rest ih => rw [List.cons_append, history, ih, history, List.append_assoc]; rfl

/-! ## One event -/

variable {e : Editor} {event : Event} {past : List Saver.Event}

theorem tick_autoSave (e : Editor) (ms : Int) : (e.tick ms).autoSave = (e.autoSave.advance ms).1 := by
  unfold tick
  dsimp only
  split
  · exact save_autoSave _
  · rfl

theorem press_mounted (e : Editor) (k : KeyPress) : (e.press k).mounted = e.mounted := by
  cases hs : e.savingKey? k with
  | none =>
    obtain ⟨e', exits, ⟨binding, settings, disk, logs, message, -, rfl⟩, hpress, -⟩ :=
      press_of_not_saving hs
    rw [hpress]
  | some a =>
    obtain ⟨⟨binding, -, rfl⟩, message, exits, hpress⟩ := press_of_saving hs
    rw [hpress]
    exact save_mounted _

theorem answer_mounted (hm : e.mounted = true) (hevent : event ≠ .unmount) :
    (e.answer event).mounted = true := by
  unfold answer
  rw [if_pos hm]
  cases event with
  | input text key => exact (press_mounted e _).trans hm
  | tick ms => exact (e.rest_mounted (.tick ms)).trans hm
  | resize | disk | mishaps => exact hm
  | unmount => exact absurd rfl hevent

theorem waited_defaultDelay : Host.waited .runtime Debounce.defaultDelay = Debounce.defaultDelay :=
  Host.waited_of_fits _ (by decide) (by decide)

/-- The saver and the debounce of the editor are both at work, and have come to the same. -/
structure Tracks (past : List Saver.Event) (e : Editor) : Prop where
  mounted : e.mounted = true
  live : .unmount ∉ past
  autoSave : (Saver.run .runtime Debounce.defaultDelay past).debounce.toDebounce = e.autoSave

namespace Tracks

theorem answer (h : Tracks past e) (hevent : event ≠ .unmount)
    (htime : ∀ ms, event = .tick ms → 0 ≤ ms) :
    Tracks (past ++ (signal? event).toList) (e.answer event) := by
  have hmounted := answer_mounted h.mounted hevent
  have hsilent (hsignal : signal? event = none) (hsame : (e.answer event).autoSave = e.autoSave) :
      Tracks (past ++ (signal? event).toList) (e.answer event) := by
    rw [hsignal, Option.toList_none, List.append_nil]
    exact ⟨hmounted, h.live, h.autoSave.trans hsame.symm⟩
  have hanswer : e.answer event = e.react event := if_pos h.mounted
  cases event with
  | input text key => exact hsilent rfl (by rw [hanswer]; exact press_autoSave e _)
  | resize | disk | mishaps => exact hsilent rfl (by rw [hanswer]; rfl)
  | unmount => exact absurd rfl hevent
  | tick ms =>
    have hms : ((ms.toNat : Nat) : Int) = ms := Int.toNat_of_nonneg (htime ms rfl)
    refine ⟨hmounted, by simpa [signal?] using h.live, ?_⟩
    have htick := (Saver.run_toDebounce h.live waited_defaultDelay (.tick ms.toNat)).1
    rw [h.autoSave, Saver.answer, hms] at htick
    rw [hanswer]
    exact htick.trans (tick_autoSave e ms).symm

theorem settle (h : Tracks past e) : Tracks (past ++ [e.rendered]) e.settle where
  mounted := h.mounted
  live := by simpa [rendered] using h.live
  autoSave := by
    have hlook := (Saver.run_toDebounce h.live waited_defaultDelay e.rendered).1
    rw [h.autoSave] at hlook
    exact hlook

/-- **One event.** -/
theorem step (h : Tracks past e) (hevent : event ≠ .unmount)
    (htime : ∀ ms, event = .tick ms → 0 ≤ ms) : Tracks (past ++ e.heard event) (e.step event) := by
  have hanswer := h.answer hevent htime
  rw [step_eq, if_pos hanswer.mounted, heard, if_pos hanswer.mounted, ← List.append_assoc]
  exact hanswer.settle

/-- **Every run** of an editor that is not put away. -/
theorem run (h : Tracks past e) (events : List Event) (hevents : .unmount ∉ events)
    (htime : ∀ ms, .tick ms ∈ events → 0 ≤ ms) :
    Tracks (past ++ e.history events) (e.run events) := by
  induction events using List.reverseRecOn with
  | nil => simpa [history, Editor.run] using h
  | append_singleton events event ih =>
    simp only [List.mem_append, List.mem_singleton, not_or] at hevents htime
    rw [history_concat, Editor.run_concat, ← List.append_assoc]
    exact (ih hevents.1 fun ms hms => htime ms (.inl hms)).step (Ne.symm hevents.2)
      fun ms hms => htime ms (.inr hms.symm)

/-- The editor saves by itself where a timer of the saver that waits runs out. -/
theorem autoSaving?_iff (h : Tracks past e) {signal : Saver.Event}
    (hsignal : signal? event = some signal) (htime : ∀ ms, event = .tick ms → 0 ≤ ms) :
    (e.autoSaving? event).isSome = true ↔
      ∃ armed, Saver.Waits .runtime Debounce.defaultDelay armed past ∧
        Saver.Expires .runtime Debounce.defaultDelay armed past signal := by
  rw [← Saver.answer_calls_iff h.live waited_defaultDelay signal, h.autoSave]
  cases event with
  | input | resize | disk | mishaps => cases hsignal
  | unmount =>
    obtain rfl : .unmount = signal := Option.some.inj hsignal
    simp [autoSaving?, saving?, h.mounted, Saver.answer]
  | tick ms =>
    obtain rfl : .tick ms.toNat = signal := Option.some.inj hsignal
    simp [autoSaving?, saving?, Saver.answer, Int.toNat_of_nonneg (htime ms rfl)]

end Tracks

/-! ## When the editor saves by itself -/

section
variable (d : Desk) (filePath : Option Path) (lineBreak : LineBreak) (settingsPath : Path)
  (settings : Settings) (columns rows : Int) (disk : Disk)

theorem tracks_mount :
    let e := mount d filePath lineBreak settingsPath settings columns rows disk
    Tracks [e.rendered] e := by
  intro e
  let fresh : Editor :=
    { binding := .mount d, filePath, lineBreak, settingsPath, settings
      width := sizeOr 80 columns, height := sizeOr 24 rows, disk }
  have hfresh : Tracks [] fresh := ⟨rfl, List.not_mem_nil, rfl⟩
  exact hfresh.settle

/-- **The editor saves by itself when its saver calls.** As long as an editor is not put away, and time
does not go back, its debounce is that of the saver. The editor saves by itself as a second has passed
since a timer was armed that has waited since, and when it is put away while one waits. -/
theorem saves_when_saver_calls (events : List Event) (hevents : .unmount ∉ events)
    (htime : ∀ ms, .tick ms ∈ events → 0 ≤ ms) :
    let start := mount d filePath lineBreak settingsPath settings columns rows disk
    let e := start.run events
    let past := start.rendered :: start.history events
    (Saver.run .runtime Debounce.defaultDelay past).debounce.toDebounce = e.autoSave ∧
      (∀ ms : Nat, Saver.elapsed past + ms + 1000 ≤ Precision.limit →
        ((e.autoSaving? (.tick ms)).isSome = true ↔
          ∃ armed, Saver.Waits .runtime Debounce.defaultDelay armed past ∧
            Saver.elapsed armed + 1000 ≤ Saver.elapsed past + ms)) ∧
      ((e.autoSaving? .unmount).isSome = true ↔
        ∃ armed, Saver.Waits .runtime Debounce.defaultDelay armed past) := by
  intro start e past
  have hmount := tracks_mount d filePath lineBreak settingsPath settings columns rows disk
  have htracks : Tracks past e := hmount.run events hevents htime
  refine ⟨htracks.autoSave, fun ms hexact => ?_, ?_⟩
  · have hms : ∀ later, Event.tick ms = .tick later → 0 ≤ later := by
      rintro _ ⟨⟩
      exact Int.natCast_nonneg ms
    rw [htracks.autoSaving?_iff rfl hms]
    refine exists_congr fun armed => and_congr_right fun hwaits => ?_
    have helapsed : Saver.elapsed (past ++ [.tick ms]) = Saver.elapsed past + ms :=
      Saver.elapsed_concat
    have hexpires : Saver.Expires .runtime Debounce.defaultDelay armed past (.tick ms) ↔
        Saver.elapsed armed + Host.waited .runtime Debounce.defaultDelay ≤
          Saver.elapsed (past ++ [.tick ms]) :=
      Saver.expires_tick_iff hwaits.part (by rw [helapsed, waited_defaultDelay]; exact hexact)
    rw [waited_defaultDelay, helapsed, Debounce.defaultDelay] at hexpires
    exact hexpires.trans (by omega)
  · have hend : signal? .unmount = some .unmount := rfl
    rw [htracks.autoSaving?_iff hend nofun]
    exact exists_congr fun armed => and_iff_left trivial

end

end Editor

end ModalEditor
