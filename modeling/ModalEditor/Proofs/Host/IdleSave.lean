import Mathlib.Data.List.Infix
import ModalEditor.Proofs.Host.AutoSave

/-!
# Saves without need

The timer of the debounce is armed while something is modified, and nothing but its running out
stops it. So a key after which nothing is modified any more, a save, an undo or an edit back to the
saved text, leaves it running (`Editor.Stranded`), and when it runs out the editor saves what is
saved already, over whatever others have made of the file meanwhile.

Only such a key strands the timer (`Editor.Stranded.back`). Hence `Editor.saves_modified_iff`: the
editor saves only what is modified when the timer runs out and when it is put away, exactly if
neither happens before the next edit after such a key.
-/

namespace ModalEditor

namespace Editor

/-- The editor as it saves by itself: when the timer runs out, or when it is put away while the
timer runs. -/
def autoSaving? (e : Editor) : Event → Option Editor
  | .input .. => none
  | event => e.saving? event

/-- The timer runs although nothing is modified. -/
def Stranded (e : Editor) : Prop :=
  e.autoSave.timer.isSome = true ∧ e.buffer.isModified = false

section
variable {e a : Editor} {event : Event}

theorem autoSaving?_spec (h : e.autoSaving? event = some a) :
    a.buffer = e.buffer ∧ e.autoSave.timer.isSome = true := by
  cases event with
  | input | resize | disk | mishaps => cases h
  | tick ms =>
    simp only [autoSaving?, saving?, Option.ite_none_right_eq_some, Option.some.injEq] at h
    obtain ⟨hdue, rfl⟩ := h
    exact ⟨rfl, Debounce.timer_of_due hdue⟩
  | unmount =>
    simp only [autoSaving?, saving?, Option.ite_none_right_eq_some, Option.some.injEq] at h
    obtain ⟨⟨-, hdue⟩, rfl⟩ := h
    exact ⟨rfl, hdue⟩

/-! ## How the timer comes to be stranded -/

/-- Settling arms the timer only for what is modified. -/
theorem Stranded.of_settle (h : e.settle.Stranded) : e.Stranded := by
  obtain ⟨htimer, hsettled⟩ := h
  have hclean : e.buffer.isModified = false := hsettled
  have hlook : (e.autoSave.look e.watched).timer = e.autoSave.timer := by
    unfold Debounce.look
    split
    · rfl
    · rw [watched, hclean, Bool.and_false]
      rfl
  exact ⟨hlook ▸ htimer, hclean⟩

/-- A key neither arms nor stops the timer, whether or not the editor saves at it. -/
theorem press_autoSave (e : Editor) (k : KeyPress) : (e.press k).autoSave = e.autoSave := by
  cases hs : e.savingKey? k with
  | none =>
    obtain ⟨e', exits, ⟨binding, settings, disk, logs, message, -, rfl⟩, hpress, -⟩ :=
      press_of_not_saving hs
    rw [hpress]
  | some a =>
    obtain ⟨⟨binding, -, rfl⟩, message, exits, hpress⟩ := press_of_saving hs
    rw [hpress]
    exact save_autoSave _

theorem Stranded.of_tick {ms : Int} (h : (e.tick ms).Stranded) : e.Stranded := by
  obtain ⟨htimer, hclean⟩ := h
  unfold tick at htimer hclean
  dsimp only at htimer hclean
  cases hdue : (e.autoSave.advance ms).2 with
  | true =>
    rw [hdue, if_pos rfl, save_autoSave, Debounce.advance_timer_of_due hdue] at htimer
    cases htimer
  | false =>
    rw [hdue, if_neg (by decide)] at htimer hclean
    dsimp only at htimer
    rw [Debounce.advance_timer_of_not_due hdue] at htimer
    exact ⟨htimer, hclean⟩

theorem not_stranded_unmount (e : Editor) : ¬ e.unmount.Stranded := by
  rintro ⟨htimer, -⟩
  unfold unmount at htimer
  dsimp only at htimer
  split at htimer
  · rw [save_autoSave] at htimer
    cases htimer
  · cases htimer

/-- **One event.** A timer is stranded by a key, after which what was modified is not any more. -/
theorem Stranded.back (h : (e.step event).Stranded) :
    e.Stranded ∨ e.buffer.isModified = true ∧ ∃ text key, event = .input text key := by
  have hanswer : (e.answer event).Stranded := by
    rw [step_eq] at h
    split at h
    · exact h.of_settle
    · exact h
  unfold answer at hanswer
  cases hm : e.mounted with
  | false =>
    rw [hm, if_neg (by decide)] at hanswer
    cases event with
    | tick ms => exact .inl (Stranded.of_tick hanswer)
    | input | resize | disk | mishaps | unmount => exact .inl hanswer
  | true =>
    rw [hm, if_pos rfl] at hanswer
    cases event with
    | tick ms => exact .inl (Stranded.of_tick hanswer)
    | unmount => exact absurd hanswer e.not_stranded_unmount
    | resize | disk | mishaps => exact .inl hanswer
    | input text key =>
      obtain ⟨htimer, -⟩ := hanswer
      rw [react, press_autoSave] at htimer
      cases hmod : e.buffer.isModified with
      | false => exact .inl ⟨htimer, hmod⟩
      | true => exact .inr ⟨rfl, text, key, rfl⟩

/-- **Every run.** Where the timer is stranded, a key has stranded it, and it has been so since. -/
theorem Stranded.since (h₀ : ¬ e.Stranded) (events : List Event) (h : (e.run events).Stranded) :
    ∃ before text key between, events = before ++ .input text key :: between ∧
      (e.run before).buffer.isModified = true ∧
      ∀ part, part <+: between → (e.run (before ++ .input text key :: part)).Stranded := by
  induction events using List.reverseRecOn with
  | nil => exact absurd h h₀
  | append_singleton events event ih =>
    have hstep := h
    rw [run_concat] at hstep
    rcases hstep.back with hbefore | ⟨hmod, text, key, rfl⟩
    · obtain ⟨before, text, key, between, rfl, hmod, hsince⟩ := ih hbefore
      refine ⟨before, text, key, between ++ [event], by simp, hmod, fun part hpart => ?_⟩
      rcases List.prefix_concat_iff.1 hpart with rfl | hpart
      · simpa using h
      · exact hsince part hpart
    · refine ⟨events, text, key, [], rfl, hmod, fun part hpart => ?_⟩
      rw [List.prefix_nil.1 hpart]
      exact h

end

section
variable (d : Desk) (p : Path) (lineBreak : LineBreak) (settingsPath : Path) (settings : Settings)
  (columns rows : Int) (disk : Disk)

theorem not_stranded_mount :
    ¬ (mount d (some p) lineBreak settingsPath settings columns rows disk).Stranded := by
  intro h
  obtain ⟨htimer, -⟩ := Stranded.of_settle h
  cases htimer

/-- **The editor saves by itself only what is modified**, along every run of an editor on a file,
exactly if after no key that leaves nothing modified of what was modified the timer keeps running
until it runs out, or until the editor is put away, before something is modified again. -/
theorem saves_modified_iff (events : List Event) :
    let start := mount d (some p) lineBreak settingsPath settings columns rows disk
    (∀ before event a, before ++ [event] <+: events →
      (start.run before).autoSaving? event = some a → a.buffer.isModified = true) ↔
    ∀ before text key between event, before ++ .input text key :: between ++ [event] <+: events →
      (start.run before).buffer.isModified = true →
      (∀ part, part <+: between → (start.run (before ++ .input text key :: part)).Stranded) →
      (start.run (before ++ .input text key :: between)).autoSaving? event = none := by
  intro start
  constructor
  · intro hsaves before text key between event hpart _ hsince
    rw [Option.eq_none_iff_forall_ne_some]
    intro a ha
    obtain ⟨hbuffer, -⟩ := autoSaving?_spec ha
    have hclean := (hsince between (List.prefix_refl _)).2
    have hmod := hsaves _ event a hpart ha
    rw [hbuffer, hclean] at hmod
    cases hmod
  · intro hnone before event a hpart ha
    obtain ⟨hbuffer, htimer⟩ := autoSaving?_spec ha
    cases hmod : a.buffer.isModified with
    | true => rfl
    | false =>
      rw [hbuffer] at hmod
      obtain ⟨before, text, key, between, rfl, hbefore, hsince⟩ :=
        Stranded.since (not_stranded_mount d p lineBreak settingsPath settings columns rows disk)
          before ⟨htimer, hmod⟩
      rw [hnone before text key between event hpart hbefore hsince] at ha
      cases ha

end

/-- `x` is typed and saved by Ctrl+S, and others write the file. A second later the timer runs out
with nothing modified, and what others wrote is gone. -/
theorem saves_unmodified :
    let vi := Interpreter.new false true true false 20
    let d : Desk := { vi, register := [], buffer := .ofText [97] 20 100 }
    let start := mount d (some [[102]]) .lf [[115]] {} 60 4 {}
    let type : Event := .input [120] {}
    let save : Event := .input [115] { ctrl := some true }
    let others : Event := .disk ⟨[([[102]], .file [111])]⟩
    let e := start.run [type, save, others]
    (∃ a, e.autoSaving? (.tick 1000) = some a ∧ a.buffer.isModified = false) ∧
      e.disk.read [[102]] = .ok [111] ∧
      (start.run [type, save, others, .tick 1000]).disk.read [[102]] = .ok [120, 97] := by
  intro vi d start type save others e
  have hclean : (e.autoSaving? (.tick 1000)).map (·.buffer.isModified) = some false := by
    decide +kernel
  obtain ⟨a, ha, hmod⟩ := Option.map_eq_some_iff.1 hclean
  exact ⟨⟨a, ha, hmod⟩, by decide +kernel, by decide +kernel⟩

end Editor

end ModalEditor
