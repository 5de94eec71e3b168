import Mathlib.Data.List.Infix
import ModalEditor.Proofs.Host.AutoSave
import ModalEditor.Proofs.Host.Freshness
import ModalEditor.Proofs.View.Rows

/-!
# The caret is always on the screen

The editor carries the first line it shows from frame to frame, while the text, the cursor and the
terminal change in between. No event moves it, and none brings the cursor out of the text
(`Editor.answer_carries`); settling moves it to the nearest place that shows the cursor's line
(`Editor.settle_framed`). `Editor.run_framed` is what follows for every run: each frame
shows the cursor's line, the window is moved only where it has to be and then no further than needed,
and the one caret of the window is in the row of the cursor's line.
-/

namespace ModalEditor

theorem Text.lineAt_le_length (t : Text) (o : Int) : t.lineAt o ≤ t.length := by
  rw [lineAt_eq_count]
  exact List.count_le_length.trans (List.length_take_le' ..)

namespace Editor

/-! ## What events leave for the frame -/

/-- The cursor of the buffer lies in its text. -/
def CursorInside (e : Editor) : Prop := e.buffer.CursorInside

/-- From the first editor to the second the window is not moved, and the cursor stays inside the text
if it was. -/
structure Carries (e e' : Editor) : Prop where
  top : e'.top = e.top
  inside : e.CursorInside → e'.CursorInside

variable {e e' e'' : Editor}

theorem Carries.refl (e : Editor) : e.Carries e := ⟨rfl, id⟩

theorem Carries.trans (h : e.Carries e') (h' : e'.Carries e'') : e.Carries e'' :=
  ⟨h'.top.trans h.top, h'.inside ∘ h.inside⟩

section
variable (e : Editor)

theorem save_carries : e.Carries e.save.1 := by
  unfold save
  split
  · exact ⟨rfl, id⟩
  · split <;> exact ⟨rfl, id⟩

theorem save_if_carries (due : Prop) [Decidable due] :
    e.Carries (if due then e.save.1 else e) := by
  split
  · exact e.save_carries
  · exact .refl e

theorem travel_carries (label : Text) (description : Option Text) {outcome : Buffer × Option Int}
    (h : e.CursorInside → outcome.1.CursorInside) :
    e.Carries (e.travel label description outcome) := by
  unfold travel
  split
  · exact ⟨rfl, fun _ => Buffer.setCursor_inside _ _⟩
  · exact ⟨rfl, h⟩

theorem persist_carries (c : SettingsChange) : e.Carries (e.persist c) := by
  unfold persist
  dsimp only
  split <;> exact ⟨rfl, id⟩

theorem setVi_carries (v : Interpreter) (c : SettingsChange) :
    e.Carries ((e.setDesk { e.binding.desk with vi := v }).persist c) :=
  let e' := e.setDesk { e.binding.desk with vi := v }
  ⟨(e'.persist_carries c).top, (e'.persist_carries c).inside⟩

theorem scroll_carries (direction : Direction) :
    e.Carries (e.setDesk (e.binding.desk.scroll direction)) :=
  ⟨rfl, (e.binding.desk.step_keeps (.scroll direction)).2⟩

theorem hostKey_carries (k : KeyPress) : e.Carries (e.hostKey k) := by
  unfold hostKey
  split
  · exact .refl e
  · split
    · have hsave := e.save_carries
      cases hs : e.save with
      | mk e' went =>
        rw [hs] at hsave
        cases went <;> exact ⟨hsave.top, hsave.inside⟩
    · have hsave := e.save_if_carries ((e.filePath.isSome && e.buffer.isModified) = true)
      exact ⟨hsave.top, hsave.inside⟩
    · exact e.travel_carries _ _ Buffer.undo_inside
    · exact e.travel_carries _ _ Buffer.redo_inside
    · exact e.scroll_carries .down
    · exact e.scroll_carries .up
    · have hset := e.setVi_carries (e.binding.desk.vi.setEnabled !e.binding.desk.vi.enabled)
        { viMode := some !e.binding.desk.vi.enabled }
      exact ⟨hset.top, hset.inside⟩
    · exact e.setVi_carries (e.binding.desk.vi.setBlockCursor !e.settings.blockCursor) _
    · exact .refl e

theorem press_carries (k : KeyPress) : e.Carries (e.press k) := by
  obtain ⟨o, ho⟩ := e.binding.press_answers (some fun _ => true) k
  let e' : Editor :=
    { e with message := none, binding := e.binding.update (e.binding.desk.step (.offer k)) }
  have he' : e.Carries e' := ⟨rfl, (e.binding.desk.step_keeps (.offer k)).2⟩
  have hpress : e.press k = if o.offered then e'.hostKey k else e' := by
    simp only [press, ho, e']
  rw [hpress]
  split
  · exact he'.trans (e'.hostKey_carries k)
  · exact he'

theorem tick_carries (ms : Int) : e.Carries (e.tick ms) :=
  let e' : Editor := { e with autoSave := (e.autoSave.advance ms).1 }
  have hsave := e'.save_if_carries ((e.autoSave.advance ms).2 = true)
  ⟨hsave.top, hsave.inside⟩

theorem unmount_carries : e.Carries e.unmount :=
  let e' : Editor := { e with autoSave := e.autoSave.flush.1 }
  have hsave := e'.save_if_carries (e.autoSave.flush.2 = true)
  ⟨hsave.top, hsave.inside⟩

/-- **No event** moves the window or brings the cursor out of the text before the editor settles. -/
theorem answer_carries (event : Event) : e.Carries (e.answer event) := by
  unfold answer
  split
  · cases event with
    | input text key => exact e.press_carries _
    | tick ms => exact e.tick_carries ms
    | unmount => exact e.unmount_carries
    | resize | disk | mishaps => exact ⟨rfl, id⟩
  · cases event with
    | tick ms => exact e.tick_carries ms
    | input | resize | disk | mishaps | unmount => exact ⟨rfl, id⟩

end

/-! ## Frames -/

/-- What the editor shows, where `before` was the first line shown in the frame before. -/
structure Framed (e : Editor) (before : Int) : Prop where
  shows : Window.Shows e.top e.cursorLine e.textHeight
  /-- The window stays where it was if the cursor's line was in it there, -/
  kept : Window.Shows before e.cursorLine e.textHeight → e.top = before
  /-- and otherwise at the nearest place that shows the line. -/
  nearest : ∀ other, Window.Shows other e.cursorLine e.textHeight → other ≠ e.top →
    (e.top - before).natAbs < (other - before).natAbs
  length : (e.window.children.length : Int) =
    min (e.buffer.text.lineCount : Int) (e.top + e.textHeight) - e.top
  row : ∀ i : Nat, i < e.window.children.length → e.window.children[i]? =
    some (Window.row e.buffer.text e.buffer.cursor e.binding.shown.style (e.top + i))
  /-- A row has the number and the text of its line. -/
  runs : ∀ (i : Nat) (row : Element), e.window.children[i]? = some row →
    let line := e.top + i
    let text := e.buffer.text.lineText line
    row.runs = [Window.gutter (Text.ofNat e.buffer.text.lineCount).length line,
      text ++ if line = e.cursorLine ∧ e.buffer.cursor.position = e.buffer.text.lineEnd line ∨
        text = [] then [space] else []]
  /-- The caret is in the row of the cursor's line. -/
  caret : ∀ (i : Nat) (row : Element), e.window.children[i]? = some row →
    row.count (Window.caretProps e.binding.shown.style) = if e.top + i = e.cursorLine then 1 else 0
  carets : e.window.count (Window.caretProps e.binding.shown.style) = 1

/-- All of a frame follows from where the window is. -/
theorem Framed.of_nearest {before : Int} (hinside : e.CursorInside)
    (hshows : Window.Shows e.top e.cursorLine e.textHeight)
    (hnearest : ∀ other, Window.Shows other e.cursorLine e.textHeight → other ≠ e.top →
      (e.top - before).natAbs < (other - before).natAbs) : e.Framed before := by
  have hline : e.cursorLine < e.buffer.text.lineCount := Int.ofNat_lt.2 (Text.lineAt_lt ..)
  obtain ⟨hlength, hrow⟩ :=
    Window.render_rows e.buffer.cursor e.binding.shown.style hshows hline
  have hrows (i : Nat) (row : Element) (h : e.window.children[i]? = some row) :
      row = Window.row e.buffer.text e.buffer.cursor e.binding.shown.style (e.top + i) := by
    obtain ⟨hi, -⟩ := List.getElem?_eq_some_iff.1 h
    exact Option.some.inj (h.symm.trans (hrow i hi))
  refine ⟨hshows, fun hbefore => ?_, hnearest, hlength, hrow, fun i row h => ?_, fun i row h => ?_,
    Window.count_render hinside hshows⟩
  · by_contra hne
    have := hnearest before hbefore (Ne.symm hne)
    omega
  · rw [hrows i row h]
    exact Window.row_runs hinside
  · rw [hrows i row h]
    exact Window.count_row hinside

/-- **Settling** makes a frame. -/
theorem settle_framed (htop : 0 ≤ e.top) (hinside : e.CursorInside)
    (hfit : e.buffer.text.length < Precision.limit) : e.settle.Framed e.top := by
  have hline : e.cursorLine < Precision.limit := by
    have := e.buffer.text.lineAt_le_length e.buffer.cursor.position
    unfold cursorLine
    omega
  obtain ⟨hshows, hnearest⟩ : Window.Shows e.settle.top e.settle.cursorLine e.settle.textHeight ∧ _ :=
    Window.follow_nearest htop (Int.natCast_nonneg _) hline (Int.le_max_left 1 _)
  exact .of_nearest hinside hshows hnearest

theorem CursorInside.step (h : e.CursorInside) (event : Event) : (e.step event).CursorInside := by
  rw [step_eq]
  split <;> exact (e.answer_carries event).inside h

section
variable {event : Event} (htop : 0 ≤ e.top) (hinside : e.CursorInside)
  (hfit : (e.step event).buffer.text.length < Precision.limit)
include htop hinside hfit

/-- **One event** that leaves the editor mounted is followed by a frame. -/
theorem step_framed (hm : (e.step event).mounted = true) : (e.step event).Framed e.top := by
  have hmounted : (e.step event).mounted = (e.answer event).mounted := by
    rw [step_eq]
    split <;> rfl
  rw [hmounted] at hm
  rw [step_eq, if_pos hm] at hfit ⊢
  have hcarries := e.answer_carries event
  rw [← hcarries.top]
  exact settle_framed (hcarries.top ▸ htop) (hcarries.inside hinside) hfit

theorem step_top_nonneg : 0 ≤ (e.step event).top := by
  cases hm : (e.step event).mounted with
  | true => exact (step_framed htop hinside hfit hm).shows.1
  | false =>
    rw [step_eq] at hm ⊢
    split at hm
    · rename_i hmounted
      exact absurd (hmounted.symm.trans hm) (by decide)
    · rename_i hmounted
      rw [if_neg hmounted, (e.answer_carries event).top]
      exact htop

end

theorem run_stays {events : List Event} (htop : 0 ≤ e.top) (hinside : e.CursorInside)
    (hfit : ∀ part, part <+: events → (e.run part).buffer.text.length < Precision.limit) :
    0 ≤ (e.run events).top ∧ (e.run events).CursorInside := by
  induction events using List.reverseRecOn with
  | nil => exact ⟨htop, hinside⟩
  | append_singleton events event ih =>
    obtain ⟨htop, hinside⟩ := ih fun part hpart => hfit part (hpart.trans (List.prefix_append _ _))
    have hfit := hfit _ (List.prefix_refl _)
    rw [run_concat] at hfit ⊢
    exact ⟨step_top_nonneg htop hinside hfit, hinside.step event⟩

/-- **The caret is always on the screen.** Put an editor into a terminal and let any events happen:
keys, time, saves, and changes of the terminal's size to anything. The first frame and the one after
each event that leaves the editor mounted show the cursor's line in the window, which is moved from
where it was in the frame before, first at line 0, only where it has to be, and then no further than
needed. The window holds the rows that fit, with one caret in the cursor's row and none in the others.
The cursor of a buffer is inside the text whatever has been done with it (`Buffer.step_inside`), and
offsets are kept at double precision, so that no text has 2⁵³ code units or more; `hd` and `hfit` say so
of the first buffer and of the texts of the run. -/
theorem run_framed {d : Desk} (hd : d.buffer.CursorInside) (filePath : Option Path)
    (lineBreak : LineBreak) (settingsPath : Path) (settings : Settings) (columns rows : Int)
    (disk : Disk) {events : List Event}
    (hfit : ∀ part, part <+: events →
      ((mount d filePath lineBreak settingsPath settings columns rows disk).run
        part).buffer.text.length < Precision.limit) :
    let start := mount d filePath lineBreak settingsPath settings columns rows disk
    start.Framed 0 ∧ ∀ before event, before ++ [event] <+: events →
      (start.run (before ++ [event])).mounted = true →
      (start.run (before ++ [event])).Framed (start.run before).top := by
  intro start
  have hinside : start.CursorInside := hd
  have hstart : start.Framed 0 := settle_framed (Int.le_refl 0) hd (hfit [] List.nil_prefix)
  refine ⟨hstart, fun before event hpart hm => ?_⟩
  have hfitAfter := hfit _ hpart
  obtain ⟨htop, hinside⟩ := run_stays hstart.shows.1 hinside fun part hbefore =>
    hfit part ((hbefore.trans (List.prefix_append _ _)).trans hpart)
  rw [run_concat] at hm hfitAfter ⊢
  exact step_framed htop hinside hfitAfter hm

/-- Two lines of four fit, and after a resize one. The window follows the cursor down by `jj` and `G`,
and up again when `dd` takes the last line. -/
theorem framed_after_resize :
    let vi := Interpreter.new true true true false 20
    let d : Desk := { vi, register := [], buffer := .ofText [97, 10, 98, 10, 99, 10, 100] 20 100 }
    let start := mount d none .lf [[115]] {} 60 4 {}
    let key (c : CodeUnit) : Event := .input [c] {}
    let before := [key 106, key 106, .resize 60 (-7), key 71, key 100]
    let event := key 100
    let e := start.run (before ++ [event])
    (d.buffer.CursorInside ∧
      (∀ part, part <+: before ++ [event] →
        (start.run part).buffer.text.length < Precision.limit) ∧ e.mounted = true) ∧
      start.Framed 0 ∧ e.Framed (start.run before).top ∧
      (start.top, (start.run [key 106, key 106]).top, (start.run before).top, e.top) = (0, 1, 3, 2) := by
  intro vi d start key before event e
  have hd : d.buffer.CursorInside := ⟨⟨by decide, by decide⟩, by decide, by decide⟩
  have hfit : ∀ part ∈ (before ++ [event]).inits,
      (start.run part).buffer.text.length < Precision.limit := by decide +kernel
  have hfit : ∀ part, part <+: before ++ [event] →
      (start.run part).buffer.text.length < Precision.limit :=
    fun part hpart => hfit part ((List.mem_inits _ _).2 hpart)
  have hm : e.mounted = true := by decide +kernel
  obtain ⟨hstart, hframes⟩ := run_framed hd none .lf [[115]] {} 60 4 {} hfit
  exact ⟨⟨hd, hfit, hm⟩, hstart, hframes before event (List.prefix_refl _) hm, by decide +kernel⟩

end Editor

end ModalEditor
