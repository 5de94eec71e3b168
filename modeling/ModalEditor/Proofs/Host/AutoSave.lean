import ModalEditor.Proofs.Disk.Saving
import ModalEditor.Proofs.Host.Reaction

/-!
# Nothing is left unsaved

While something is modified, the timer runs, or the last save has failed on just this version of
the buffer: `Editor.Settled`, with `Editor.Guarded` for the editor before it settles. One event
keeps it (`Editor.Settled.step`): a save leaves nothing modified or is the one that failed, and a
change without a save brings a new version, at which the debounce starts the timer. `Editor.saves`
are the saves of a run, and `Editor.nothing_unsaved` is what follows for every run: if all of them
go through, nothing is modified when the editor exits or is put away.
-/

namespace ModalEditor

namespace Editor

/-! ## The invariant -/

/-- A save comes to this: the buffer is marked as saved and the file has what was saved, or nothing
is changed but for messages and what the disk has besides. -/
theorem save_spec {a : Editor} {p : Path} (hp : a.filePath = some p) :
    ∃ binding disk logs message, a.save.1 = { a with binding, disk, logs, message } ∧
      (a.binding.UpToDate → binding.UpToDate) ∧
      (a.save.2 = true ∧ binding.desk.buffer = a.buffer.markSaved ∧
          disk.read p.onDisk = .ok (TextFile.bytesOf a.buffer.text a.lineBreak) ∨
        a.save.2 = false ∧ binding = a.binding) := by
  unfold save
  rw [hp]
  dsimp only
  cases hs : TextFile.saveWith a.disk a.mishaps p a.buffer.text a.lineBreak with
  | mk disk cause =>
    cases cause with
    | none =>
      have hmarked : a.buffer.Shows (· = Binding.watcher) a.buffer.markSaved :=
        a.buffer.step_shows .markSaved fun _ _ => ⟨nofun, nofun⟩
      exact ⟨_, disk, _, _, rfl, fun h => h.update hmarked,
        .inl ⟨rfl, rfl, Disk.read_of_saveWith_ok hs⟩⟩
    | some cause => exact ⟨_, disk, _, _, rfl, id, .inr ⟨rfl, rfl⟩⟩

/-- What is modified is waited for, or the last save failed on it; `last?` is the editor at the last
save. Before the editor settles, it may also be that the debounce is still to look. -/
structure Guarded (e : Editor) (last? : Option Editor) : Prop where
  named : e.filePath.isSome = true
  upToDate : e.binding.UpToDate
  stopped : e.mounted = false → e.autoSave.timer = none
  unsaved : e.buffer.isModified = true → e.autoSave.timer.isSome = true ∨
    (∃ a, last? = some a ∧ a.save.2 = false ∧ a.buffer.version = e.buffer.version) ∨
    e.mounted = true ∧ e.autoSave.last ≠ some e.watched

/-- A guarded editor whose debounce is up to date. -/
structure Settled (e : Editor) (last? : Option Editor) : Prop extends e.Guarded last? where
  looked : e.mounted = true → e.autoSave.last = some e.watched

section
variable {e : Editor} {last? : Option Editor} {event : Event}

theorem Settled.timer_or_failed (h : e.Settled last?) (hm : e.buffer.isModified = true) :
    e.autoSave.timer.isSome = true ∨
      ∃ a, last? = some a ∧ a.save.2 = false ∧ a.buffer.version = e.buffer.version := by
  rcases h.unsaved hm with ht | hf | ⟨hmount, hlast⟩
  · exact .inl ht
  · exact .inr hf
  · exact absurd (h.looked hmount) hlast

/-- **Settling** starts the timer for what was modified since the last look. -/
theorem Guarded.settle (h : e.Guarded last?) (hm : e.mounted = true) : e.settle.Settled last? where
  named := h.named
  upToDate := ⟨h.upToDate.version, h.upToDate.watches⟩
  stopped hu := absurd (hm.symm.trans hu) (by decide)
  unsaved hmod := by
    have hauto : e.settle.autoSave = e.autoSave.look e.watched := rfl
    have henabled : e.watched.enabled = true := by
      rw [watched, h.named]
      exact hmod
    rw [hauto, Debounce.look]
    by_cases hlast : e.autoSave.last = some e.watched
    · rw [if_pos hlast]
      rcases h.unsaved hmod with ht | hf | ⟨-, hnot⟩
      · exact .inl ht
      · exact .inr (.inl hf)
      · exact absurd hlast hnot
    · rw [if_neg hlast, henabled]
      exact .inl rfl
  looked _ := Debounce.look_last _ _

/-- **One event**, at which nothing is saved. -/
theorem Settled.rests {e' : Editor} (h : e.Settled last?) (hr : e.Rests e') : e'.Guarded last? where
  named := hr.filePath ▸ h.named
  upToDate := hr.binding.upToDate h.upToDate
  stopped hu := by
    rcases hr.stopped hu with hm | ht
    · exact hr.timer ▸ h.stopped hm
    · exact ht
  unsaved hmod := by
    by_cases hv : e'.buffer.version = e.buffer.version
    · have hsame : e'.buffer.isModified = e.buffer.isModified := hr.binding.buffer.isModified hv
      rw [hsame] at hmod
      rw [hr.timer, hv]
      exact (h.timer_or_failed hmod).imp_right .inl
    · -- in another version, the debounce has not looked yet
      right; right
      have hne : e'.binding ≠ e.binding := fun he => hv (by rw [buffer, he]; rfl)
      obtain ⟨hm, hm'⟩ := hr.moved.resolve_left hne
      refine ⟨hm', fun hlast => hv ?_⟩
      rw [hr.last, h.looked hm] at hlast
      have hversion := congrArg Watched.version (Option.some.inj hlast)
      have hshown := (hr.binding.upToDate h.upToDate).version
      have hold := h.upToDate.version
      simp only [watched, buffer] at hversion ⊢
      omega

/-- **One event**, at which the editor saves. -/
theorem Settled.saves {a : Editor} (h : e.Settled last?) (ha : e.saving? event = some a) :
    (e.answer event).Guarded (some a) := by
  obtain ⟨hfile, -, hfollows, message, exits, mounted, hanswer, hstopped⟩ := answer_of_saving ha
  obtain ⟨p, hp⟩ := Option.isSome_iff_exists.1 h.named
  obtain ⟨binding, disk, logs, message', hsave, hup, hresult⟩ := save_spec (hfile.trans hp)
  rw [hanswer, hsave]
  refine ⟨hfile ▸ h.named, hup (hfollows.upToDate h.upToDate), fun hu => ?_, fun hmod => ?_⟩
  · exact hstopped.resolve_left fun hm => absurd (hm.symm.trans hu) (by decide)
  · rcases hresult with ⟨-, hbuffer, -⟩ | ⟨hfailed, hbinding⟩
    · -- what was saved is not modified
      have hclean : a.buffer.markSaved.isModified = false := bne_self_eq_false _
      rw [← hbuffer] at hclean
      exact absurd (hclean.symm.trans hmod) (by decide)
    · exact .inr (.inl ⟨a, rfl, hfailed, congrArg (·.desk.buffer.version) hbinding.symm⟩)

/-- **One event.** -/
theorem Settled.step (h : e.Settled last?) (event : Event) :
    (e.step event).Settled ((e.saving? event).or last?) := by
  have hanswer : (e.answer event).Guarded ((e.saving? event).or last?) := by
    cases hs : e.saving? event with
    | none => exact h.rests (answer_of_not_saving hs)
    | some a => exact h.saves hs
  rw [step_eq]
  cases hm : (e.answer event).mounted with
  | true => exact hanswer.settle hm
  | false => exact ⟨hanswer, fun hm' => absurd (hm.symm.trans hm') (by decide)⟩

theorem saves_cons (e : Editor) (event : Event) (rest : List Event) (last? : Option Editor) :
    (e.saves (event :: rest)).getLast?.or last? =
      ((e.step event).saves rest).getLast?.or ((e.saving? event).or last?) := by
  have hone : (e.saving? event).toList.getLast? = e.saving? event := by
    cases e.saving? event <;> rfl
  rw [saves, List.getLast?_append, hone, Option.or_assoc]

/-- **Every run.** -/
theorem Settled.run (h : e.Settled last?) (events : List Event) :
    (e.run events).Settled ((e.saves events).getLast?.or last?) := by
  induction events generalizing e last? with
  | nil => exact h
  | cons event rest ih =>
    rw [saves_cons]
    exact ih (h.step event)

end

/-! ## What was saved -/

section
variable {e : Editor} {last? : Option Editor} {event : Event} {p : Path}

/-- What settling leaves alone is what the answer to the event has made of it. -/
theorem step_of_settle {α : Type} {f : Editor → α} (h : ∀ e, f (settle e) = f e) (e : Editor)
    (event : Event) : f (e.step event) = f (e.answer event) := by
  rw [step_eq]
  split
  · exact h _
  · rfl

/-- What an event leaves at which a save goes through. -/
structure Stores (e : Editor) (p : Path) (a e' : Editor) : Prop where
  savedText : e'.buffer.savedText = a.buffer.text
  clean : e'.buffer.isModified = false
  written : a.save.1.disk.read p.onDisk = .ok (TextFile.bytesOf a.buffer.text e.lineBreak)

theorem answer_stores {a : Editor} (hp : e.filePath = some p) (ha : e.saving? event = some a)
    (hok : a.save.2 = true) : e.Stores p a (e.answer event) := by
  obtain ⟨hfile, hline, -, message, exits, mounted, hanswer, -⟩ := answer_of_saving ha
  obtain ⟨binding, disk, logs, message', hsave, -, hresult⟩ := save_spec (hfile.trans hp)
  rcases hresult with ⟨-, hbuffer, hread⟩ | ⟨hfailed, -⟩
  · rw [hline] at hread
    rw [hanswer, hsave]
    refine ⟨congrArg Buffer.savedText hbuffer, ?_, by rw [hsave]; exact hread⟩
    exact (congrArg Buffer.isModified hbuffer).trans (bne_self_eq_false _)
  · exact absurd (hok.symm.trans hfailed) (by decide)

theorem step_stores {a : Editor} (hp : e.filePath = some p) (ha : e.saving? event = some a)
    (hok : a.save.2 = true) : e.Stores p a (e.step event) := by
  have h := answer_stores hp ha hok
  refine ⟨?_, ?_, h.written⟩
  · rw [step_of_settle (f := (·.buffer.savedText)) fun _ => rfl]
    exact h.savedText
  · rw [step_of_settle (f := (·.buffer.isModified)) fun _ => rfl]
    exact h.clean

theorem step_file (hp : e.filePath = some p) (event : Event) :
    (e.step event).filePath = some p ∧ (e.step event).lineBreak = e.lineBreak := by
  rw [step_of_settle (f := (·.filePath)) fun _ => rfl,
    step_of_settle (f := (·.lineBreak)) fun _ => rfl]
  cases hs : e.saving? event with
  | none =>
    have hr := answer_of_not_saving hs
    exact ⟨hr.filePath.trans hp, hr.lineBreak⟩
  | some a =>
    obtain ⟨hfile, hline, -, message, exits, mounted, hanswer, -⟩ := answer_of_saving hs
    obtain ⟨binding, disk, logs, message', hsave, -⟩ := save_spec (hfile.trans hp)
    rw [hanswer, hsave]
    exact ⟨hfile.trans hp, hline⟩

theorem read_of_saves (hp : e.filePath = some p) (events : List Event) :
    ∀ a ∈ e.saves events, a.save.2 = true →
      a.save.1.disk.read p.onDisk = .ok (TextFile.bytesOf a.buffer.text e.lineBreak) := by
  induction events generalizing e with
  | nil => exact fun a ha => absurd ha List.not_mem_nil
  | cons event rest ih =>
    intro a ha hok
    obtain ⟨hfile, hline⟩ := step_file hp event
    rcases List.mem_append.1 ha with ha | ha
    · exact (step_stores hp (Option.mem_toList.1 ha) hok).written
    · rw [← hline]
      exact ih hfile a ha hok

theorem run_savedText (hp : e.filePath = some p) (events : List Event)
    (h : ∀ a ∈ e.saves events, a.save.2 = true) : (e.run events).buffer.savedText =
      ((e.saves events).getLast?.map (·.buffer.text)).getD e.buffer.savedText := by
  induction events generalizing e with
  | nil => rfl
  | cons event rest ih =>
    have hrest := ih (step_file hp event).1 fun a ha => h a (List.mem_append_right _ ha)
    refine hrest.trans ?_
    cases hs : e.saving? event with
    | none =>
      have hkept : (e.step event).buffer.savedText = e.buffer.savedText := by
        rw [step_of_settle (f := (·.buffer.savedText)) fun _ => rfl]
        exact (answer_of_not_saving hs).binding.buffer.savedText
      rw [saves, hs, hkept]
      rfl
    | some a =>
      have hok : a.save.2 = true := h a (by rw [saves, hs]; exact List.mem_cons_self)
      rw [saves, hs, Option.toList_some, List.singleton_append, List.getLast?_cons,
        (step_stores hp hs hok).savedText]
      cases ((e.step event).saves rest).getLast? <;> rfl

theorem saves_concat (e : Editor) (before : List Event) (event : Event) :
    e.saves (before ++ [event]) =
      e.saves before ++ ((e.run before).saving? event).toList := by
  induction before generalizing e with
  | nil => exact List.append_nil _
  | cons first rest ih => rw [List.cons_append, saves, ih, saves, List.append_assoc]; rfl

theorem run_concat (e : Editor) (before : List Event) (event : Event) :
    e.run (before ++ [event]) = (e.run before).step event := List.foldl_append

theorem run_file (hp : e.filePath = some p) (events : List Event) :
    (e.run events).filePath = some p := by
  induction events generalizing e with
  | nil => exact hp
  | cons event rest ih => exact ih (step_file hp event).1

/-- The last of the events makes the editor exit. -/
def ExitsAt (e : Editor) (events : List Event) : Prop :=
  ∃ before event, events = before ++ [event] ∧ (e.run before).exits < (e.run events).exits

theorem ExitsAt.clean {events : List Event} (h : e.ExitsAt events) (hp : e.filePath = some p)
    (hok : ∀ a ∈ e.saves events, a.save.2 = true) : (e.run events).buffer.isModified = false := by
  obtain ⟨before, event, rfl, hexits⟩ := h
  rw [run_concat] at hexits ⊢
  rw [saves_concat] at hok
  have hfile := run_file hp before
  cases hs : (e.run before).saving? event with
  | some a =>
    have ha : a ∈ ((e.run before).saving? event).toList := Option.mem_toList.2 hs
    exact (step_stores hfile hs (hok a (List.mem_append_right _ ha))).clean
  | none =>
    have hr := answer_of_not_saving hs
    rw [step_of_settle (f := Editor.exits) fun _ => rfl] at hexits
    rw [step_of_settle (f := (·.buffer.isModified)) fun _ => rfl]
    rcases hr.exits with heq | hclean
    · omega
    · rw [hr.filePath, hfile] at hclean
      exact hclean

theorem Settled.clean {events : List Event} (h : (e.run events).Settled (e.saves events).getLast?)
    (hm : (e.run events).mounted = false) (hok : ∀ a ∈ e.saves events, a.save.2 = true) :
    (e.run events).buffer.isModified = false := by
  rw [Bool.eq_false_iff]
  intro hmod
  rcases h.timer_or_failed hmod with ht | ⟨a, ha, hfailed, -⟩
  · rw [h.stopped hm] at ht
    cases ht
  · exact absurd ((hok a (List.mem_of_getLast? ha)).symm.trans hfailed) (by decide)

end

section
variable (d : Desk) (p : Path) (lineBreak : LineBreak) (settingsPath : Path) (settings : Settings)
  (columns rows : Int) (disk : Disk)

theorem mount_settled :
    (mount d (some p) lineBreak settingsPath settings columns rows disk).Settled none :=
  Guarded.settle ⟨rfl, ⟨rfl, Binding.mount_watches d⟩, nofun, fun _ => .inr (.inr ⟨rfl, nofun⟩)⟩ rfl

/-- **Nothing is left unsaved.** Along every run of an editor on a file: what is modified is waited
for by the timer, or the last save failed and the buffer is still of the version that was to be
saved. Every save that goes through leaves the file with the text in the breaks of the session. So
if all saves of the run go through, then when the editor exits, and from the time on when it is put
away, nothing is modified: the text is the one saved last, or the one loaded if nothing was saved.
-/
theorem nothing_unsaved (events : List Event) :
    let start := mount d (some p) lineBreak settingsPath settings columns rows disk
    let e := start.run events
    let saves := start.saves events
    (e.buffer.isModified = true → e.autoSave.timer.isSome = true ∨
      ∃ a, saves.getLast? = some a ∧ a.save.2 = false ∧ a.buffer.version = e.buffer.version) ∧
    (∀ a ∈ saves, a.save.2 = true →
      a.save.1.disk.read p.onDisk = .ok (TextFile.bytesOf a.buffer.text lineBreak)) ∧
    ((∀ a ∈ saves, a.save.2 = true) → e.mounted = false ∨ start.ExitsAt events →
      e.buffer.isModified = false ∧
      e.buffer.text = (saves.getLast?.map (·.buffer.text)).getD d.buffer.savedText) := by
  intro start e saves
  have hfile : start.filePath = some p := rfl
  have hrun := (mount_settled d p lineBreak settingsPath settings columns rows disk).run events
  rw [Option.or_none] at hrun
  refine ⟨hrun.timer_or_failed, read_of_saves hfile events, fun hok hend => ?_⟩
  have hclean : e.buffer.isModified = false :=
    hend.elim (fun hm => Settled.clean hrun hm hok) fun hx => hx.clean hfile hok
  have htext : e.buffer.text = e.buffer.savedText := by simpa [Buffer.isModified] using hclean
  exact ⟨hclean, htext.trans (run_savedText hfile events hok)⟩

end

/-- A character is deleted, and Ctrl+Q then saves and leaves. -/
theorem nothing_unsaved_after_quit :
    let vi := Interpreter.new true true true false 20
    let d : Desk := { vi, register := [], buffer := .ofText [97, 98] 20 100 }
    let start := mount d (some [[102]]) .crlf [[115]] {} 80 24 {}
    let delete : Event := .input [120] {}
    let quit : Event := .input [113] { ctrl := some true }
    let e := start.run [delete, quit]
    let saves := start.saves [delete, quit]
    ((start.run [delete]).buffer.isModified = true ∧
      ((start.run [delete]).autoSave.timer.isSome = true ∨ ∃ a,
        (start.saves [delete]).getLast? = some a ∧ a.save.2 = false ∧
          a.buffer.version = (start.run [delete]).buffer.version)) ∧
    ((∀ a ∈ saves, a.save.2 = true) ∧ start.ExitsAt [delete, quit]) ∧
      e.buffer.isModified = false ∧
      e.buffer.text = (saves.getLast?.map (·.buffer.text)).getD [97, 98] := by
  intro vi d start delete quit e saves
  have hmod : (start.run [delete]).buffer.isModified = true := by decide
  have hok : ∀ a ∈ saves, a.save.2 = true := by decide
  have hexit : start.ExitsAt [delete, quit] := ⟨[delete], quit, rfl, by decide⟩
  exact ⟨⟨hmod, (nothing_unsaved d [[102]] .crlf [[115]] {} 80 24 {} [delete]).1 hmod⟩,
    ⟨hok, hexit⟩,
    (nothing_unsaved d [[102]] .crlf [[115]] {} 80 24 {} [delete, quit]).2.2 hok (.inr hexit)⟩

end Editor

end ModalEditor
