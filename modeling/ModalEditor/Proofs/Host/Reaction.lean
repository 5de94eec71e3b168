import ModalEditor.Host.Editor
import ModalEditor.Proofs.Buffer.Version

/-!
# What an event does to an editor

An event either makes the editor save or it does not. `Editor.saving?` is the editor at the moment
before it saves: at Ctrl+S, at Ctrl+Q if there is something to save, when the timer runs out, and
when the editor is put away while the timer runs. At such an event the answer is that save, and but
for messages nothing else (`Editor.answer_of_saving`). At every other event the file, the timer and
what the debounce has seen stay as they are, what was saved last stays, and the buffer is changed
by keys of a mounted editor only (`Editor.answer_of_not_saving`). `Editor.step_eq`: after its
answer, a mounted editor settles.
-/

namespace ModalEditor

/-! ## Bindings -/

namespace Binding

/-- What is shown is of the version of the buffer, and the binding watches it. -/
structure UpToDate (b : Binding) : Prop where
  version : b.shown.version = b.desk.buffer.version
  watches : ∃ w, b.desk.buffer.watcher? watcher = some w ∧ 0 < w.standing

/-- The second binding comes about from the first without loading and saving. -/
structure Follows (b b' : Binding) : Prop where
  buffer : b.desk.buffer.Follows b'.desk.buffer
  upToDate : b.UpToDate → b'.UpToDate

variable {b b' b'' : Binding} {d : Desk}

theorem mount_watches (d : Desk) :
    ∃ w, (mount d).desk.buffer.watcher? watcher = some w ∧ 0 < w.standing :=
  d.buffer.watcher?_subscribe_self watcher

/-- Where the version of a watched buffer has risen, the binding was called. -/
theorem version_eq_of_not_isOutdatedBy {shown : Display} {old new : Buffer} {w : Watcher Snapshot}
    (hw : old.watcher? watcher = some w) (hpos : 0 < w.standing)
    (hnew : old.Shows (· = watcher) new) (hshown : shown.version = old.version)
    (h : isOutdatedBy shown old new = false) : shown.version = new.version := by
  by_cases hv : new.version = old.version
  · rw [hshown, hv]
  have hlt : old.version < new.version := Nat.lt_of_le_of_ne hnew.version (Ne.symm hv)
  obtain ⟨w', hw', hstanding, hcalls⟩ := hnew.watcher watcher rfl w hw
  have hseen := hnew.seen hlt watcher rfl w' hw' (hstanding ▸ hpos)
  have hcalled : w'.calls ≠ w.calls := by
    have := Nat.mul_pos hpos (Nat.sub_pos_of_lt hlt)
    omega
  have hsame : new.snapshot.version = shown.version := by
    simpa [isOutdatedBy, hw, hw', hcalled, hseen] using h
  exact hsame.symm

theorem UpToDate.update (h : b.UpToDate) (hd : b.desk.buffer.Shows (· = watcher) d.buffer) :
    (b.update d).UpToDate := by
  obtain ⟨w, hw, hpos⟩ := h.watches
  obtain ⟨w', hw', hstanding, -⟩ := hd.watcher watcher rfl w hw
  refine ⟨?_, w', hw', hstanding ▸ hpos⟩
  unfold Binding.update
  cases hs : b.isStale d with
  | true => rfl
  | false =>
    rw [isStale, Bool.or_eq_false_iff] at hs
    exact version_eq_of_not_isOutdatedBy hw hpos hd h.version hs.2

theorem Follows.refl (b : Binding) : b.Follows b := ⟨.refl _, id⟩

theorem Follows.trans (h : b.Follows b') (h' : b'.Follows b'') : b.Follows b'' :=
  ⟨h.buffer.trans h'.buffer, h'.upToDate ∘ h.upToDate⟩

theorem update_follows (h : b.desk.buffer.Follows d.buffer) : b.Follows (b.update d) :=
  ⟨h, fun hu => hu.update (h.toShows.mono fun _ _ => trivial)⟩

theorem press_follows {host : Option (KeyPress → Bool)} {k : KeyPress} {o : Outcome}
    (h : b.press host k = .ok (b', o)) : b.Follows b' := by
  unfold press at h
  cases ho : b.desk.offer k with
  | error e => simp [ho, bind, Except.bind] at h
  | ok r =>
    obtain ⟨d, taken⟩ := r
    have hd := update_follows (Desk.offer_follows ho)
    simp only [ho, bind, Except.bind, pure, Except.pure] at h
    split at h <;> cases h <;> exact hd

end Binding

namespace Debounce

variable {d : Debounce} {ms : Int}

theorem advance_last (d : Debounce) (ms : Int) : (d.advance ms).1.last = d.last := by
  unfold advance
  dsimp only
  split
  · split <;> rfl
  · rfl

theorem advance_timer_of_due (h : (d.advance ms).2 = true) : (d.advance ms).1.timer = none := by
  unfold advance at h ⊢
  dsimp only at h ⊢
  split at h
  · split at h
    · rename_i hdue hle
      rw [if_pos hle]
    · cases h
  · cases h

theorem timer_of_due (h : (d.advance ms).2 = true) : d.timer.isSome = true := by
  unfold advance at h
  dsimp only at h
  split at h
  · rename_i ht
    rw [ht]
    rfl
  · cases h

theorem advance_timer_of_not_due (h : (d.advance ms).2 = false) :
    (d.advance ms).1.timer = d.timer := by
  unfold advance at h ⊢
  dsimp only at h ⊢
  split at h
  · split at h
    · cases h
    · rename_i hdue hle
      rw [if_neg hle]
  · rfl

theorem look_last (d : Debounce) (w : Watched) : (d.look w).last = some w := by
  unfold look
  split
  · assumption
  · rfl

end Debounce

namespace Editor

/-! ## Saves -/

/-- The editor saves at a key that nothing else took: at Ctrl+S, and at Ctrl+Q if there is something
to save and a file to save it to. -/
def savesAt (e : Editor) (k : KeyPress) : Bool :=
  k.hasCtrl && (letter? k = some 's' ||
    letter? k = some 'q' && e.filePath.isSome && e.buffer.isModified)

/-- The editor as it saves in answer to a key, if it does. -/
def savingKey? (e : Editor) (k : KeyPress) : Option Editor :=
  match e.binding.press (some fun _ => true) k with
  | .error _ => none
  | .ok (binding, outcome) =>
    let e := { e with message := none, binding }
    if outcome.offered && e.savesAt k then some e else none

/-- The editor as it saves in answer to an event, if it does: for a key, when the timer runs out, or
when it is put away while the timer runs. -/
def saving? (e : Editor) : Event → Option Editor
  | .input text key => if e.mounted then e.savingKey? (key.toKeyPress text) else none
  | .tick ms =>
    if (e.autoSave.advance ms).2 then some { e with autoSave := (e.autoSave.advance ms).1 }
    else none
  | .unmount =>
    if e.mounted ∧ e.autoSave.flush.2 then some { e with autoSave := e.autoSave.flush.1 }
    else none
  | .resize .. | .disk _ | .mishaps _ => none

/-- The editor after events, first to last. -/
def run (e : Editor) (events : List Event) : Editor := events.foldl step e

/-- The editor at each of its saves along a run, first to last. -/
def saves (e : Editor) : List Event → List Editor
  | [] => []
  | event :: rest => (e.saving? event).toList ++ (e.step event).saves rest

/-- The answer to an event, before the editor settles. -/
def answer (e : Editor) (event : Event) : Editor :=
  if e.mounted then e.react event else e.rest event

theorem save_mounted (e : Editor) : e.save.1.mounted = e.mounted := by
  unfold save
  split
  · rfl
  · split <;> rfl

theorem save_autoSave (e : Editor) : e.save.1.autoSave = e.autoSave := by
  unfold save
  split
  · rfl
  · split <;> rfl

theorem rest_mounted (e : Editor) (event : Event) : (e.rest event).mounted = e.mounted := by
  cases event with
  | tick ms =>
    rw [rest, tick]
    dsimp only
    split
    · exact save_mounted _
    · rfl
  | input | resize | disk | mishaps | unmount => rfl

theorem step_eq (e : Editor) (event : Event) : e.step event =
    if (e.answer event).mounted then (e.answer event).settle else e.answer event := by
  unfold step answer
  cases hm : e.mounted with
  | true => rfl
  | false =>
    have hrest : (e.rest event).mounted = false := (e.rest_mounted event).trans hm
    simp only [Bool.false_eq_true, if_false, hrest]

/-! ## Keys -/

/-- The second editor comes about from the first by a key that neither saves nor leaves. -/
def Idles (e e' : Editor) : Prop :=
  ∃ binding settings disk logs message, e.binding.Follows binding ∧
    e' = { e with binding, settings, disk, logs, message }

/-- The second editor comes about from the first by a key that does not save; the key leaves the
editor only if there is nothing to save. -/
def Passes (e x : Editor) : Prop :=
  ∃ e' exits, e.Idles e' ∧ x = { e' with exits } ∧
    (exits = e'.exits ∨ (e'.filePath.isSome && e'.buffer.isModified) = false)

section
variable {e e' : Editor} {k : KeyPress}

theorem Idles.passes (h : e.Idles e') : e.Passes e' := ⟨e', e'.exits, h, rfl, .inl rfl⟩

theorem idles_refl (e : Editor) : e.Idles e := ⟨_, _, _, _, _, .refl _, rfl⟩

theorem Idles.say (h : e.Idles e') (t : Text) : e.Idles (e'.say t) := by
  obtain ⟨binding, settings, disk, logs, message, hb, rfl⟩ := h
  exact ⟨binding, settings, disk, logs, some t, hb, rfl⟩

theorem Idles.setDesk (h : e.Idles e') {d : Desk} (hd : e'.buffer.Follows d.buffer) :
    e.Idles (e'.setDesk d) := by
  obtain ⟨binding, settings, disk, logs, message, hb, rfl⟩ := h
  exact ⟨_, settings, disk, logs, message, hb.trans (Binding.update_follows hd), rfl⟩

theorem Idles.persist (h : e.Idles e') (c : SettingsChange) : e.Idles (e'.persist c) := by
  obtain ⟨binding, settings, disk, logs, message, hb, rfl⟩ := h
  unfold Editor.persist
  dsimp only
  split <;> exact ⟨binding, _, _, _, message, hb, rfl⟩

theorem idles_travel {label : Text} {description : Option Text} {outcome : Buffer × Option Int}
    (h : e.buffer.Follows outcome.1) : e.Idles (e.travel label description outcome) := by
  unfold travel
  split
  · exact ((idles_refl e).setDesk (h.setCursor _)).say _
  · exact (idles_refl e).setDesk h

theorem idles_setVi (e : Editor) (v : Interpreter) :
    e.Idles (e.setDesk { e.binding.desk with vi := v }) :=
  (idles_refl e).setDesk (.refl e.buffer)

theorem idles_toggleVi (e : Editor) : e.Idles e.toggleVi := ((idles_setVi e _).persist _).say _

theorem idles_toggleBlockCursor (e : Editor) : e.Idles e.toggleBlockCursor :=
  (idles_setVi e _).persist _

theorem hostKey_of_savesAt (h : e.savesAt k = true) :
    ∃ message exits, e.hostKey k = { e.save.1 with message, exits } := by
  simp only [savesAt, Bool.and_eq_true, Bool.or_eq_true, decide_eq_true_eq] at h
  obtain ⟨hk, hl⟩ := h
  unfold hostKey
  rw [hk, if_neg (by decide)]
  rcases hl with hl | ⟨⟨hl, hnamed⟩, hmodified⟩
  · rw [hl]
    obtain ⟨e', went⟩ := e.save
    cases went with
    | true => exact ⟨some (Text.ofString "Saved"), e'.exits, rfl⟩
    | false => exact ⟨e'.message, e'.exits, rfl⟩
  · have hquit : e.quit = { e.save.1 with exits := e.save.1.exits + 1 } := by
      unfold quit
      rw [hnamed, hmodified]
      rfl
    rw [hl]
    exact ⟨e.save.1.message, e.save.1.exits + 1, hquit⟩

theorem hostKey_of_not_savesAt (h : e.savesAt k = false) : e.Passes (e.hostKey k) := by
  unfold hostKey
  cases hk : k.hasCtrl with
  | false => exact (idles_refl e).passes
  | true =>
    rw [if_neg (by decide)]
    split <;> rename_i hl
    · simp [savesAt, hk, hl] at h
    · have hnone : (e.filePath.isSome && e.buffer.isModified) = false := by
        simpa [savesAt, hk, hl] using h
      refine ⟨e, e.exits + 1, idles_refl e, ?_, .inr hnone⟩
      unfold quit
      rw [hnone]
      rfl
    · exact (idles_travel e.buffer.undo_follows).passes
    · exact (idles_travel e.buffer.redo_follows).passes
    · exact ((idles_refl e).setDesk (Desk.scroll_follows _ _)).passes
    · exact ((idles_refl e).setDesk (Desk.scroll_follows _ _)).passes
    · exact (idles_toggleVi e).passes
    · exact (idles_toggleBlockCursor e).passes
    · exact (idles_refl e).passes

theorem press_of_saving {a : Editor} (h : e.savingKey? k = some a) :
    (∃ binding, e.binding.Follows binding ∧ a = { e with message := none, binding }) ∧
      ∃ message exits, e.press k = { a.save.1 with message, exits } := by
  unfold savingKey? at h
  unfold press
  cases hb : e.binding.press (some fun _ => true) k with
  | error cause => simp [hb] at h
  | ok r =>
    obtain ⟨binding, outcome⟩ := r
    simp only [hb, Option.ite_none_right_eq_some, Option.some.injEq, Bool.and_eq_true] at h ⊢
    obtain ⟨⟨ho, hsave⟩, rfl⟩ := h
    rw [if_pos ho]
    exact ⟨⟨binding, Binding.press_follows hb, rfl⟩, hostKey_of_savesAt hsave⟩

theorem press_of_not_saving (h : e.savingKey? k = none) : e.Passes (e.press k) := by
  unfold savingKey? at h
  unfold press
  cases hb : e.binding.press (some fun _ => true) k with
  | error cause =>
    simp only [hb]
    exact Idles.passes ⟨_, _, _, _, _, .refl _, rfl⟩
  | ok r =>
    obtain ⟨binding, outcome⟩ := r
    have hbinding := Binding.press_follows hb
    simp only [hb] at h ⊢
    cases ho : outcome.offered with
    | false =>
      rw [if_neg (by decide)]
      exact Idles.passes ⟨_, _, _, _, _, hbinding, rfl⟩
    | true =>
      have hsave : ({ e with message := none, binding } : Editor).savesAt k = false := by
        simpa [ho] using h
      obtain ⟨e', exits, ⟨b', settings, disk, logs, message, hb', rfl⟩, hk, hexits⟩ :=
        hostKey_of_not_savesAt hsave
      rw [if_pos rfl]
      exact ⟨_, exits, ⟨b', settings, disk, logs, message, hbinding.trans hb', rfl⟩, hk, hexits⟩

end

/-! ## Events -/

section
variable {e e' : Editor} {event : Event}

/-- What an event leaves at which nothing is saved. -/
structure Rests (e e' : Editor) : Prop where
  filePath : e'.filePath = e.filePath
  lineBreak : e'.lineBreak = e.lineBreak
  binding : e.binding.Follows e'.binding
  timer : e'.autoSave.timer = e.autoSave.timer
  last : e'.autoSave.last = e.autoSave.last
  moved : e'.binding = e.binding ∨ e.mounted = true ∧ e'.mounted = true
  stopped : e'.mounted = false → e.mounted = false ∨ e'.autoSave.timer = none
  exits : e'.exits = e.exits ∨ (e'.filePath.isSome && e'.buffer.isModified) = false

theorem Rests.of_binding (hf : e'.filePath = e.filePath) (hl : e'.lineBreak = e.lineBreak)
    (hb : e'.binding = e.binding) (ht : e'.autoSave.timer = e.autoSave.timer)
    (hs : e'.autoSave.last = e.autoSave.last)
    (hm : e'.mounted = false → e.mounted = false ∨ e'.autoSave.timer = none)
    (hx : e'.exits = e.exits) : e.Rests e' :=
  ⟨hf, hl, hb ▸ .refl _, ht, hs, .inl hb, hm, .inl hx⟩

theorem tick_of_not_saving {ms : Int} (h : e.saving? (.tick ms) = none) :
    e.Rests (e.tick ms) := by
  have hdue : (e.autoSave.advance ms).2 = false := by simpa [saving?] using h
  have htick : e.tick ms = { e with autoSave := (e.autoSave.advance ms).1 } := by
    unfold tick
    dsimp only
    rw [hdue]
    rfl
  rw [htick]
  exact .of_binding rfl rfl rfl (Debounce.advance_timer_of_not_due hdue)
    (Debounce.advance_last _ _) .inl rfl

theorem unmount_of_not_saving (hm : e.mounted = true) (h : e.saving? .unmount = none) :
    e.Rests e.unmount := by
  have hdue : e.autoSave.flush.2 = false := by simpa [saving?, hm] using h
  have hunmount : e.unmount = { e with autoSave := e.autoSave.flush.1, mounted := false } := by
    unfold unmount
    dsimp only
    rw [hdue]
    rfl
  have hnone : e.autoSave.timer = none :=
    Option.isNone_iff_eq_none.1 (Option.isSome_eq_false_iff.1 hdue)
  rw [hunmount]
  exact .of_binding rfl rfl rfl hnone.symm rfl (fun _ => .inr rfl) rfl

theorem answer_of_not_saving (h : e.saving? event = none) : e.Rests (e.answer event) := by
  unfold answer
  cases hm : e.mounted with
  | false =>
    rw [if_neg (by decide)]
    cases event with
    | tick ms => exact tick_of_not_saving h
    | input | resize | disk | mishaps | unmount => exact .of_binding rfl rfl rfl rfl rfl .inl rfl
  | true =>
    rw [if_pos rfl]
    cases event with
    | tick ms => exact tick_of_not_saving h
    | unmount => exact unmount_of_not_saving hm h
    | resize | disk | mishaps => exact .of_binding rfl rfl rfl rfl rfl .inl rfl
    | input text key =>
      have hkey : e.savingKey? (key.toKeyPress text) = none := by simpa [saving?, hm] using h
      obtain ⟨e', exits, ⟨binding, settings, disk, logs, message, hb, rfl⟩, hk, hexits⟩ :=
        press_of_not_saving hkey
      rw [react, hk]
      exact ⟨rfl, rfl, hb, rfl, rfl, .inr ⟨hm, hm⟩, .inl, hexits⟩

/-- At an event at which the editor saves, it does nothing else of consequence; the timer has run
out unless the editor stays mounted. -/
theorem answer_of_saving {a : Editor} (h : e.saving? event = some a) :
    a.filePath = e.filePath ∧ a.lineBreak = e.lineBreak ∧ e.binding.Follows a.binding ∧
      ∃ message exits mounted, e.answer event = { a.save.1 with message, exits, mounted } ∧
        (mounted = true ∨ a.autoSave.timer = none) := by
  unfold answer
  cases event with
  | resize | disk | mishaps => cases h
  | tick ms =>
    simp only [saving?, Option.ite_none_right_eq_some, Option.some.injEq] at h
    obtain ⟨hdue, rfl⟩ := h
    refine ⟨rfl, rfl, .refl _, ?_⟩
    have htick :
        e.tick ms = ({ e with autoSave := (e.autoSave.advance ms).1 } : Editor).save.1 := by
      unfold tick
      dsimp only
      rw [hdue]
      rfl
    have hanswer : (if e.mounted then e.react (.tick ms) else e.rest (.tick ms)) = e.tick ms := by
      cases e.mounted <;> rfl
    rw [hanswer, htick]
    exact ⟨_, _, _, rfl, .inr (Debounce.advance_timer_of_due hdue)⟩
  | unmount =>
    simp only [saving?, Option.ite_none_right_eq_some, Option.some.injEq] at h
    obtain ⟨⟨hm, hdue⟩, rfl⟩ := h
    refine ⟨rfl, rfl, .refl _, ?_⟩
    rw [if_pos hm]
    have hunmount : e.unmount =
        { ({ e with autoSave := e.autoSave.flush.1 } : Editor).save.1 with mounted := false } := by
      unfold unmount
      dsimp only
      rw [hdue]
      rfl
    rw [react, hunmount]
    exact ⟨_, _, false, rfl, .inr rfl⟩
  | input text key =>
    simp only [saving?, Option.ite_none_right_eq_some] at h
    obtain ⟨hm, hkey⟩ := h
    obtain ⟨⟨binding, hb, rfl⟩, message, exits, hk⟩ := press_of_saving hkey
    refine ⟨rfl, rfl, hb, ?_⟩
    rw [if_pos hm, react, hk]
    exact ⟨message, exits, _, rfl, .inl ((save_mounted _).trans hm)⟩

end

end Editor

end ModalEditor
