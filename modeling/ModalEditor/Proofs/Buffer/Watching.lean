import ModalEditor.Proofs.Buffer.Operation

/-!
# Watching a buffer

The version of a buffer hides nothing: while it stands, there is nothing new to see, and whoever
watches is called as often as it rises, the last time with what there is to see in the end. An
operation changes a buffer at several places and counts its changes one by one, so that in between
the version may lag behind (`Buffer.Counts`); what matters is that the last thing an operation does
is to count (`Buffer.Counts.changed`). `Buffer.Shows` is what a whole operation does, and
`Buffer.version_shows` states it of all runs.
-/

namespace ModalEditor

namespace Buffer

section
variable {stays : Text → Prop} {b b' b'' : Buffer} {name other : Text}

/-! ## Calls -/

theorem watcher?_changed (b : Buffer) (name : Text) :
    b.changed.watcher? name = (b.watcher? name).map (Watcher.call b.changed.snapshot) := by
  have hname : ∀ (view : Snapshot) (w : Watcher Snapshot), (w.call view).name = w.name :=
    fun view w => by
      unfold Watcher.call
      split <;> rfl
  refine List.find?_map.trans (congrArg (Option.map _) ?_)
  exact congrArg (List.find? · _) (funext fun w => by simp [hname])

theorem find?_map_of_ne {g : Watcher Snapshot → Watcher Snapshot} (hg : ∀ w, (g w).name = w.name)
    (h : other ≠ name) (ws : List (Watcher Snapshot)) :
    (ws.map fun w => if w.name = other then g w else w).find? (fun w => w.name = name) =
      ws.find? fun w => w.name = name := by
  induction ws with
  | nil => rfl
  | cons w ws ih =>
    rw [List.map_cons, List.find?_cons, List.find?_cons, ih]
    by_cases ho : w.name = other
    · have hn : w.name ≠ name := ho ▸ h
      simp [ho, hg, h]
    · rw [if_neg ho]

theorem watcher?_subscribe (h : other ≠ name) (b : Buffer) :
    (b.subscribe other).watcher? name = b.watcher? name := by
  unfold subscribe Watcher.join watcher?
  dsimp only
  split
  · exact find?_map_of_ne (g := fun w => { w with active := true, earlier := w.standing })
      (fun _ => rfl) h b.watchers
  · simp [List.find?_append, h]

theorem watcher?_unsubscribe (h : other ≠ name) (b : Buffer) :
    (b.unsubscribe other).watcher? name = b.watcher? name :=
  find?_map_of_ne (g := fun w => { w with active := false }) (fun _ => rfl) h b.watchers

theorem watcher?_subscribe_self (b : Buffer) (name : Text) :
    ∃ w, (b.subscribe name).watcher? name = some w ∧ 0 < w.standing := by
  unfold subscribe Watcher.join watcher?
  dsimp only
  split
  · rename_i hthere
    obtain ⟨w, hmem, hname⟩ := List.any_eq_true.1 hthere
    have hfound : (b.watchers.find? fun w => w.name = name).isSome = true :=
      List.find?_isSome.2 ⟨w, hmem, hname⟩
    obtain ⟨w', hw'⟩ := Option.isSome_iff_exists.1 hfound
    have hn : w'.name = name := by simpa using List.find?_some hw'
    refine ⟨{ w' with active := true, earlier := w'.standing }, ?_, Nat.succ_pos _⟩
    rw [List.find?_map, Function.comp_def]
    have hsame : (fun w : Watcher Snapshot => decide ((if w.name = name then
        { w with active := true, earlier := w.standing } else w).name = name)) =
        fun w => decide (w.name = name) := funext fun w => by split <;> rfl
    rw [hsame, hw', Option.map_some, if_pos hn]
  · rename_i hnew
    refine ⟨{ name := name }, ?_, Nat.one_pos⟩
    have hnone : b.watchers.find? (fun w => decide (w.name = name)) = none := by
      rw [List.find?_eq_none]
      exact fun w hmem hname => hnew (List.any_eq_true.2 ⟨w, hmem, hname⟩)
    rw [List.find?_append, hnone]
    simp

/-! ## Counting -/

/-- On the way from `b` to `b'`, each watcher who stays was called as often as the version rose. -/
structure Counts (stays : Text → Prop) (b b' : Buffer) : Prop where
  version : b.version ≤ b'.version
  watcher : ∀ name, stays name → ∀ w, b.watcher? name = some w → ∃ w', b'.watcher? name = some w' ∧
    w'.standing = w.standing ∧ w'.calls = w.calls + w.standing * (b'.version - b.version)

/-- From `b` to `b'` there is nothing new to see unless the version rose, and then each watcher who
stays was called as often as it rose, the last time with what there is to see now. -/
structure Shows (stays : Text → Prop) (b b' : Buffer) : Prop extends Counts stays b b' where
  snapshot : b'.version = b.version → b'.snapshot = b.snapshot
  quiet : b'.version = b.version → ∀ name, stays name → b'.watcher? name = b.watcher? name
  seen : b.version < b'.version → ∀ name, stays name → ∀ w', b'.watcher? name = some w' →
    0 < w'.standing → w'.seen = some b'.snapshot

theorem Counts.refl (stays : Text → Prop) (b : Buffer) : Counts stays b b :=
  ⟨Nat.le_refl _, fun _ _ w hw => ⟨w, hw, rfl, by rw [Nat.sub_self, Nat.mul_zero, Nat.add_zero]⟩⟩

theorem calls_call (view : Snapshot) (w : Watcher Snapshot) :
    (w.call view).standing = w.standing ∧ (w.call view).calls = w.calls + w.standing ∧
      (0 < (w.call view).standing → (w.call view).seen = some view) := by
  unfold Watcher.call
  split
  · rename_i hs
    exact ⟨rfl, by rw [hs, Nat.add_zero], fun hpos => absurd hs (Nat.ne_of_gt hpos)⟩
  · exact ⟨rfl, rfl, fun _ => rfl⟩

/-- **Counting last.** Whatever was changed before, once the change is counted everything is shown. -/
theorem Counts.changed (h : Counts stays b b') : Shows stays b b'.changed := by
  have hversion : b'.changed.version = b'.version + 1 := rfl
  have hlt : b.version < b'.changed.version := Nat.lt_succ_of_le h.version
  refine
    { version := Nat.le_of_lt hlt
      watcher := fun name hn w hw => ?_
      snapshot := fun heq => absurd heq (Nat.ne_of_gt hlt)
      quiet := fun heq => absurd heq (Nat.ne_of_gt hlt)
      seen := fun _ name _ w' hw' hpos => ?_ }
  · obtain ⟨w', hw', hstanding, hcalls⟩ := h.watcher name hn w hw
    obtain ⟨hstanding', hcalls', -⟩ := calls_call b'.changed.snapshot w'
    refine ⟨_, by rw [watcher?_changed, hw']; rfl, hstanding'.trans hstanding, ?_⟩
    rw [hcalls', hcalls, hstanding, hversion, Nat.succ_sub h.version, Nat.mul_succ, Nat.add_assoc]
  · rw [watcher?_changed] at hw'
    obtain ⟨w, -, rfl⟩ := Option.map_eq_some_iff.1 hw'
    exact (calls_call b'.changed.snapshot w).2.2 hpos

/-- The text, the cursor and the history may change uncounted for the time being. -/
theorem Counts.congr (h : Counts stays b b') (b'' : Buffer) (hversion : b''.version = b'.version)
    (hwatchers : b''.watchers = b'.watchers) : Counts stays b b'' where
  version := hversion ▸ h.version
  watcher name hn w hw := by
    obtain ⟨w', hw', hrest⟩ := h.watcher name hn w hw
    exact ⟨w', by rwa [watcher?, hwatchers], hversion ▸ hrest⟩

theorem Counts.setText (h : Counts stays b b') (t : Text) : Shows stays b (b'.setText t) :=
  (h.congr { b' with text := t, starts := none, cursor := b'.cursor.clampTo t } rfl rfl).changed

theorem Shows.of_unchanged (hversion : b'.version = b.version) (hsnapshot : b'.snapshot = b.snapshot)
    (hwatcher : ∀ name, stays name → b'.watcher? name = b.watcher? name) : Shows stays b b' where
  version := Nat.le_of_eq hversion.symm
  watcher name hn w hw :=
    ⟨w, (hwatcher name hn).trans hw, rfl, by
      rw [hversion, Nat.sub_self, Nat.mul_zero, Nat.add_zero]⟩
  snapshot _ := hsnapshot
  quiet _ := hwatcher
  seen hlt := absurd hversion (Nat.ne_of_gt hlt)

theorem Shows.refl (stays : Text → Prop) (b : Buffer) : Shows stays b b :=
  .of_unchanged rfl rfl fun _ _ => rfl

theorem Shows.trans (h : Shows stays b b') (h' : Shows stays b' b'') : Shows stays b b'' := by
  have hle := h.version
  have hle' := h'.version
  refine
    { version := Nat.le_trans hle hle'
      watcher := fun name hn w hw => ?_
      snapshot := fun heq => ?_
      quiet := fun heq name hn => ?_
      seen := fun hlt name hn w'' hw'' hpos => ?_ }
  · obtain ⟨w', hw', hstanding, hcalls⟩ := h.watcher name hn w hw
    obtain ⟨w'', hw'', hstanding', hcalls'⟩ := h'.watcher name hn w' hw'
    refine ⟨w'', hw'', hstanding'.trans hstanding, ?_⟩
    rw [hcalls', hcalls, hstanding, Nat.add_assoc, ← Nat.mul_add]
    congr 2
    omega
  · rw [h'.snapshot (by omega), h.snapshot (by omega)]
  · rw [h'.quiet (by omega) name hn, h.quiet (by omega) name hn]
  -- the last call belongs to the second part, unless the version stood there
  · by_cases hv : b''.version = b'.version
    · rw [h'.quiet hv name hn] at hw''
      rw [h'.snapshot hv]
      exact h.seen (by omega) name hn w'' hw'' hpos
    · exact h'.seen (by omega) name hn w'' hw'' hpos

theorem Shows.mono {stays' : Text → Prop} (h : Shows stays b b')
    (hstays : ∀ name, stays' name → stays name) : Shows stays' b b' where
  version := h.version
  watcher name hn := h.watcher name (hstays name hn)
  snapshot := h.snapshot
  quiet hv name hn := h.quiet hv name (hstays name hn)
  seen hlt name hn := h.seen hlt name (hstays name hn)

/-! ## Operations -/

theorem revert_counts (stays : Text → Prop) (b : Buffer) (a : Action Splice) :
    Counts stays b (a.revert (fun s b => b.setText (s.undo b.text)) b) :=
  a.revert_keeps (fun _ _ h => (h.setText _).toCounts) (.refl stays b)

theorem perform_counts (stays : Text → Prop) (b : Buffer) (a : Action Splice) :
    Counts stays b (a.perform (fun s b => b.setText (s.apply b.text)) b) :=
  a.perform_keeps (fun _ _ h => (h.setText _).toCounts) (.refl stays b)

/-- Opening or closing a group is no step that could be undone, unless it is pushed as one. -/
theorem endGroup?_unpushed {h h' : History Splice} (hclose : h.endGroup? = some (h', false)) :
    h'.past = h.past ∧ h'.future = h.future := by
  unfold History.endGroup? at hclose
  split at hclose
  · cases hclose
  · split at hclose
    · dsimp only at hclose
      split at hclose
      · cases hclose
        exact ⟨rfl, rfl⟩
      · cases hclose
    · cases hclose
      exact ⟨rfl, rfl⟩

theorem snapshot_withHistory (b : Buffer) {h : History Splice} (hpast : h.past = b.history.past)
    (hfuture : h.future = b.history.future) : { b with history := h }.snapshot = b.snapshot := by
  simp only [snapshot, History.undoDescription?, History.redoDescription?, History.canUndo,
    History.canRedo, hpast, hfuture, isModified]

/-- **One operation** hides nothing. -/
theorem step_shows (b : Buffer) (op : Op)
    (hop : ∀ name, stays name → op ≠ .subscribe name ∧ op ≠ .unsubscribe name) :
    Shows stays b (b.step op) := by
  have hrefl := Counts.refl stays b
  cases op with
  | replace start stop inserted =>
    rw [step, replaceDecimal_eq]
    split
    · exact .refl stays b
    · split
      · exact .refl stays b
      · refine Counts.changed ?_
        exact (hrefl.setText _).toCounts.congr _ rfl rfl
  | setCursor c =>
    rw [step, setCursor]
    split
    · exact .refl stays b
    · refine Counts.changed ?_
      exact hrefl.congr _ rfl rfl
  | beginGroup description =>
    refine .of_unchanged rfl (snapshot_withHistory b ?_ ?_) (fun _ _ => rfl) <;>
      (unfold History.beginGroup; split <;> rfl)
  | endGroup =>
    rw [step, endGroup]
    split
    · exact .refl stays b
    · rename_i history pushed hclose
      cases pushed with
      | false =>
        obtain ⟨hpast, hfuture⟩ := endGroup?_unpushed hclose
        exact .of_unchanged rfl (snapshot_withHistory b hpast hfuture) fun _ _ => rfl
      | true => exact (hrefl.congr { b with history } rfl rfl).changed
  | undo =>
    rw [step, undo]
    split
    · exact .refl stays b
    · refine Counts.changed ?_
      exact (revert_counts stays b _).congr _ rfl rfl
  | redo =>
    rw [step, redo]
    split
    · exact .refl stays b
    · refine Counts.changed ?_
      exact (perform_counts stays b _).congr _ rfl rfl
  | load t =>
    have hcleared := (hrefl.congr { b with history := b.history.clear } rfl rfl).changed
    refine Counts.setText ?_ t
    exact hcleared.toCounts.congr _ rfl rfl
  | markSaved => exact (hrefl.congr { b with savedText := b.text } rfl rfl).changed
  | setPageLines lines => exact .of_unchanged rfl rfl fun _ _ => rfl
  | subscribe other =>
    exact .of_unchanged rfl rfl fun name hn =>
      watcher?_subscribe (fun heq => (hop name hn).1 (congrArg _ heq)) b
  | unsubscribe other =>
    exact .of_unchanged rfl rfl fun name hn =>
      watcher?_unsubscribe (fun heq => (hop name hn).2 (congrArg _ heq)) b

/-! ## Runs -/

theorem run_shows (stays : Text → Prop) (b : Buffer) {ops : List Op}
    (hops : ∀ op ∈ ops, ∀ name, stays name → op ≠ .subscribe name ∧ op ≠ .unsubscribe name) :
    Shows stays b (b.run ops) := by
  induction ops generalizing b with
  | nil => exact .refl stays b
  | cons op ops ih =>
    obtain ⟨hop, hops⟩ := List.forall_mem_cons.1 hops
    exact (b.step_shows op hop).trans (ih (b.step op) hops)

/-- **The version hides nothing.** Along every run of operations, refused ones included, from any
buffer: the version does not fall; while it stands there is nothing new to see; and a watcher who
neither joins nor leaves is called as often as the version rises, once for each of its joinings that
stand, the last time with what there is to see in the end. -/
theorem version_shows (b : Buffer) (ops : List Op) :
    b.version ≤ (b.run ops).version ∧
    ((b.run ops).version = b.version → (b.run ops).snapshot = b.snapshot) ∧
    ∀ name w, b.watcher? name = some w →
      (∀ op ∈ ops, op ≠ .subscribe name ∧ op ≠ .unsubscribe name) →
      ∃ w', (b.run ops).watcher? name = some w' ∧
        w'.calls = w.calls + w.standing * ((b.run ops).version - b.version) ∧
        (b.version < (b.run ops).version → 0 < w.standing →
          w'.seen = some (b.run ops).snapshot) := by
  have h := run_shows (fun name => ∀ op ∈ ops, op ≠ .subscribe name ∧ op ≠ .unsubscribe name) b
    fun op hop _ hn => hn op hop
  refine ⟨h.version, h.snapshot, fun name w hw hn => ?_⟩
  obtain ⟨w', hw', hstanding, hcalls⟩ := h.watcher name hn w hw
  exact ⟨w', hw', hcalls, fun hlt hpos => h.seen hlt name hn w' hw' (hstanding ▸ hpos)⟩

/-- A watcher at an edit, a refused edit, the loading of a text and undo, while another one joins. -/
theorem version_shows_of_watched_load :
    let b := (Buffer.ofText [97, 98] 20 100).subscribe [119]
    let ops : List Op := [.replace (.ofInt 0) (.ofInt 1) [99], .replace (.ofInt 2) (.ofInt 1) [],
      .subscribe [118], .load [100], .undo]
    (b.version = 0 ∧ (b.run ops).version = 4 ∧
      b.watcher? [119] = some { name := [119] } ∧
      (∀ op ∈ ops, op ≠ .subscribe [119] ∧ op ≠ .unsubscribe [119])) ∧
    b.version ≤ (b.run ops).version ∧
    ((b.run ops).version = b.version → (b.run ops).snapshot = b.snapshot) ∧
    ∀ name w, b.watcher? name = some w →
      (∀ op ∈ ops, op ≠ .subscribe name ∧ op ≠ .unsubscribe name) →
      ∃ w', (b.run ops).watcher? name = some w' ∧
        w'.calls = w.calls + w.standing * ((b.run ops).version - b.version) ∧
        (b.version < (b.run ops).version → 0 < w.standing →
          w'.seen = some (b.run ops).snapshot) :=
  ⟨⟨rfl, by decide, by decide, by decide⟩, version_shows _ _⟩

end

end Buffer

end ModalEditor
