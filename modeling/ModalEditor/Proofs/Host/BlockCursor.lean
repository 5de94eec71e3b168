import Mathlib.Data.List.Infix
import ModalEditor.Host.Startup
import ModalEditor.Proofs.Host.AutoSave
import ModalEditor.Proofs.Host.Freshness

/-!
# The block cursor and what is told of it

The preference for a block cursor is kept by the interpreter, by the editor's settings, from which
the help line tells it, and by the settings file. Only two keys of the editor's own change the first
two (`Editor.step_flags`). Ctrl+B takes the opposite of what the help line tells and sets both to it,
whether or not the settings can be stored. Ctrl+T stores whether the interpreter is on; if that goes
through, all settings become the stored ones, and the interpreter, which is told nothing of it, may
be left with another preference.

`Editor.block_cursor_told_iff`: from the start of the program, the help line tells the preference
all along exactly if every such Ctrl+T reads back the preference itself, and a Ctrl+B flips the
preference exactly if the help line has told it.
-/

namespace ModalEditor

/-! ## The interpreter's preference -/

namespace Interpreter

theorem setEnabled_blockCursor (v : Interpreter) (enabled : Bool) :
    (v.setEnabled enabled).blockCursor = v.blockCursor := by
  by_cases h : enabled = v.enabled
  · rw [setEnabled, if_pos h.symm]
  · rw [setEnabled_of_ne h, tellStyle_keeps (f := Interpreter.blockCursor) fun _ _ _ _ _ => rfl,
      announce_keeps (f := Interpreter.blockCursor) fun _ _ _ _ => rfl,
      send_keeps (f := Interpreter.blockCursor) fun _ _ _ _ _ _ _ => rfl]

theorem setBlockCursor_blockCursor (v : Interpreter) (blockCursor : Bool) :
    (v.setBlockCursor blockCursor).blockCursor = blockCursor :=
  tellStyle_keeps (f := Interpreter.blockCursor) (fun _ _ _ _ _ => rfl) _

end Interpreter

theorem Desk.step_options (d : Desk) (op : Op) :
    (d.step op).vi.blockCursor = d.vi.blockCursor ∧ (d.step op).vi.enabled = d.vi.enabled := by
  rw [step_vi]
  constructor
  · rw [Interpreter.remember_keeps (f := Interpreter.blockCursor) fun _ _ => rfl,
      Interpreter.hear_keeps (f := Interpreter.blockCursor) fun _ _ _ _ _ _ _ => rfl]
  · rw [Interpreter.remember_keeps (f := Interpreter.enabled) fun _ _ => rfl,
      Interpreter.hear_keeps (f := Interpreter.enabled) fun _ _ _ _ _ _ _ => rfl]

namespace Editor

/-! ## The help line -/

/-- The keys of the editor's own, with what two of them have come to. -/
def helpLine (vi blockCursor : Bool) : Text :=
  Text.ofString "^s:Save ^q:Quit ^z:Undo ^r:Redo ^d/^u:Page ^t:Vi " ++ onOff vi ++
    Text.ofString " ^b:Block cursor " ++ onOff blockCursor

theorem help_eq (e : Editor) : e.help = helpLine e.binding.shown.enabled e.settings.blockCursor :=
  rfl

theorem onOff_inj {b b' : Bool} : onOff b = onOff b' ↔ b = b' := by
  cases b <;> cases b' <;> decide

/-- The interpreter's preference. -/
def prefersBlock (e : Editor) : Bool := e.binding.desk.vi.blockCursor

/-- The help line tells the interpreter's preference. -/
def TellsBlockCursor (e : Editor) : Prop :=
  e.help = helpLine e.binding.shown.enabled e.prefersBlock

instance (e : Editor) : Decidable e.TellsBlockCursor := inferInstanceAs (Decidable (_ = _))

theorem tellsBlockCursor_iff {e : Editor} :
    e.TellsBlockCursor ↔ e.settings.blockCursor = e.prefersBlock := by
  rw [TellsBlockCursor, help_eq, helpLine, helpLine, List.append_cancel_left_eq, onOff_inj]

/-! ## Keys that reach the editor -/

/-- The letter of a key with Control that neither the interpreter nor plain typing takes. -/
def hostLetter? (e : Editor) : Event → Option Char
  | .input text key =>
    let k := key.toKeyPress text
    match e.binding.press (some fun _ => true) k with
    | .ok (_, outcome) => if e.mounted && outcome.offered && k.hasCtrl then letter? k else none
    | .error _ => none
  | _ => none

/-- The stored settings, if a change of them can be stored. -/
def found? (e : Editor) (c : SettingsChange) : Option Settings :=
  match (Settings.updateWith e.disk e.mishaps e.settingsPath c).outcome with
  | .ok _ => some (Settings.load e.disk e.settingsPath).1
  | .error _ => none

/-- What is stored of whether the interpreter is on when it is turned on or off. -/
def viChange (e : Editor) : SettingsChange := { viMode := some !e.binding.desk.vi.enabled }

/-- The preference that the help line tells, and the one of the interpreter. -/
def flags (e : Editor) : Bool × Bool := (e.settings.blockCursor, e.prefersBlock)

/-- The stored settings, if the letter turns the interpreter on or off and that can be stored. -/
def readBack? (e : Editor) (letter : Option Char) : Option Settings :=
  if letter = some 't' then e.found? e.viChange else none

/-- The two flags after a letter of the editor's own. -/
def flagsAfter (e : Editor) (letter : Option Char) : Bool × Bool :=
  if letter = some 'b' then (!e.settings.blockCursor, !e.settings.blockCursor)
  else (((e.readBack? letter).getD e.settings).blockCursor, e.prefersBlock)

section
variable (e : Editor)

theorem save_flags : e.save.1.flags = e.flags := by
  unfold save
  split
  · rfl
  · split <;> rfl

theorem travel_flags (label : Text) (description : Option Text) (outcome : Buffer × Option Int) :
    (e.travel label description outcome).flags = e.flags := by
  unfold travel
  split <;> rfl

theorem persist_prefersBlock (c : SettingsChange) :
    (e.persist c).prefersBlock = e.prefersBlock := by
  unfold persist
  dsimp only
  split <;> rfl

theorem persist_settings (c : SettingsChange) :
    (e.persist c).settings = ((e.found? c).getD e.settings).apply c := by
  unfold persist found? Settings.updateWith Settings.Update.of
  dsimp only
  cases (Settings.saveWith e.disk e.mishaps e.settingsPath
    ((Settings.load e.disk e.settingsPath).1.apply c)).2 <;> rfl

theorem toggleBlockCursor_flags :
    e.toggleBlockCursor.flags = (!e.settings.blockCursor, !e.settings.blockCursor) := by
  unfold toggleBlockCursor flags
  dsimp only
  rw [persist_prefersBlock, persist_settings]
  exact congrArg (Prod.mk _) (Interpreter.setBlockCursor_blockCursor ..)

/-- Ctrl+T leaves the interpreter's preference alone, and what is told is read back. -/
theorem toggleVi_flags : e.toggleVi.flags =
    (((e.found? e.viChange).getD e.settings).blockCursor, e.prefersBlock) := by
  let d := e.binding.desk
  let e' := e.setDesk { d with vi := d.vi.setEnabled !d.vi.enabled }
  have htoggle : e.toggleVi.flags = (e'.persist e.viChange).flags := rfl
  rw [htoggle, flags, persist_prefersBlock, persist_settings]
  exact congrArg (Prod.mk _) (d.vi.setEnabled_blockCursor _)

theorem hostKey_flags (k : KeyPress) :
    (e.hostKey k).flags = e.flagsAfter (if k.hasCtrl then letter? k else none) := by
  have hscroll : ∀ direction, (e.setDesk (e.binding.desk.scroll direction)).flags = e.flags :=
    fun _ => rfl
  unfold hostKey
  cases k.hasCtrl with
  | false => rfl
  | true =>
    rw [if_neg (by decide), if_pos rfl]
    split
    case h_9 _ ht hb => rw [flagsAfter, if_neg hb, readBack?, if_neg ht]; rfl
    all_goals
      rename_i hl
      rw [hl]
    · have hsave := e.save_flags
      cases hs : e.save with
      | mk e' went =>
        rw [hs] at hsave
        cases went <;> exact hsave
    · show (if e.filePath.isSome && e.buffer.isModified then e.save.1 else e).flags = e.flags
      split
      · exact e.save_flags
      · rfl
    · exact e.travel_flags ..
    · exact e.travel_flags ..
    · exact hscroll .down
    · exact hscroll .up
    · exact e.toggleVi_flags
    · exact e.toggleBlockCursor_flags

theorem tick_flags (ms : Int) : (e.tick ms).flags = e.flags := by
  unfold tick
  dsimp only
  split
  · exact save_flags _
  · rfl

theorem unmount_flags : e.unmount.flags = e.flags := by
  unfold unmount
  dsimp only
  split
  · exact save_flags _
  · rfl

theorem press_flags (hm : e.mounted = true) (text : Text) (key : TerminalKey) :
    (e.press (key.toKeyPress text)).flags =
      e.flagsAfter (e.hostLetter? (.input text key)) := by
  let k := key.toKeyPress text
  obtain ⟨o, ho⟩ := e.binding.press_answers (some fun _ => true) k
  obtain ⟨hblock, hon⟩ := e.binding.desk.step_options (.offer k)
  let e' : Editor :=
    { e with message := none, binding := e.binding.update (e.binding.desk.step (.offer k)) }
  have hletter : e.hostLetter? (.input text key) =
      if o.offered && k.hasCtrl then letter? k else none := by
    simp only [hostLetter?, hm, ho, Bool.true_and, k]
  have hpress : e.press k = if o.offered then e'.hostKey k else e' := by
    simp only [press, ho, e']
  -- the key itself, taken or not, leaves everything alone that its letter works on
  have hchange : e'.viChange = e.viChange :=
    congrArg (fun b : Bool => ({ viMode := some !b } : SettingsChange)) hon
  have hsame : ∀ letter, e'.flagsAfter letter = e.flagsAfter letter := fun letter => by
    unfold flagsAfter readBack?
    rw [hchange]
    exact congrArg (ite _ _) (congrArg (Prod.mk _) hblock)
  rw [hletter, hpress, ← hsame]
  cases o.offered with
  | false => rfl
  | true => exact e'.hostKey_flags k

theorem step_flags (event : Event) :
    (e.step event).flags = e.flagsAfter (e.hostLetter? event) := by
  rw [step_of_settle (f := flags) fun _ => rfl, answer]
  cases hm : e.mounted with
  | true =>
    rw [if_pos rfl]
    cases event with
    | input text key => exact e.press_flags hm text key
    | tick ms => exact e.tick_flags ms
    | unmount => exact e.unmount_flags
    | resize | disk | mishaps => rfl
  | false =>
    rw [if_neg (by decide)]
    cases event with
    | input text key =>
      have hnone : e.hostLetter? (.input text key) = none := by
        rw [hostLetter?, hm]
        split <;> rfl
      rw [hnone]
      rfl
    | tick ms => exact e.tick_flags ms
    | resize | disk | mishaps | unmount => rfl

end

/-! ## From the start of the program -/

/-- The editor that a start of the program puts into a terminal. -/
def ofLaunch (l : Launch) (columns rows : Int) (disk : Disk) : Editor :=
  mount l.desk l.filePath l.lineBreak l.settingsPath l.settings columns rows disk

theorem launch_nil (env : Environment) :
    let p := Path.resolve env.cwd
      (Settings.locate env.cwd env.home (env.config.map Settings.variableOf))
    (Startup.run env []).launch =
      some (Startup.launchOf none .empty (Settings.load env.disk p).1 p) := rfl

theorem tellsBlockCursor_ofLaunch {env : Environment} {args : List Text} {l : Launch}
    (h : (Startup.run env args).launch = some l) (columns rows : Int) (disk : Disk) :
    (ofLaunch l columns rows disk).TellsBlockCursor := by
  have hdesk : l.settings.blockCursor = l.desk.vi.blockCursor := by
    unfold Startup.run at h
    dsimp only at h
    split at h
    · cases h
    · split at h
      · cases h
        rfl
      · split at h <;> cases h
        rfl
  exact tellsBlockCursor_iff.2 hdesk

/-- The stored settings, if the event is a Ctrl+T that reaches the editor and can store its change. -/
def readsBack? (e : Editor) (event : Event) : Option Settings := e.readBack? (e.hostLetter? event)

section
variable {e : Editor} {event : Event}

/-- A Ctrl+B sets the preference to the opposite of what the help line tells. -/
theorem step_of_toggle (h : e.hostLetter? event = some 'b') :
    (e.step event).TellsBlockCursor ∧ (e.step event).prefersBlock = !e.settings.blockCursor := by
  have hflags := e.step_flags event
  rw [h, flagsAfter, if_pos rfl] at hflags
  obtain ⟨htold, hset⟩ := Prod.mk.inj hflags
  exact ⟨tellsBlockCursor_iff.2 (htold.trans hset.symm), hset⟩

/-- Every other event keeps what is told and the preference, unless the settings are read back. -/
theorem step_of_not_toggle (h : e.hostLetter? event ≠ some 'b') :
    (e.step event).settings.blockCursor = ((e.readsBack? event).getD e.settings).blockCursor ∧
      (e.step event).prefersBlock = e.prefersBlock := by
  have hflags := e.step_flags event
  rw [flagsAfter, if_neg h] at hflags
  exact Prod.mk.inj hflags

/-- **One event.** -/
theorem TellsBlockCursor.step (h : e.TellsBlockCursor) :
    (e.step event).TellsBlockCursor ↔ ∀ stored, e.readsBack? event = some stored →
      stored.blockCursor = e.prefersBlock := by
  by_cases hb : e.hostLetter? event = some 'b'
  · have hnone : e.readsBack? event = none := by
      rw [readsBack?, hb]
      rfl
    simp [step_of_toggle hb, hnone]
  · obtain ⟨htold, hkept⟩ := step_of_not_toggle hb
    rw [tellsBlockCursor_iff] at h ⊢
    rw [htold, hkept]
    cases hs : e.readsBack? event with
    | none => simpa using h
    | some stored => simp

/-- **Every run.** -/
theorem TellsBlockCursor.run (h : e.TellsBlockCursor) (events : List Event) :
    (∀ before, before <+: events → (e.run before).TellsBlockCursor) ↔
      ∀ before event stored, before ++ [event] <+: events →
        (e.run before).readsBack? event = some stored →
        stored.blockCursor = (e.run before).prefersBlock := by
  constructor
  · intro hall before event stored hpart hstored
    have hbefore := hall before ((List.prefix_append _ _).trans hpart)
    have hafter := hall _ hpart
    rw [run_concat] at hafter
    exact hbefore.step.1 hafter stored hstored
  · intro hall before hpart
    induction before using List.reverseRecOn with
    | nil => exact h
    | append_singleton before event ih =>
      rw [run_concat]
      exact (ih ((List.prefix_append _ _).trans hpart)).step.2 fun stored =>
        hall before event stored hpart

end

/-- **Ctrl+B toggles what is told.** Start the program in any environment and let any events happen:
keys, changes of files by others, saves that go wrong. The help line tells the interpreter's
preference after every part of the run exactly if every Ctrl+T of the run that can be stored reads
that preference back from the settings file. After a Ctrl+B it tells the preference in any case, but
the Ctrl+B has flipped the preference exactly if it was told before. -/
theorem block_cursor_told_iff {env : Environment} {args : List Text} {l : Launch}
    (h : (Startup.run env args).launch = some l) (columns rows : Int) (events : List Event) :
    let start := ofLaunch l columns rows env.disk
    ((∀ before, before <+: events → (start.run before).TellsBlockCursor) ↔
      ∀ before event stored, before ++ [event] <+: events →
        (start.run before).readsBack? event = some stored →
        stored.blockCursor = (start.run before).prefersBlock) ∧
    ∀ before event, (start.run before).hostLetter? event = some 'b' →
      let e := start.run before
      let e' := start.run (before ++ [event])
      e'.TellsBlockCursor ∧ (e'.prefersBlock = (!e.prefersBlock) ↔ e.TellsBlockCursor) := by
  intro start
  refine ⟨(tellsBlockCursor_ofLaunch h columns rows env.disk).run events, ?_⟩
  intro before event hletter e e'
  have hrun : e' = e.step event := run_concat start before event
  obtain ⟨htells, hset⟩ := step_of_toggle hletter
  rw [hrun, hset, tellsBlockCursor_iff (e := e), Bool.not_inj_iff]
  exact ⟨htells, .rfl⟩

/-- Ctrl+T where nothing is stored yet, and Ctrl+B. -/
theorem block_cursor_told_after_keys :
    let env : Environment := { cwd := [], home := [], config := none, disk := {} }
    let p := Path.resolve env.cwd (Settings.locate env.cwd env.home none)
    let l := Startup.launchOf none .empty (Settings.load env.disk p).1 p
    let start := ofLaunch l 80 24 env.disk
    let t : Event := .input [116] { ctrl := some true }
    let b : Event := .input [98] { ctrl := some true }
    ((Startup.run env []).launch = some l ∧
      (∀ before, before <+: [t, b] → (start.run before).TellsBlockCursor) ∧
      (start.run []).readsBack? t = some {} ∧ (start.run [t]).hostLetter? b = some 'b') ∧
    ({} : Settings).blockCursor = (start.run []).prefersBlock ∧
    (start.run ([t] ++ [b])).TellsBlockCursor ∧
    (start.run ([t] ++ [b])).prefersBlock = !(start.run [t]).prefersBlock := by
  intro env p l start t b
  have h : (Startup.run env []).launch = some l := launch_nil env
  have htold : ∀ before ∈ [t, b].inits, (start.run before).TellsBlockCursor := by decide +kernel
  have htold : ∀ before, before <+: [t, b] → (start.run before).TellsBlockCursor :=
    fun before hpart => htold before ((List.mem_inits _ _).2 hpart)
  have hread : (start.run []).readsBack? t = some {} := by decide +kernel
  have hletter : (start.run [t]).hostLetter? b = some 'b' := by decide +kernel
  obtain ⟨hall, htoggle⟩ := block_cursor_told_iff h 80 24 [t, b]
  obtain ⟨htells, hflip⟩ := htoggle [t] b hletter
  have hback := hall.1 htold [] t {} ⟨[b], rfl⟩ hread
  exact ⟨⟨h, htold, hread, hletter⟩, hback, htells, hflip.2 (htold [t] ⟨[b], rfl⟩)⟩

/-- Others store that the cursor is no block. After Ctrl+T the help line tells so, while the
interpreter still prefers one; and Ctrl+B, which reaches the editor, flips nothing. -/
theorem block_cursor_not_flipped :
    let env : Environment := { cwd := [], home := [], config := none, disk := {} }
    let p := Path.resolve env.cwd (Settings.locate env.cwd env.home none)
    let l := Startup.launchOf none .empty (Settings.load env.disk p).1 p
    let start := ofLaunch l 80 24 env.disk
    let content := Text.ofString "\x7b\"version\":1,\"blockCursor\":false\x7d"
    let others : Event := .disk ⟨[([Settings.fileName], .file (Utf8.encode content))]⟩
    let t : Event := .input [116] { ctrl := some true }
    let b : Event := .input [98] { ctrl := some true }
    let e := start.run [others, t]
    let e' := start.run [others, t, b]
    (Startup.run env []).launch = some l ∧ ¬ e.TellsBlockCursor ∧ e.flags = (false, true) ∧
      e.hostLetter? b = some 'b' ∧ e'.flags = (true, true) := by
  intro env p l start content others t b e e'
  have htold : ¬ e.TellsBlockCursor := by decide +kernel
  have hflags : e.flags = (false, true) := by decide +kernel
  have hletter : e.hostLetter? b = some 'b' := by decide +kernel
  have hsame : e'.flags = (true, true) := by decide +kernel
  exact ⟨launch_nil env, htold, hflags, hletter, hsame⟩

end Editor

end ModalEditor
