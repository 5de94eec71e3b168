import ModalEditor.Modal.Desk
import ModalEditor.Proofs.Modal.Stroke

/-!
# Reading a key

A key press does three things that do not depend on each other: it sends events to the mode, it asks
something of the text (a `Stroke`), and it is taken or passed through. `Desk.read` reads all three
off the desk, before anything is done; `Desk.carry` does what was read.

* `Desk.press_eq`: the interpreter's answer to a key is its reading, carried out.
* `Desk.typeKey_eq`: so is plain typing, with the stroke of `KeyPress.typed?`.
* `Desk.offer_eq`: and so are the two together, with `Desk.readThrough`.
-/

namespace ModalEditor

/-- A stroke with the events for the mode, and whether the interpreter takes the key. -/
structure Reading where
  stroke : Stroke := .rest
  events : List ModeEvent := []
  verdict : Verdict := .handled

/-- What the second key of an operator asks for. -/
def Operator.stroke : Operator → Stroke
  | .delete => .edit .delete
  | .yank => .yank

/-! ## Carrying out -/

namespace Interpreter

/-- Events sent to the mode, first to last. -/
def hear (v : Interpreter) (events : List ModeEvent) : Interpreter := events.foldl send v

def withEdit (v : Interpreter) (e : Option Repeatable) : Interpreter := { v with lastEdit := e }

/-- A repeatable edit remembered. -/
def remember (v : Interpreter) : Stroke → Interpreter
  | .edit e => v.withEdit (some e)
  | _ => v

@[simp] theorem hear_nil (v : Interpreter) : v.hear [] = v := rfl
@[simp] theorem hear_cons (v : Interpreter) (e : ModeEvent) (es : List ModeEvent) :
    v.hear (e :: es) = (v.send e).hear es := rfl

theorem hear_append (v : Interpreter) (es es' : List ModeEvent) :
    v.hear (es ++ es') = (v.hear es).hear es' :=
  List.foldl_append

section
variable (v : Interpreter) (x : Option Repeatable)

theorem tellStyle_withEdit : (v.withEdit x).tellStyle = v.tellStyle.withEdit x := by
  by_cases h : v.style = v.saidStyle
  · have h1 : v.tellStyle = v := if_pos h
    have h2 : (v.withEdit x).tellStyle = v.withEdit x := if_pos h
    rw [h1, h2]
  · have h1 : v.tellStyle = ({ v with saidStyle := v.style } : Interpreter).tell (.style v.style) :=
      if_neg h
    have h2 : (v.withEdit x).tellStyle =
        (({ v with saidStyle := v.style } : Interpreter).tell (.style v.style)).withEdit x :=
      if_neg h
    rw [h1, h2]

theorem tellMode_withEdit : (v.withEdit x).tellMode = v.tellMode.withEdit x := by
  by_cases h : v.mode.isInsertion = v.saidInsertion
  · have h1 : v.tellMode = v := if_pos h
    have h2 : (v.withEdit x).tellMode = v.withEdit x := if_pos h
    rw [h1, h2]
  · let told := ({ v with saidInsertion := v.mode.isInsertion } : Interpreter).tell
      (.mode v.mode.isInsertion)
    have h1 : v.tellMode = told.tellStyle := if_neg h
    have h2 : (v.withEdit x).tellMode = (told.withEdit x).tellStyle := if_neg h
    rw [h1, h2, tellStyle_withEdit]

theorem send_withEdit (e : ModeEvent) : (v.withEdit x).send e = (v.send e).withEdit x := by
  by_cases h : v.running = true
  · let moved : Interpreter := { v with mode := v.mode.step e }
    have h1 : v.send e = moved.tellMode.callFollowers := if_pos h
    have h2 : (v.withEdit x).send e = (moved.withEdit x).tellMode.callFollowers := if_pos h
    rw [h1, h2, tellMode_withEdit]
    rfl
  · have h1 : v.send e = v := if_neg h
    have h2 : (v.withEdit x).send e = v.withEdit x := if_neg h
    rw [h1, h2]

end

theorem tellMode_keeps {α : Type} {f : Interpreter → α}
    (h : ∀ (v : Interpreter) calls saidInsertion saidStyle log subscribers,
      f { v with calls, saidInsertion, saidStyle, log, subscribers } = f v)
    (v : Interpreter) : f v.tellMode = f v := by
  have hstyle : ∀ v : Interpreter, f v.tellStyle = f v := fun v => by
    unfold tellStyle
    split
    · rfl
    · exact h v ..
  unfold tellMode
  split
  · rfl
  · rw [hstyle]
    exact h v ..

/-- An event changes the mode, what was said of it and who listens, nothing else. -/
theorem send_keeps {α : Type} {f : Interpreter → α}
    (h : ∀ (v : Interpreter) mode calls saidInsertion saidStyle log subscribers,
      f { v with mode, calls, saidInsertion, saidStyle, log, subscribers } = f v)
    (v : Interpreter) (e : ModeEvent) : f (v.send e) = f v := by
  unfold send
  split
  · have hcall : ∀ v : Interpreter, f v.callFollowers = f v := fun v => h v ..
    rw [hcall, tellMode_keeps fun v _ _ _ _ _ => h v ..]
    exact h v ..
  · rfl

theorem send_mode (v : Interpreter) (e : ModeEvent) :
    (v.send e).mode = if v.running then v.mode.step e else v.mode := by
  unfold send
  split
  · exact tellMode_keeps (f := mode) (fun _ _ _ _ _ _ => rfl) _
  · rfl

theorem send_lastEdit (v : Interpreter) (e : ModeEvent) : (v.send e).lastEdit = v.lastEdit :=
  send_keeps (fun _ _ _ _ _ _ _ => rfl) v e

theorem send_remember (v : Interpreter) (s : Stroke) (e : ModeEvent) :
    (v.remember s).send e = (v.send e).remember s := by
  cases s with
  | edit r => exact v.send_withEdit (some r) e
  | _ => rfl

theorem hear_keeps {α : Type} {f : Interpreter → α}
    (h : ∀ (v : Interpreter) mode calls saidInsertion saidStyle log subscribers,
      f { v with mode, calls, saidInsertion, saidStyle, log, subscribers } = f v)
    (v : Interpreter) (es : List ModeEvent) : f (v.hear es) = f v := by
  induction es generalizing v with
  | nil => rfl
  | cons e es ih => rw [hear_cons, ih, send_keeps h]

theorem hear_mode {v : Interpreter} (h : v.running = true) (es : List ModeEvent) :
    (v.hear es).mode = es.foldl Mode.step v.mode := by
  induction es generalizing v with
  | nil => rfl
  | cons e es ih =>
    have hr : (v.send e).running = true := by
      rw [send_keeps (f := running) (fun _ _ _ _ _ _ _ => rfl), h]
    rw [hear_cons, ih hr, send_mode, if_pos h]
    rfl

theorem remember_keeps {α : Type} {f : Interpreter → α}
    (h : ∀ (v : Interpreter) lastEdit, f { v with lastEdit } = f v) (v : Interpreter) (s : Stroke) :
    f (v.remember s) = f v := by
  cases s with
  | edit e => exact h v _
  | _ => rfl

end Interpreter

namespace Desk

/-- What was read, done. -/
def carry (d : Desk) (r : Reading) : Except EditError Desk :=
  (d.buffer.make (r.stroke.change d.buffer.text d.buffer.cursor d.register)).map fun buffer =>
    { d with
      buffer
      register := r.stroke.register d.buffer.text d.buffer.cursor d.register
      vi := (d.vi.hear r.events).remember r.stroke }

theorem carry_of_make {d : Desk} {r : Reading} {b : Buffer}
    (h : d.buffer.make (r.stroke.change d.buffer.text d.buffer.cursor d.register) = .ok b) :
    d.carry r = .ok { d with
      buffer := b
      register := r.stroke.register d.buffer.text d.buffer.cursor d.register
      vi := (d.vi.hear r.events).remember r.stroke } := by
  rw [carry, h]
  rfl

theorem carry_send (d : Desk) (e : ModeEvent) (r : Reading) :
    (d.send e).carry r = d.carry { r with events := e :: r.events } := rfl

theorem carry_map_send (d : Desk) (r : Reading) (e : ModeEvent) :
    (d.carry r).map (send · e) = d.carry { r with events := r.events ++ [e] } := by
  unfold carry
  cases d.buffer.make (r.stroke.change d.buffer.text d.buffer.cursor d.register) with
  | error e => rfl
  | ok b =>
    simp only [Except.map, send, Interpreter.send_remember, Interpreter.hear_append]
    rfl

/-! ## Edits -/

theorem edit_eq (d : Desk) (e : Repeatable) :
    d.edit e = (d.buffer.follow (e.plan d.buffer.text d.buffer.cursor d.register)).map fun buffer =>
      { d with
        buffer
        register := (Stroke.edit e).register d.buffer.text d.buffer.cursor d.register } := by
  cases e with
  | deleteChar =>
    simp only [edit, Repeatable.plan, Stroke.register, Repeatable.cuts]
    split <;> rfl
  | delete =>
    simp only [edit, Repeatable.plan, Stroke.register, Repeatable.cuts]
    split <;> rfl
  | paste => rfl
  | overwrite => rfl

theorem perform_eq (d : Desk) (e : Repeatable) : d.perform e = d.carry { stroke := .edit e } := by
  unfold perform carry
  rw [edit_eq]
  cases hf : d.buffer.follow (e.plan d.buffer.text d.buffer.cursor d.register) with
  | error e => simp [Stroke.change, Buffer.make, hf, bind, Except.bind, Except.map]
  | ok b =>
    simp [Stroke.change, Buffer.make, hf, bind, Except.bind, Except.map, pure, Except.pure,
      Interpreter.remember, Interpreter.withEdit]

/-! ## Reading a key -/

/-- The keys that are neither motion, operator nor insertion. -/
def readControl (d : Desk) : Control → Reading
  | .go => { stroke := if d.vi.pending = .go then .top else .rest, events := [.go] }
  | .deleteChar => { stroke := .edit .deleteChar, events := [.reset] }
  | .paste => { stroke := .edit .paste, events := [.reset] }
  | .overwrite => { events := [.reset, .overwrite] }
  | .again => { stroke := d.vi.lastEdit.elim .rest .edit, events := [.reset] }
  | .undo => { stroke := .undo, events := [.reset] }
  | .pageUp => { stroke := .page d.pageLines .up, events := [.reset] }
  | .pageDown => { stroke := .page d.pageLines .down, events := [.reset] }
  | .navigation | .chord => { events := [.reset], verdict := .passThrough }
  | .escape | .newline | .unmapped => { events := [.reset] }

/-- An operator key. -/
def readOperator (d : Desk) (op : Operator) : Reading :=
  if op = .delete ∧ d.buffer.cursor.hasSelection then
    { stroke := .edit .delete, events := [.reset] }
  else
    { stroke := if d.vi.pending = .operator op then op.stroke else .rest
      events := [.operator op] }

/-- A command in navigation. -/
def readCommand (d : Desk) : Command → Reading
  | .motion m select => { stroke := .move m select, events := [.reset] }
  | .operator op => d.readOperator op
  | .insert place => { stroke := .insert place, events := [.reset, .insert] }
  | .control c => d.readControl c

/-- A key given to the interpreter. -/
def read (d : Desk) (k : KeyPress) : Reading :=
  let command := Command.ofKey d.vi.qStartsLine k
  if command = .control .newline ∧ d.vi.autoIndent then
    { stroke := .breakLine, events := if d.vi.pending = .overwrite then [.reset] else [] }
  else if !d.vi.enabled then { verdict := .passThrough }
  else if command = .control .pageUp then { stroke := .page d.pageLines .up }
  else if command = .control .pageDown then { stroke := .page d.pageLines .down }
  else if d.vi.mode.isInsertion then
    if command = .control .escape ∧ k.isChord = false then { events := [.escape] }
    else { events := [.reset], verdict := .passThrough }
  else if d.vi.pending = .overwrite then
    match k.character? with
    | some character => { stroke := .edit (.overwrite character), events := [.reset] }
    | none =>
      let r := d.readCommand command
      { r with events := .reset :: r.events }
  else d.readCommand command

theorem readOperator_verdict (d : Desk) (op : Operator) :
    (d.readOperator op).verdict = .handled := by
  unfold readOperator
  split <;> rfl

/-- What may be read, whatever the order in which the interpreter looks at a key. -/
theorem read_cases {P : Reading → Prop} (d : Desk) (k : KeyPress)
    (breakLine : ∀ events, P { stroke := .breakLine, events })
    (page : ∀ direction, P { stroke := .page d.pageLines direction })
    (escape : P { events := [.escape] })
    (passThrough : ∀ events, P { events, verdict := .passThrough })
    (overwrite : ∀ character, k.character? = some character →
      P { stroke := .edit (.overwrite character), events := [.reset] })
    (command : ∀ events, P { d.readCommand (Command.ofKey d.vi.qStartsLine k) with events }) :
    P (d.read k) := by
  unfold read
  dsimp only
  split
  · exact breakLine _
  split
  · exact passThrough []
  split
  · exact page .up
  split
  · exact page .down
  split
  · split
    · exact escape
    · exact passThrough _
  split
  · split
    · rename_i character hk
      exact overwrite character hk
    · exact command _
  · exact command _

theorem read_cases_of_navigation {P : Reading → Prop} {d : Desk} {k : KeyPress}
    (he : d.vi.enabled = true) (hm : d.vi.mode.isInsertion = false)
    (breakLine : Command.ofKey d.vi.qStartsLine k = .control .newline → d.vi.autoIndent = true →
      ∀ events, P { stroke := .breakLine, events })
    (page : ∀ direction, P { stroke := .page d.pageLines direction })
    (overwrite : ∀ character, d.vi.pending = .overwrite → k.character? = some character →
      P { stroke := .edit (.overwrite character), events := [.reset] })
    (command : ∀ events, P { d.readCommand (Command.ofKey d.vi.qStartsLine k) with events }) :
    P (d.read k) := by
  unfold read
  simp only [he, hm]
  split
  · rename_i hn
    exact breakLine hn.1 hn.2 _
  split
  · rename_i hoff
    cases hoff
  split
  · exact page .up
  split
  · exact page .down
  split
  · rename_i hi
    cases hi
  split
  · rename_i hp
    split
    · rename_i character hk
      exact overwrite character hp hk
    · exact command _
  · exact command _

/-! ## The interpreter's answer -/

theorem undo_eq (d : Desk) : d.undo = { d with buffer := d.buffer.takeBack } := by
  rcases h : d.buffer.undo with ⟨b, _ | o⟩ <;> simp only [undo, Buffer.takeBack, h]

theorem pageLines_hear (d : Desk) (es : List ModeEvent) :
    ({ d with vi := d.vi.hear es } : Desk).pageLines = d.pageLines := by
  unfold pageLines
  rw [Interpreter.hear_keeps (f := Interpreter.pageLines) fun _ _ _ _ _ _ _ => rfl]

theorem bind_pair {ε α β : Type} (x : Except ε α) (y : β) :
    (x >>= fun a => pure (a, y)) = x.map (·, y) :=
  bind_pure_comp (·, y) x

theorem control_eq (d : Desk) (c : Control) :
    d.control c = (d.carry (d.readControl c)).map (·, (d.readControl c).verdict) := by
  have hperform : ∀ e : Repeatable,
      ((d.send .reset).perform e >>= fun d => pure (d, Verdict.handled)) =
        (d.carry { stroke := .edit e, events := [.reset] }).map (·, .handled) := fun e => by
    rw [bind_pair, perform_eq, carry_send]
  cases c with
  | go =>
    by_cases h : d.vi.pending = .go
    · simp only [control, go, readControl, if_pos h]
      rfl
    · simp only [control, go, readControl, if_neg h]
      rfl
  | deleteChar => exact hperform .deleteChar
  | paste => exact hperform .paste
  | again =>
    have hl : (d.send .reset).vi.lastEdit = d.vi.lastEdit := d.vi.send_lastEdit .reset
    cases h : d.vi.lastEdit with
    | none => simp [control, act, readControl, hl, h]; rfl
    | some e =>
      simp only [control, act, readControl, hl, h]
      exact hperform e
  | undo =>
    simp only [control, act, readControl, undo_eq]
    rfl
  | pageUp =>
    have hp : (d.send .reset).pageLines = d.pageLines := d.pageLines_hear [.reset]
    simp only [control, act, readControl, scroll, hp]
    rfl
  | pageDown =>
    have hp : (d.send .reset).pageLines = d.pageLines := d.pageLines_hear [.reset]
    simp only [control, act, readControl, scroll, hp]
    rfl
  | _ => rfl

theorem operate_eq (d : Desk) (op : Operator) : d.operate op = d.carry (d.readOperator op) := by
  unfold operate readOperator
  by_cases hs : op = .delete ∧ d.buffer.cursor.hasSelection
  · rw [if_pos hs, if_pos hs, perform_eq, carry_send]
  · rw [if_neg hs, if_neg hs]
    by_cases hp : d.vi.pending = .operator op
    · rw [if_pos hp, if_pos hp]
      cases op with
      | delete =>
        have h := carry_map_send d { stroke := .edit .delete } (.operator .delete)
        rw [← perform_eq] at h
        exact (h ▸ rfl)
      | yank => rfl
    · rw [if_neg hp, if_neg hp]
      rfl

theorem beginInsertion_eq (d : Desk) (place : InsertPlace) :
    d.beginInsertion place = d.carry (d.readCommand (.insert place)) := by
  have h : (d.send .reset).prepareInsertion place =
      d.carry { stroke := .insert place, events := [.reset] } := by
    cases place <;> rfl
  have hc := carry_map_send d { stroke := .insert place, events := [.reset] } .insert
  unfold beginInsertion
  rw [h]
  exact hc

theorem obey_eq (d : Desk) (c : Command) :
    d.obey c = (d.carry (d.readCommand c)).map (·, (d.readCommand c).verdict) := by
  cases c with
  | motion m select => rfl
  | operator op =>
    simp only [readCommand, readOperator_verdict, ← operate_eq]
    exact bind_pair (d.operate op) Verdict.handled
  | insert place =>
    rw [← beginInsertion_eq]
    exact bind_pair (d.beginInsertion place) Verdict.handled
  | control c => exact d.control_eq c

/-- What is read in navigation does not depend on a pending `r`. -/
theorem readCommand_hear {d : Desk} {es : List ModeEvent}
    (h : d.vi.pending ∈ [.idle, .overwrite]) (h' : (d.vi.hear es).pending ∈ [.idle, .overwrite])
    (c : Command) : ({ d with vi := d.vi.hear es } : Desk).readCommand c = d.readCommand c := by
  have hp : ∀ {p : Pending}, p ∉ [.idle, .overwrite] →
      (d.vi.hear es).pending ≠ p ∧ d.vi.pending ≠ p := fun hp =>
    ⟨fun heq => hp (heq ▸ h'), fun heq => hp (heq ▸ h)⟩
  cases c with
  | motion | insert => rfl
  | operator op =>
    have hop := hp (p := .operator op) (by simp)
    simp only [readCommand, readOperator, if_neg hop.1, if_neg hop.2]
  | control c =>
    have hgo := hp (p := .go) (by simp)
    have hl : (d.vi.hear es).lastEdit = d.vi.lastEdit :=
      Interpreter.hear_keeps (fun _ _ _ _ _ _ _ => rfl) d.vi es
    have hlines := d.pageLines_hear es
    cases c <;> simp only [readCommand, readControl, if_neg hgo.1, if_neg hgo.2, hl, hlines]

/-- **The interpreter's answer to a key** is what it reads, carried out. -/
theorem press_eq (d : Desk) (k : KeyPress) :
    d.press k = (d.carry (d.read k)).map (·, (d.read k).verdict) := by
  unfold press read
  dsimp only
  by_cases hn : Command.ofKey d.vi.qStartsLine k = .control .newline ∧ d.vi.autoIndent
  · rw [if_pos hn, if_pos hn]
    by_cases hp : d.vi.pending = .overwrite
    · rw [if_pos hp, if_pos hp]
      exact bind_pair _ Verdict.handled
    · rw [if_neg hp, if_neg hp]
      exact bind_pair _ Verdict.handled
  rw [if_neg hn, if_neg hn]
  by_cases he : (!d.vi.enabled) = true
  · rw [if_pos he, if_pos he]
    rfl
  rw [if_neg he, if_neg he]
  by_cases hu : Command.ofKey d.vi.qStartsLine k = .control .pageUp
  · rw [if_pos hu, if_pos hu]
    rfl
  rw [if_neg hu, if_neg hu]
  by_cases hd : Command.ofKey d.vi.qStartsLine k = .control .pageDown
  · rw [if_pos hd, if_pos hd]
    rfl
  rw [if_neg hd, if_neg hd]
  by_cases hi : d.vi.mode.isInsertion = true
  · rw [if_pos hi, if_pos hi]
    unfold pressInserting
    split <;> rfl
  rw [if_neg hi, if_neg hi]
  unfold pressNavigating
  by_cases hp : d.vi.pending = .overwrite
  · rw [if_pos hp, if_pos hp]
    cases k.character? with
    | none =>
      dsimp only
      have hidle : (d.vi.hear [.reset]).pending ∈ [.idle, .overwrite] := by
        show (d.vi.send .reset).mode.pending ∈ _
        rw [Interpreter.send_mode]
        split
        · rw [(Mode.step_reset _).2]
          decide
        · rw [show d.vi.mode.pending = .overwrite from hp]
          decide
      rw [obey_eq, show d.send .reset = { d with vi := d.vi.hear [.reset] } from rfl,
        readCommand_hear (by simp [hp]) hidle]
      exact congrArg _ (carry_send ..)
    | some character =>
      dsimp only
      rw [perform_eq, carry_send]
      exact bind_pair _ Verdict.handled
  · rw [if_neg hp, if_neg hp, obey_eq]

end Desk

/-! ## Plain typing -/

/-- What a named key types; `none` if plain typing declines it. -/
def NamedKey.typed? (pageLines : Int) (select : Bool) : NamedKey → Option Stroke
  | .backspace => some .eraseBackward
  | .delete => some .eraseForward
  | .tab => some (.type [ModalEditor.tab])
  | .enter => some (.type [newline])
  | .arrowLeft => some (.move .left select)
  | .arrowRight => some (.move .right select)
  | .arrowUp => some (.move .up select)
  | .arrowDown => some (.move .down select)
  | .home => some (.move .lineStart select)
  | .endKey => some (.move .lineEnd select)
  | .pageUp => some (.page pageLines .up)
  | .pageDown => some (.page pageLines .down)
  | .escape => none

/-- What a key types; `none` if plain typing declines it. -/
def KeyPress.typed? (pageLines : Int) (k : KeyPress) : Option Stroke :=
  if k.isChord then none
  else match k.named? with
    | some named => named.typed? pageLines k.hasShift
    | none => if k.key = [] ∨ k.key.any CodeUnit.isUntypable then none else some (.type k.key)

/-- Typing leaves the register and the last edit alone. -/
structure Stroke.Typed (s : Stroke) : Prop where
  register : ∀ t c register, s.register t c register = register
  remember : ∀ v : Interpreter, v.remember s = v

theorem NamedKey.typed_of_typed? {pageLines : Int} {select : Bool} {k : NamedKey} {s : Stroke}
    (h : k.typed? pageLines select = some s) : s.Typed := by
  cases k <;> cases h <;> exact ⟨fun _ _ _ => rfl, fun _ => rfl⟩

theorem KeyPress.typed_of_typed? {pageLines : Int} {k : KeyPress} {s : Stroke}
    (h : k.typed? pageLines = some s) : s.Typed := by
  unfold typed? at h
  split at h
  · cases h
  split at h
  · exact NamedKey.typed_of_typed? h
  split at h
  · cases h
  · cases h
    exact ⟨fun _ _ _ => rfl, fun _ => rfl⟩

namespace Buffer

theorem typeText_eq (b : Buffer) (t : Text) :
    b.typeText t = b.make (Stroke.typing b.text b.cursor t) := by
  unfold typeText
  cases h : b.replace (b.text.clamp b.cursor.first) (b.text.clamp b.cursor.last) t <;>
    simp only [make, Stroke.typing, h] <;> rfl

theorem eraseBackward_eq (b : Buffer) (register : Text) :
    b.eraseBackward = b.make (Stroke.eraseBackward.change b.text b.cursor register) := by
  unfold eraseBackward
  dsimp only [Stroke.change]
  split
  · exact b.typeText_eq []
  split
  · rfl
  · rw [make]
    cases b.replace (b.text.prev (b.text.clamp b.cursor.position)) (b.text.clamp b.cursor.position)
      [] <;> rfl

theorem eraseForward_eq (b : Buffer) (register : Text) :
    b.eraseForward = b.make (Stroke.eraseForward.change b.text b.cursor register) := by
  unfold eraseForward
  dsimp only [Stroke.change]
  split
  · exact b.typeText_eq []
  split
  · rfl
  · rw [make]
    cases b.replace (b.text.clamp b.cursor.position) (b.text.next (b.text.clamp b.cursor.position))
      [] <;> rfl

theorem pressNamed_eq (b : Buffer) (pageLines : Int) (select : Bool) (k : NamedKey)
    (register : Text) :
    b.pressNamed pageLines select k =
      (k.typed? pageLines select).map fun s => b.make (s.change b.text b.cursor register) := by
  cases k with
  | backspace => exact congrArg some (b.eraseBackward_eq register)
  | delete => exact congrArg some (b.eraseForward_eq register)
  | tab => exact congrArg some (b.typeText_eq [tab])
  | enter => exact congrArg some (b.typeText_eq [newline])
  | _ => rfl

theorem press_eq (b : Buffer) (pageLines : Int) (k : KeyPress) (register : Text) :
    b.press pageLines k = match k.typed? pageLines with
      | none => .ok (b, false)
      | some s => (b.make (s.change b.text b.cursor register)).map (·, true) := by
  unfold press KeyPress.typed?
  by_cases hc : k.isChord = true
  · rw [if_pos hc, if_pos hc]
  rw [if_neg hc, if_neg hc]
  cases hk : k.named? with
  | some named =>
    dsimp only
    rw [pressNamed_eq b pageLines _ named register]
    cases named.typed? pageLines k.hasShift <;> rfl
  | none =>
    dsimp only
    by_cases hu : k.key = [] ∨ k.key.any CodeUnit.isUntypable
    · rw [if_pos hu, if_pos hu]
    · rw [if_neg hu, if_neg hu]
      dsimp only
      rw [typeText_eq]
      rfl

end Buffer

namespace Desk

/-- **Plain typing** is the stroke of the key, carried out. -/
theorem typeKey_eq (d : Desk) (k : KeyPress) :
    d.typeKey k = match k.typed? d.typingPageLines with
      | none => .ok (d, false)
      | some s => (d.carry { stroke := s }).map (·, true) := by
  unfold typeKey
  rw [d.buffer.press_eq d.typingPageLines k d.register]
  cases hk : k.typed? d.typingPageLines with
  | none => rfl
  | some s =>
    obtain ⟨hr, hv⟩ := KeyPress.typed_of_typed? hk
    simp only [carry, hr, hv]
    cases d.buffer.make (s.change d.buffer.text d.buffer.cursor d.register) <;> rfl

/-- A key given to the interpreter and, if it is passed through, to plain typing. -/
def readThrough (d : Desk) (k : KeyPress) : Reading :=
  match (d.read k).verdict with
  | .handled => d.read k
  | .passThrough =>
    { d.read k with stroke := (k.typed? d.typingPageLines).getD .rest }

/-- The interpreter or plain typing takes the key. -/
def takes (d : Desk) (k : KeyPress) : Bool :=
  (d.read k).verdict = .handled || (k.typed? d.typingPageLines).isSome

theorem read_stroke_of_passThrough {d : Desk} {k : KeyPress}
    (h : (d.read k).verdict = .passThrough) : (d.read k).stroke = .rest := by
  have hcommand : ∀ c, (d.readCommand c).verdict = .passThrough →
      (d.readCommand c).stroke = .rest := by
    intro c hc
    cases c with
    | motion | insert => cases hc
    | operator op =>
      rw [readCommand, readOperator_verdict] at hc
      cases hc
    | control c => cases c <;> first | rfl | cases hc
  revert h
  apply read_cases (P := fun r => r.verdict = .passThrough → r.stroke = .rest)
  case breakLine | page | escape | overwrite => simp
  case passThrough => exact fun _ _ => rfl
  case command => exact fun _ => hcommand _

/-- **A key given to both**, the interpreter first, is read through and carried out. -/
theorem offer_eq (d : Desk) (k : KeyPress) :
    d.offer k = (d.carry (d.readThrough k)).map (·, d.takes k) := by
  unfold offer readThrough takes
  rw [press_eq]
  cases hv : (d.read k).verdict with
  | handled =>
    cases d.carry (d.read k) <;> rfl
  | passThrough =>
    have hs := read_stroke_of_passThrough hv
    have hc : d.carry (d.read k) = .ok { d with vi := d.vi.hear (d.read k).events } := by
      unfold carry
      rw [hs]
      rfl
    rw [hc]
    have ht := typeKey_eq { d with vi := d.vi.hear (d.read k).events } k
    have hl : typingPageLines { d with vi := d.vi.hear (d.read k).events } = d.typingPageLines :=
      rfl
    rw [hl] at ht
    simp only [Except.map, bind, Except.bind, ht]
    cases hk : k.typed? d.typingPageLines with
    | none => rfl
    | some s => rfl

/-! ## The change of a key -/

/-- The change a key makes. -/
def change (d : Desk) (k : KeyPress) : Change :=
  (d.readThrough k).stroke.change d.buffer.text d.buffer.cursor d.register

theorem change_fits (d : Desk) (k : KeyPress) : (d.change k).Fits d.buffer.text :=
  Stroke.change_fits _ _ _ _

theorem change_ne_undo {d : Desk} {k : KeyPress} (h : (d.readThrough k).stroke ≠ .undo) :
    d.change k ≠ .undo :=
  Stroke.change_ne_undo h

theorem offer_of_make {d : Desk} {k : KeyPress} {b : Buffer}
    (h : d.buffer.make (d.change k) = .ok b) :
    d.offer k = .ok ({ d with
      buffer := b
      register := (d.readThrough k).stroke.register d.buffer.text d.buffer.cursor d.register
      vi := (d.vi.hear (d.readThrough k).events).remember (d.readThrough k).stroke },
      d.takes k) := by
  rw [offer_eq, carry_of_make h]
  rfl

end Desk

/-! ## Where a stroke comes from -/

/-- A stroke that neither undoes nor brings a text of its own. -/
def Stroke.isPlain : Stroke → Bool
  | .undo | .edit (.overwrite _) | .type _ => false
  | _ => true

namespace Desk

/-- Where the stroke of a key comes from. -/
inductive Source (d : Desk) (k : KeyPress) : Stroke → Prop where
  | plain {s : Stroke} (h : s.isPlain = true) : Source d k s
  | undo (h : Command.ofKey d.vi.qStartsLine k = .control .undo) : Source d k .undo
  | again {e : Repeatable} (h : d.vi.lastEdit = some e) : Source d k (.edit e)
  | overwrite {t : Text} (h : k.character? = some t) : Source d k (.edit (.overwrite t))
  | type {t : Text} (h : t = k.key ∨ t = [tab] ∨ t = [newline]) : Source d k (.type t)

variable {d : Desk} {k : KeyPress}

theorem source_of_typed {pageLines : Int} {s : Stroke} (h : k.typed? pageLines = some s) :
    d.Source k s := by
  unfold KeyPress.typed? at h
  split at h
  · cases h
  split at h
  · rename_i named _
    cases named with
    | tab => cases h; exact .type (.inr (.inl rfl))
    | enter => cases h; exact .type (.inr (.inr rfl))
    | escape => cases h
    | _ => cases h; exact .plain rfl
  split at h
  · cases h
  · cases h
    exact .type (.inl rfl)

theorem source_readOperator (op : Operator) : d.Source k (d.readOperator op).stroke := by
  unfold readOperator
  split
  · exact .plain rfl
  · dsimp only
    split
    · cases op <;> exact .plain rfl
    · exact .plain rfl

theorem source_readCommand :
    d.Source k (d.readCommand (Command.ofKey d.vi.qStartsLine k)).stroke := by
  cases hc : Command.ofKey d.vi.qStartsLine k with
  | motion | insert => exact .plain rfl
  | operator op => exact source_readOperator op
  | control c =>
    cases c with
    | undo => exact .undo hc
    | go =>
      dsimp only [readCommand, readControl]
      split <;> exact .plain rfl
    | again =>
      dsimp only [readCommand, readControl]
      cases hl : d.vi.lastEdit with
      | none => exact .plain rfl
      | some e => exact .again hl
    | _ => exact .plain rfl

theorem source_read : d.Source k (d.read k).stroke := by
  apply read_cases (P := fun r => d.Source k r.stroke)
  case breakLine | page | passThrough => exact fun _ => .plain rfl
  case escape => exact .plain rfl
  case overwrite => exact fun _ hk => .overwrite hk
  case command => exact fun _ => source_readCommand

/-- The stroke of a key comes from the key or from what the interpreter remembers. -/
theorem source_readThrough : d.Source k (d.readThrough k).stroke := by
  unfold readThrough
  split
  · exact source_read
  · dsimp only
    cases hk : k.typed? d.typingPageLines with
    | none => exact .plain rfl
    | some s => exact source_of_typed hk

end Desk

end ModalEditor
