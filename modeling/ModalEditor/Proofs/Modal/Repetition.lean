import ModalEditor.Proofs.Key.Letter
import ModalEditor.Proofs.Modal.Use

/-!
# Repeating is retyping

`.` repeats the last edit, not the keys that asked for it. `Interpreter.again_retypes`: after any run
of an interpreter, in navigation with nothing pending, `.` does what is done by the keys of the last
`x`, `d`, `p` or `r` of the run (`Repeatable.keys`), on whatever buffer and with whatever register.
The keys of a run tell which command that was (`Interpreter.commands`), and `Interpreter.run_lastEdit`
says that the interpreter remembers it.

A stopped interpreter does not wait for a second key any more: there `dd` and `r` with its character
do nothing of the kind, while `.` still repeats them (`Interpreter.again_without_keys`), and the two
agree for the commands of one key only.
-/

namespace ModalEditor

/-- The keys that ask for an edit: `d` once for a selection, twice for a line. -/
def Repeatable.keys (c : Cursor) : Repeatable → List KeyPress
  | .deleteChar => [{ key := Text.ofString "x" }]
  | .delete =>
    if c.hasSelection then [{ key := Text.ofString "d" }]
    else [{ key := Text.ofString "d" }, { key := Text.ofString "d" }]
  | .paste => [{ key := Text.ofString "p" }]
  | .overwrite character => [{ key := Text.ofString "r" }, { key := character }]

/-- The edit can be asked for: what is to stand there is a character. -/
def Repeatable.Askable : Repeatable → Prop
  | .overwrite t => ({ key := t } : KeyPress).character? = some t
  | _ => True

theorem Command.ofKey_letter (q : Bool) :
    ofKey q { key := Text.ofString "x" } = .control .deleteChar ∧
      ofKey q { key := Text.ofString "d" } = .operator .delete ∧
      ofKey q { key := Text.ofString "p" } = .control .paste ∧
      ofKey q { key := Text.ofString "r" } = .control .overwrite ∧
      ofKey q { key := Text.ofString "." } = .control .again := by
  cases q <;> decide

/-- The edit that a stroke makes and that is remembered. -/
def Stroke.edit? : Stroke → Option Repeatable
  | .edit e => some e
  | _ => none

theorem Interpreter.remember_lastEdit (v : Interpreter) (s : Stroke) (es : List ModeEvent) :
    ((v.hear es).remember s).lastEdit = s.edit?.or v.lastEdit := by
  have hv : (v.hear es).lastEdit = v.lastEdit := hear_keeps (fun _ _ _ _ _ _ _ => rfl) v es
  cases s with
  | edit e => rfl
  | _ => exact hv

namespace Desk

/-- The edit that a command asks for; `d` on a selection only, or the second time. -/
def asked? (d : Desk) : Command → Option Repeatable
  | .control .deleteChar => some .deleteChar
  | .control .paste => some .paste
  | .operator .delete =>
    if d.buffer.cursor.hasSelection ∨ d.vi.pending = .operator .delete then some .delete else none
  | _ => none

/-- The `x`, `d`, `p` or `r` of which a key is the last one. -/
def command? (d : Desk) (k : KeyPress) : Option Repeatable :=
  if !d.vi.enabled || d.vi.mode.isInsertion then none
  else if d.vi.pending = .overwrite ∧ k.character?.isSome then k.character?.map .overwrite
  else d.asked? (Command.ofKey d.vi.qStartsLine k)

/-- Keys given to the interpreter, first to last. -/
def pressAll (d : Desk) (ks : List KeyPress) : Except EditError Desk :=
  ks.foldlM (fun d k => (d.press k).map Prod.fst) d

/-- The same buffer, with its cursor, history and version, the same register, mode and last edit. -/
structure Alike (d d' : Desk) : Prop where
  buffer : d.buffer = d'.buffer
  register : d.register = d'.register
  mode : d.vi.mode = d'.vi.mode
  lastEdit : d.vi.lastEdit = d'.vi.lastEdit

variable {d : Desk} {k : KeyPress}

/-! ## Two ways to one stroke -/

theorem carry_alike (d : Desk) (s : Stroke) {es es' : List ModeEvent}
    (h : (d.vi.hear es).mode = (d.vi.hear es').mode) :
    ∃ d₁ d₂, d.carry { stroke := s, events := es } = .ok d₁ ∧
      d.carry { stroke := s, events := es' } = .ok d₂ ∧ d₁.Alike d₂ := by
  obtain ⟨d₁, h₁, -⟩ := d.exists_carry { stroke := s, events := es }
  obtain ⟨d₂, h₂, -⟩ := d.exists_carry { stroke := s, events := es' }
  refine ⟨d₁, d₂, h₁, h₂, ?_⟩
  unfold carry at h₁ h₂
  cases hb : d.buffer.make (s.change d.buffer.text d.buffer.cursor d.register) with
  | error e =>
    rw [hb] at h₁
    cases h₁
  | ok b =>
    rw [hb] at h₁ h₂
    rw [← Except.ok.inj h₁, ← Except.ok.inj h₂]
    refine ⟨rfl, rfl, ?_, ?_⟩
    · simp only [Interpreter.remember_keeps (f := Interpreter.mode) fun _ _ => rfl]
      exact h
    · simp only [Interpreter.remember_lastEdit]

theorem carry_hear (d : Desk) (es : List ModeEvent) (r : Reading) :
    ({ d with vi := d.vi.hear es } : Desk).carry r =
      d.carry { r with events := es ++ r.events } := by
  unfold carry
  rw [Interpreter.hear_append]

theorem press_of_rest {es : List ModeEvent} (h : d.read k = { events := es }) :
    d.press k = .ok ({ d with vi := d.vi.hear es }, .handled) := by
  rw [press_eq, h]
  rfl

theorem read_of_command (he : d.vi.enabled = true) (hi : d.vi.mode.isInsertion = false)
    (hp : d.vi.pending ≠ .overwrite) {c : Command} (hc : Command.ofKey d.vi.qStartsLine k = c)
    (hw : c ∉ [.control .newline, .control .pageUp, .control .pageDown]) :
    d.read k = d.readCommand c := by
  simp only [List.mem_cons, List.not_mem_nil, or_false, not_or] at hw
  obtain ⟨hnewline, hup, hdown⟩ := hw
  simp [read, hc, he, hi, hp, hnewline, hup, hdown]

theorem read_of_character (he : d.vi.enabled = true) (hi : d.vi.mode.isInsertion = false)
    (hp : d.vi.pending = .overwrite) {character : Text} (hk : k.character? = some character) :
    d.read k = { stroke := .edit (.overwrite character), events := [.reset] } := by
  have hne : ∀ c, c = .newline ∨ c = .pageUp ∨ c = .pageDown →
      Command.ofKey d.vi.qStartsLine k ≠ .control c := by
    intro c hc h
    rw [Command.character?_of_ofKey h hc] at hk
    cases hk
  simp [read, he, hi, hp, hk, hne .newline (.inl rfl), hne .pageUp (.inr (.inl rfl)),
    hne .pageDown (.inr (.inr rfl))]

/-! ## The keys of an edit -/

theorem press_dot (he : d.vi.enabled = true) (hm : d.vi.mode = .navigation .idle) {e : Repeatable}
    (hl : d.vi.lastEdit = some e) :
    d.press { key := Text.ofString "." } =
      (d.carry { stroke := .edit e, events := [.reset] }).map (·, .handled) := by
  have hp : d.vi.pending ≠ .overwrite := by simp [Interpreter.pending, hm, Mode.pending]
  obtain ⟨-, -, -, -, hc⟩ := Command.ofKey_letter d.vi.qStartsLine
  have hread := read_of_command he (by rw [hm]; rfl) hp hc (by decide)
  rw [press_eq, hread, readCommand, readControl, hl]
  rfl

theorem pressAll_single {r : Reading} (h : d.read k = r) : d.pressAll [k] = d.carry r := by
  simp only [pressAll, List.foldlM_cons, List.foldlM_nil, press_eq, h]
  cases d.carry r <;> rfl

theorem pressAll_pair {k' : KeyPress} {es : List ModeEvent} {r : Reading}
    (h : d.read k = { events := es })
    (h' : ({ d with vi := d.vi.hear es } : Desk).read k' = r) :
    d.pressAll [k, k'] = d.carry { r with events := es ++ r.events } := by
  rw [← carry_hear, ← pressAll_single h']
  simp only [pressAll, List.foldlM_cons, press_of_rest h]
  rfl

theorem hear_reset_mode (hm : d.vi.mode = .navigation .idle) :
    (d.vi.hear [.reset]).mode = .navigation .idle := by
  show (d.vi.send .reset).mode = _
  rw [Interpreter.send_mode, hm]
  split <;> rfl

/-- Between two keys the interpreter waits as its events say. -/
theorem hear_waits (hr : d.vi.running = true) (es : List ModeEvent) {p : Pending}
    (h : es.foldl Mode.step d.vi.mode = .navigation p) :
    (d.vi.hear es).enabled = d.vi.enabled ∧ (d.vi.hear es).qStartsLine = d.vi.qStartsLine ∧
      (d.vi.hear es).mode.isInsertion = false ∧ (d.vi.hear es).pending = p := by
  have hm := Interpreter.hear_mode hr es
  rw [h] at hm
  refine ⟨Interpreter.hear_keeps (fun _ _ _ _ _ _ _ => rfl) _ _,
    Interpreter.hear_keeps (fun _ _ _ _ _ _ _ => rfl) _ _, ?_, ?_⟩
  · rw [hm]
    rfl
  · rw [Interpreter.pending, hm]
    rfl

section
variable (he : d.vi.enabled = true) (hm : d.vi.mode = .navigation .idle)
include he hm

theorem pressAll_command {s : Stroke} {c : Command} (hc : Command.ofKey d.vi.qStartsLine k = c)
    (hw : c ∉ [.control .newline, .control .pageUp, .control .pageDown])
    (hs : d.readCommand c = { stroke := s, events := [.reset] }) :
    d.pressAll [k] = d.carry { stroke := s, events := [.reset] } := by
  apply pressAll_single
  rw [read_of_command he (by rw [hm]; rfl) (by simp [Interpreter.pending, hm, Mode.pending]) hc hw,
    hs]

theorem pressAll_twice (hr : d.vi.running = true) {op : Operator}
    (hk : Command.ofKey d.vi.qStartsLine k = .operator op)
    (hnone : ¬ (op = .delete ∧ d.buffer.cursor.hasSelection = true)) : d.pressAll [k, k] =
      d.carry { stroke := op.stroke, events := [.operator op, .operator op] } := by
  have hp : d.vi.pending = .idle := by rw [Interpreter.pending, hm]; rfl
  have hfirst : d.read k = { events := [.operator op] } := by
    rw [read_of_command he (by rw [hm]; rfl) (by rw [hp]; decide) hk (by simp), readCommand,
      readOperator, if_neg hnone, hp]
    rfl
  obtain ⟨he', hq, hi, hp'⟩ := hear_waits (p := .operator op) hr [.operator op] (by rw [hm]; rfl)
  rw [← hq] at hk
  rw [he] at he'
  have hsecond : ({ d with vi := d.vi.hear [.operator op] } : Desk).read k =
      { stroke := op.stroke, events := [.operator op] } := by
    rw [read_of_command he' hi (by rw [hp']; simp) hk (by simp), readCommand, readOperator,
      if_neg hnone, hp', if_pos rfl]
  exact pressAll_pair hfirst hsecond

theorem read_overwrite : d.read { key := Text.ofString "r" } = { events := [.reset, .overwrite] } :=
  have ⟨_, _, _, hkey, _⟩ := Command.ofKey_letter d.vi.qStartsLine
  read_of_command he (by rw [hm]; rfl) (by simp [Interpreter.pending, hm, Mode.pending]) hkey
    (by decide)

theorem pressAll_overwrite (hr : d.vi.running = true) {t : Text}
    (ht : ({ key := t } : KeyPress).character? = some t) :
    d.pressAll [{ key := Text.ofString "r" }, { key := t }] =
      d.carry { stroke := .edit (.overwrite t), events := [.reset, .overwrite, .reset] } := by
  obtain ⟨he', -, hi, hp⟩ := hear_waits hr [.reset, .overwrite] (by rw [hm]; rfl)
  rw [he] at he'
  have hsecond := read_of_character (d := { d with vi := d.vi.hear [.reset, .overwrite] })
    he' hi hp ht
  exact pressAll_pair (read_overwrite he hm) hsecond

theorem pressAll_keys {e : Repeatable} (ha : e.Askable)
    (hr : d.vi.running = true ∨ (e.keys d.buffer.cursor).length = 1) :
    ∃ es, d.pressAll (e.keys d.buffer.cursor) = d.carry { stroke := .edit e, events := es } ∧
      (d.vi.hear es).mode = .navigation .idle := by
  obtain ⟨hx, hd, hp, -, -⟩ := Command.ofKey_letter d.vi.qStartsLine
  have hreset := hear_reset_mode hm
  cases e with
  | deleteChar => exact ⟨_, pressAll_command he hm hx (by decide) rfl, hreset⟩
  | paste => exact ⟨_, pressAll_command he hm hp (by decide) rfl, hreset⟩
  | delete =>
    cases hs : d.buffer.cursor.hasSelection with
    | true =>
      rw [Repeatable.keys, if_pos hs]
      exact ⟨_, pressAll_command he hm hd (by decide) (if_pos ⟨rfl, hs⟩), hreset⟩
    | false =>
      have hkeys : Repeatable.delete.keys d.buffer.cursor =
          [{ key := Text.ofString "d" }, { key := Text.ofString "d" }] := by
        simp [Repeatable.keys, hs]
      have hrun : d.vi.running = true := hr.resolve_right (by simp [hkeys])
      rw [hkeys]
      refine ⟨_, pressAll_twice he hm hrun hd (by simp [hs]), ?_⟩
      rw [Interpreter.hear_mode hrun, hm]
      rfl
  | overwrite t =>
    have hrun : d.vi.running = true := hr.resolve_right (by simp [Repeatable.keys])
    refine ⟨_, pressAll_overwrite he hm hrun ha, ?_⟩
    rw [Interpreter.hear_mode hrun, hm]
    rfl

/-- `.` and the keys of the remembered edit do the same. -/
theorem dot_alike {e : Repeatable} (hl : d.vi.lastEdit = some e) (ha : e.Askable)
    (hr : d.vi.running = true ∨ (e.keys d.buffer.cursor).length = 1) :
    ∃ d₁ d₂, d.press { key := Text.ofString "." } = .ok (d₁, .handled) ∧
      d.pressAll (e.keys d.buffer.cursor) = .ok d₂ ∧ d₁.Alike d₂ := by
  obtain ⟨es, hkeys, hmode⟩ := pressAll_keys he hm ha hr
  obtain ⟨d₁, d₂, h₁, h₂, halike⟩ := d.carry_alike (.edit e) ((hear_reset_mode hm).trans hmode.symm)
  refine ⟨d₁, d₂, ?_, hkeys.trans h₂, halike⟩
  rw [press_dot he hm hl, h₁]
  rfl

end

/-! ## What is remembered -/

theorem edit?_readCommand (d : Desk) (c : Command) :
    (d.readCommand c).stroke.edit?.or d.vi.lastEdit = (d.asked? c).or d.vi.lastEdit := by
  cases c with
  | motion | insert => rfl
  | operator op =>
    cases op with
    | delete =>
      by_cases hs : d.buffer.cursor.hasSelection = true
      · simp [readCommand, readOperator, asked?, Stroke.edit?, hs]
      · by_cases hp : d.vi.pending = .operator .delete <;>
          simp [readCommand, readOperator, asked?, Stroke.edit?, Operator.stroke, hs, hp]
    | yank =>
      by_cases hp : d.vi.pending = .operator .yank <;>
        simp [readCommand, readOperator, asked?, Stroke.edit?, Operator.stroke, hp]
  | control c =>
    cases c with
    | go =>
      by_cases hp : d.vi.pending = .go <;> simp [readCommand, readControl, asked?, Stroke.edit?, hp]
    | again =>
      cases hl : d.vi.lastEdit <;> simp [readCommand, readControl, asked?, Stroke.edit?, hl]
    | _ => rfl

theorem command?_of_ofKey {c : Control} (h : Command.ofKey d.vi.qStartsLine k = .control c)
    (hc : c = .newline ∨ c = .pageUp ∨ c = .pageDown) : d.command? k = none := by
  have hk := Command.character?_of_ofKey h hc
  unfold command?
  split
  · rfl
  · rw [h, hk]
    obtain rfl | rfl | rfl := hc <;> simp [asked?]

/-- Where the stroke of a key comes from. An interpreter that is off or in insertion, a page and a line
break leave what a command would edit aside; after `r` a character is what the key is; and everything
else is a command. -/
inductive StrokeOf (d : Desk) (k : KeyPress) : Stroke → Prop where
  | aside {s : Stroke} (hs : s = .rest ∨ s = .breakLine ∨ ∃ lines direction, s = .page lines direction)
    (h : (!d.vi.enabled || d.vi.mode.isInsertion) = true ∨
      ∃ c, Command.ofKey d.vi.qStartsLine k = .control c ∧
        (c = .newline ∨ c = .pageUp ∨ c = .pageDown)) : StrokeOf d k s
  | character {t : Text} (hon : (!d.vi.enabled || d.vi.mode.isInsertion) = false)
    (hp : d.vi.pending = .overwrite) (ht : k.character? = some t) :
    StrokeOf d k (.edit (.overwrite t))
  | command (hon : (!d.vi.enabled || d.vi.mode.isInsertion) = false)
    (h : ¬ (d.vi.pending = .overwrite ∧ k.character?.isSome)) :
    StrokeOf d k (d.readCommand (Command.ofKey d.vi.qStartsLine k)).stroke

theorem strokeOf_read (d : Desk) (k : KeyPress) : d.StrokeOf k (d.read k).stroke := by
  unfold read
  dsimp only
  split
  · rename_i hn
    exact .aside (.inr (.inl rfl)) (.inr ⟨_, hn.1, .inl rfl⟩)
  split
  · rename_i he
    exact .aside (.inl rfl) (.inl (by rw [he]; rfl))
  rename_i he
  split
  · rename_i hc
    exact .aside (.inr (.inr ⟨_, _, rfl⟩)) (.inr ⟨_, hc, .inr (.inl rfl)⟩)
  split
  · rename_i hc
    exact .aside (.inr (.inr ⟨_, _, rfl⟩)) (.inr ⟨_, hc, .inr (.inr rfl)⟩)
  split
  · rename_i hi
    have hoff : (!d.vi.enabled || d.vi.mode.isInsertion) = true := by rw [hi, Bool.or_true]
    split <;> exact .aside (.inl rfl) (.inl hoff)
  rename_i hi
  have hon : (!d.vi.enabled || d.vi.mode.isInsertion) = false := by simp_all
  split
  · rename_i hp
    split
    · rename_i t ht
      exact .character hon hp ht
    · rename_i ht
      exact .command hon (by simp [ht])
  · rename_i hp
    exact .command hon fun h => hp h.1

/-- A key is remembered by the edit that it asks for. -/
theorem edit?_read (d : Desk) (k : KeyPress) :
    (d.read k).stroke.edit?.or d.vi.lastEdit = (d.command? k).or d.vi.lastEdit := by
  have h := d.strokeOf_read k
  generalize (d.read k).stroke = s at h
  cases h with
  | aside hs h =>
    have hstroke : s.edit? = none := by
      obtain rfl | rfl | ⟨lines, direction, rfl⟩ := hs <;> rfl
    have hcommand : d.command? k = none := by
      obtain hoff | ⟨c, hc, hcases⟩ := h
      · rw [command?, if_pos hoff]
      · exact command?_of_ofKey hc hcases
    rw [hstroke, hcommand]
  | character hon hp ht => simp [command?, hon, hp, ht, Stroke.edit?]
  | command hon h =>
    rw [command?, hon, if_neg (by decide), if_neg h]
    exact d.edit?_readCommand _

theorem askable_of_command? {e : Repeatable} (h : d.command? k = some e) : e.Askable := by
  unfold command? at h
  split at h
  · cases h
  split at h
  · obtain ⟨t, ht, rfl⟩ := Option.map_eq_some_iff.1 h
    obtain ⟨-, hcharacter, rfl⟩ := KeyPress.character?_eq_some_iff.1 ht
    exact KeyPress.character?_eq_some_iff.2 ⟨rfl, hcharacter, rfl⟩
  · unfold asked? at h
    split at h
    · cases h
      trivial
    · cases h
      trivial
    · split at h
      · cases h
        trivial
      · cases h
    · cases h

/-- The command that is completed by something done at a desk. -/
def given? (d : Desk) : Op → Option Repeatable
  | .offer k | .press k => d.command? k
  | .typeKey _ | .typeText _ | .scroll _ => none

theorem edit?_typed (k : KeyPress) (pageLines : Int) :
    ((k.typed? pageLines).getD .rest).edit? = none := by
  cases hk : k.typed? pageLines with
  | none => rfl
  | some s =>
    have htyped := (KeyPress.typed_of_typed? hk).remember (.new true true true true 0)
    cases s with
    | edit e => cases congrArg Interpreter.lastEdit htyped
    | _ => rfl

theorem step_lastEdit (d : Desk) (op : Op) :
    (d.step op).vi.lastEdit = (d.given? op).or d.vi.lastEdit := by
  rw [step_vi, Interpreter.remember_lastEdit]
  have hread := d.edit?_read
  cases op with
  | offer k =>
    rw [reading, readThrough, given?, ← hread k]
    cases hv : (d.read k).verdict with
    | handled => rfl
    | passThrough =>
      rw [read_stroke_of_passThrough hv]
      dsimp only
      rw [edit?_typed]
      rfl
  | press k => exact hread k
  | typeKey k =>
    have hstroke : (d.reading (.typeKey k)).stroke = (k.typed? d.typingPageLines).getD .rest := by
      rw [reading]
      cases k.typed? d.typingPageLines <;> rfl
    rw [hstroke, edit?_typed]
    rfl
  | typeText | scroll => rfl

end Desk

namespace Interpreter

/-- The command that is completed by a use. -/
def command? (v : Interpreter) : Use → Option Repeatable
  | .desk register buffer bare op => Desk.given? { vi := v, register, buffer, bare } op
  | .host _ | .unsubscribe _ => none

/-- The commands `x`, `d`, `p` and `r` of a run, first to last. -/
def commands (v : Interpreter) : List Use → List Repeatable
  | [] => []
  | u :: us => (v.command? u).toList ++ (v.use u).commands us

theorem use_lastEdit (v : Interpreter) (u : Use) :
    (v.use u).lastEdit = (v.command? u).or v.lastEdit := by
  have hsend : ∀ (v : Interpreter) e, (v.send e).lastEdit = v.lastEdit := send_lastEdit
  have htell : ∀ v : Interpreter, v.tellStyle.lastEdit = v.lastEdit :=
    tellStyle_keeps fun _ _ _ _ _ => rfl
  cases u with
  | desk register buffer bare op =>
    exact Desk.step_lastEdit { vi := v, register, buffer, bare } op
  | unsubscribe => rfl
  | host op =>
    cases op with
    | setEnabled enabled =>
      by_cases he : enabled = v.enabled
      · simp [use, step, setEnabled, he, command?]
      · simp only [use, step, setEnabled_of_ne he]
        rw [htell, announce_keeps (f := lastEdit) fun _ _ _ _ => rfl, hsend]
        rfl
    | setBlockCursor blockCursor => exact htell _
    | reset => exact hsend _ _
    | setAutoIndent | subscribe | stop => rfl

theorem run_lastEdit (v : Interpreter) (us : List Use) :
    (v.run us).lastEdit = (v.commands us).getLast?.or v.lastEdit := by
  induction us generalizing v with
  | nil => rfl
  | cons u us ih =>
    have hrun : (v.run (u :: us)).lastEdit = ((v.use u).run us).lastEdit := rfl
    rw [hrun, ih, use_lastEdit, commands, List.getLast?_append, Option.or_assoc]
    cases v.command? u <;> rfl

theorem askable_of_mem_commands {v : Interpreter} {us : List Use} {e : Repeatable}
    (h : e ∈ v.commands us) : e.Askable := by
  induction us generalizing v with
  | nil => cases h
  | cons u us ih =>
    rw [commands, List.mem_append, Option.mem_toList] at h
    obtain h | h := h
    · cases u with
      | host | unsubscribe => cases h
      | desk register buffer bare op =>
        cases op with
        | offer | press => exact Desk.askable_of_command? h
        | typeKey | typeText | scroll => cases h
    · exact ih h

/-- **Repeating is retyping.** After any run of an interpreter that is on, in navigation with nothing
pending, `.` does the same as the keys of the last command of the run, on whatever buffer and with
whatever register; if the interpreter is stopped, for commands of one key. -/
theorem again_retypes (enabled blockCursor autoIndent qStartsLine : Bool) (pageLines : Int)
    (us : List Use) {e : Repeatable} (register : Text) (buffer : Buffer) (bare : Bool) :
    let new := new enabled blockCursor autoIndent qStartsLine pageLines
    let v := new.run us
    let d : Desk := { vi := v, register, buffer, bare }
    (new.commands us).getLast? = some e → v.enabled = true → v.mode = .navigation .idle →
    v.running = true ∨ (e.keys buffer.cursor).length = 1 →
    ∃ d₁ d₂, d.press { key := Text.ofString "." } = .ok (d₁, .handled) ∧
      d.pressAll (e.keys buffer.cursor) = .ok d₂ ∧ d₁.Alike d₂ := by
  intro new v d hlast he hm hr
  have hedit : v.lastEdit = some e := by
    rw [new.run_lastEdit us, hlast]
    rfl
  exact Desk.dot_alike he hm hedit (askable_of_mem_commands (List.mem_of_getLast? hlast)) hr

/-- A line deleted in one buffer, and again in another one. -/
theorem again_retypes_elsewhere :
    let new := new true true true false 20
    let key (buffer : Buffer) : Use := .desk [] buffer false (.offer { key := Text.ofString "d" })
    let us := [key (.ofText [97, 10, 98] 20 100), key (.ofText [97, 10, 98] 20 100)]
    let v := new.run us
    let d : Desk := { vi := v, register := [], buffer := .ofText [120, 10, 121] 20 100 }
    ((new.commands us).getLast? = some .delete ∧ v.enabled = true ∧ v.mode = .navigation .idle ∧
        v.running = true) ∧
      ∃ d₁ d₂, d.press { key := Text.ofString "." } = .ok (d₁, .handled) ∧
        d.pressAll (Repeatable.delete.keys d.buffer.cursor) = .ok d₂ ∧ d₁.Alike d₂ := by
  intro new key us v d
  have hlast : (new.commands us).getLast? = some .delete := by decide
  have he : v.enabled = true := by decide
  have hm : v.mode = .navigation .idle := by decide
  have hr : v.running = true := by decide
  exact ⟨⟨hlast, he, hm, hr⟩,
    again_retypes true true true false 20 us _ _ _ hlast he hm (.inl hr)⟩

/-- A stopped interpreter repeats `dd`, but does not obey it. -/
theorem again_without_keys :
    let new := new true true true false 20
    let buffer := Buffer.ofText [97, 10, 98, 10, 99] 20 100
    let key : Use := .desk [] buffer false (.offer { key := Text.ofString "d" })
    let us := [key, key, .host .stop]
    let v := new.run us
    let d : Desk := { vi := v, register := [], buffer }
    (new.commands us).getLast? = some .delete ∧ v.enabled = true ∧ v.mode = .navigation .idle ∧
      ¬ ∃ d₁ d₂, d.press { key := Text.ofString "." } = .ok (d₁, .handled) ∧
        d.pressAll (Repeatable.delete.keys d.buffer.cursor) = .ok d₂ ∧ d₁.Alike d₂ := by
  intro new buffer key us v d
  refine ⟨by decide, by decide, by decide, ?_⟩
  rintro ⟨d₁, d₂, h₁, h₂, halike⟩
  have hdot : (d.press { key := Text.ofString "." }).toOption.map (·.1.buffer.text) =
      some [98, 10, 99] := by decide
  have hkeys : (d.pressAll (Repeatable.delete.keys d.buffer.cursor)).toOption.map (·.buffer.text) =
      some [97, 10, 98, 10, 99] := by decide
  rw [h₁] at hdot
  rw [h₂] at hkeys
  have hrest : d₁.buffer.text = [98, 10, 99] := Option.some.inj hdot
  have hwhole : d₂.buffer.text = [97, 10, 98, 10, 99] := Option.some.inj hkeys
  have htext := hrest.symm.trans ((congrArg Buffer.text halike.buffer).trans hwhole)
  exact absurd htext (by decide)

end Interpreter

end ModalEditor
