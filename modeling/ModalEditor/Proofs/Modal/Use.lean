import ModalEditor.Proofs.Modal.Office

/-!
# What may be done with an interpreter

A `Use` of an interpreter is a key or something else at a desk, with any register and any buffer, a
request by its host, or a subscriber taking its leave. `Interpreter.Truthful` is what all uses keep
short of stopping the interpreter: the mode and the style that were told last are still so
(`Interpreter.Truthful.use`). It fails only within a use, from the change of a flag to
`Interpreter.tellStyle`, which makes it true again.
-/

namespace ModalEditor

namespace Interpreter

/-- What may be done with an interpreter. -/
inductive Use where
  /-- Something at a desk, with any register and any buffer. -/
  | desk (register : Text) (buffer : Buffer) (bare : Bool) (op : Desk.Op)
  | host (op : Op)
  | unsubscribe (s : Subscriber)

namespace Use

/-- The interpreter is not stopped, and `s` is left as the subscriber it is. -/
def Spares (s : Subscriber) : Use → Prop
  | .host .stop => False
  | .host (.subscribe s') | .unsubscribe s' => s' ≠ s
  | .desk .. | .host _ => True

/-- The interpreter turned on or off, where it was not so before. -/
def turn? (enabled : Bool) : Use → Option Bool
  | .host (.setEnabled e) => if e = enabled then none else some e
  | _ => none

end Use

/-- The interpreter after a use. -/
def use (v : Interpreter) : Use → Interpreter
  | .desk register buffer bare op => (Desk.step { vi := v, register, buffer, bare } op).vi
  | .host op => v.step op
  | .unsubscribe s => v.unsubscribe s

def run (v : Interpreter) (us : List Use) : Interpreter := us.foldl use v

/-! ## Telling -/

section
variable {v : Interpreter}

theorem tellStyle_keeps {α : Type} {f : Interpreter → α}
    (h : ∀ (v : Interpreter) saidStyle log calls subscribers,
      f { v with saidStyle, log, calls, subscribers } = f v)
    (v : Interpreter) : f v.tellStyle = f v := by
  unfold tellStyle
  split
  · rfl
  · exact h v ..

theorem tellStyle_saidStyle (v : Interpreter) : v.tellStyle.saidStyle = v.style := by
  unfold tellStyle
  split
  · exact Eq.symm ‹_›
  · rfl

theorem send_of_steady {e : ModeEvent} (hr : v.running = true)
    (hi : v.saidInsertion = v.mode.isInsertion)
    (hsteady : (v.mode.step e).isInsertion = v.mode.isInsertion) :
    v.send e = { v with mode := v.mode.step e }.callFollowers := by
  rw [send, if_pos hr, tellMode, if_pos (hsteady.trans hi.symm)]

theorem send_of_flip {e : ModeEvent} (hr : v.running = true)
    (hi : v.saidInsertion = v.mode.isInsertion)
    (hflip : (v.mode.step e).isInsertion ≠ v.mode.isInsertion) :
    v.send e = (({ v with mode := v.mode.step e, saidInsertion := (v.mode.step e).isInsertion }.tell
      (.mode (v.mode.step e).isInsertion)).tellStyle).callFollowers := by
  rw [send, if_pos hr, tellMode, if_neg fun h => hflip (h.trans hi)]

/-- What is told of being turned on or off, after the event that it sends to the mode. -/
def announce (v : Interpreter) (enabled : Bool) : Interpreter :=
  if enabled then (v.tell (.enabled enabled)).tell (.mode false) else v.tell (.enabled enabled)

theorem setEnabled_of_ne {enabled : Bool} (h : enabled ≠ v.enabled) :
    v.setEnabled enabled = (({ v with enabled }.send .navigate).announce enabled).tellStyle :=
  if_neg (Ne.symm h)

theorem announce_keeps {α : Type} {f : Interpreter → α}
    (h : ∀ (v : Interpreter) log calls subscribers, f { v with log, calls, subscribers } = f v)
    (v : Interpreter) (enabled : Bool) : f (v.announce enabled) = f v := by
  have htell : ∀ (v : Interpreter) n, f (v.tell n) = f v := fun v _ => h v ..
  unfold announce
  split <;> simp only [htell]

/-! ## The truth of what was told -/

/-- The interpreter runs, and what was told last is still so. -/
structure Truthful (v : Interpreter) : Prop where
  running : v.running = true
  insertion : v.saidInsertion = v.mode.isInsertion
  style : v.saidStyle = v.style

theorem truthful_tellStyle (hr : v.running = true) (hi : v.saidInsertion = v.mode.isInsertion) :
    v.tellStyle.Truthful where
  running := (tellStyle_keeps (fun _ _ _ _ _ => rfl) v).trans hr
  insertion := by
    rw [tellStyle_keeps (f := saidInsertion) fun _ _ _ _ _ => rfl,
      tellStyle_keeps (f := mode) fun _ _ _ _ _ => rfl, hi]
  style := by
    rw [tellStyle_saidStyle, tellStyle_keeps (f := Interpreter.style) fun _ _ _ _ _ => rfl]

theorem send_steady_said {e : ModeEvent} (hr : v.running = true)
    (hi : v.saidInsertion = v.mode.isInsertion)
    (hsteady : (v.mode.step e).isInsertion = v.mode.isInsertion) :
    (v.send e).running = true ∧ (v.send e).saidInsertion = (v.send e).mode.isInsertion ∧
      (v.send e).saidStyle = v.saidStyle ∧ (v.send e).style = v.style := by
  rw [send_of_steady hr hi hsteady]
  exact ⟨hr, hi.trans hsteady.symm, rfl, congrArg (styleOf v.enabled v.blockCursor) hsteady⟩

theorem send_flip_truthful {e : ModeEvent} (hr : v.running = true)
    (hi : v.saidInsertion = v.mode.isInsertion)
    (hflip : (v.mode.step e).isInsertion ≠ v.mode.isInsertion) : (v.send e).Truthful := by
  rw [send_of_flip hr hi hflip]
  obtain ⟨hrun, hins, hstyle⟩ := truthful_tellStyle (v := { v with
    mode := v.mode.step e, saidInsertion := (v.mode.step e).isInsertion }.tell
      (.mode (v.mode.step e).isInsertion)) hr rfl
  exact ⟨hrun, hins, hstyle⟩

namespace Truthful

theorem send (h : v.Truthful) (e : ModeEvent) : (v.send e).Truthful := by
  by_cases hflip : (v.mode.step e).isInsertion = v.mode.isInsertion
  · obtain ⟨hr, hi, hsaid, hstyle⟩ := send_steady_said h.running h.insertion hflip
    exact ⟨hr, hi, by rw [hsaid, hstyle, h.style]⟩
  · exact send_flip_truthful h.running h.insertion hflip

theorem hear (h : v.Truthful) (es : List ModeEvent) : (v.hear es).Truthful := by
  induction es generalizing v with
  | nil => exact h
  | cons e es ih => exact ih (h.send e)

theorem setEnabled (h : v.Truthful) (enabled : Bool) : (v.setEnabled enabled).Truthful := by
  by_cases he : enabled = v.enabled
  · rwa [Interpreter.setEnabled, if_pos he.symm]
  -- the flag has changed, so the style told last may be wrong until the end
  obtain ⟨hr, hi⟩ : ({ v with enabled }.send .navigate).running = true ∧
      ({ v with enabled }.send .navigate).saidInsertion =
        ({ v with enabled }.send .navigate).mode.isInsertion := by
    by_cases hflip : (v.mode.step .navigate).isInsertion = v.mode.isInsertion
    · obtain ⟨hr, hi, -⟩ := send_steady_said (v := { v with enabled }) h.running h.insertion hflip
      exact ⟨hr, hi⟩
    · obtain ⟨hr, hi, -⟩ := send_flip_truthful (v := { v with enabled }) h.running h.insertion hflip
      exact ⟨hr, hi⟩
  rw [setEnabled_of_ne he]
  apply truthful_tellStyle
  · rw [announce_keeps (f := Interpreter.running) fun _ _ _ _ => rfl, hr]
  · rw [announce_keeps (f := saidInsertion) fun _ _ _ _ => rfl,
      announce_keeps (f := mode) fun _ _ _ _ => rfl, hi]

end Truthful

end

/-! ## Keys -/

/-- All events but the last are resets. -/
def ResetsFirst (es : List ModeEvent) : Prop := ∀ e ∈ es.dropLast, e = .reset

theorem resetsFirst_reset_cons {es : List ModeEvent} (h : ResetsFirst es) :
    ResetsFirst (.reset :: es) := by
  cases es with
  | nil => exact List.forall_mem_nil _
  | cons e es => exact List.forall_mem_cons.2 ⟨rfl, h⟩

end Interpreter

namespace Desk

theorem readCommand_resetsFirst (d : Desk) (c : Command) :
    Interpreter.ResetsFirst (d.readCommand c).events := by
  cases c with
  | motion => exact List.forall_mem_nil _
  | operator op =>
    simp only [readCommand, readOperator]
    split <;> exact List.forall_mem_nil _
  | insert => exact Interpreter.resetsFirst_reset_cons (List.forall_mem_nil _)
  | control c =>
    cases c with
    | overwrite => exact Interpreter.resetsFirst_reset_cons (List.forall_mem_nil _)
    | _ => exact List.forall_mem_nil _

/-- Of the events of a key only the last one may be more than a reset. -/
theorem read_resetsFirst (d : Desk) (k : KeyPress) :
    Interpreter.ResetsFirst (d.read k).events := by
  unfold read
  dsimp only
  split
  · split <;> exact List.forall_mem_nil _
  split
  · exact List.forall_mem_nil _
  split
  · exact List.forall_mem_nil _
  split
  · exact List.forall_mem_nil _
  split
  · split <;> exact List.forall_mem_nil _
  split
  · split
    · exact List.forall_mem_nil _
    · exact Interpreter.resetsFirst_reset_cons (d.readCommand_resetsFirst _)
  · exact d.readCommand_resetsFirst _

theorem reading_resetsFirst (d : Desk) (op : Op) :
    Interpreter.ResetsFirst (d.reading op).events := by
  cases op with
  | offer k =>
    rw [reading, readThrough]
    split <;> exact d.read_resetsFirst k
  | press k => exact d.read_resetsFirst k
  | typeKey k =>
    rw [reading]
    cases k.typed? d.typingPageLines <;> exact List.forall_mem_nil _
  | typeText | scroll => exact List.forall_mem_nil _

/-- What is done at a desk comes to the interpreter as events, and maybe as an edit to remember. -/
theorem step_vi (d : Desk) (op : Op) :
    (d.step op).vi = (d.vi.hear (d.reading op).events).remember (d.reading op).stroke := by
  obtain ⟨b, -, hd⟩ := d.step_eq op
  rw [hd]

end Desk

namespace Interpreter

section
variable {v : Interpreter}

/-- **One use** keeps the interpreter truthful, unless it stops it. -/
theorem Truthful.use (h : v.Truthful) {u : Use} (hu : u ≠ .host .stop) : (v.use u).Truthful := by
  cases u with
  | desk register buffer bare op =>
    let d : Desk := { vi := v, register, buffer, bare }
    rw [Interpreter.use, d.step_vi op]
    obtain ⟨hr, hi, hstyle⟩ := h.hear (d.reading op).events
    cases (d.reading op).stroke <;> exact ⟨hr, hi, hstyle⟩
  | unsubscribe s => exact ⟨h.running, h.insertion, h.style⟩
  | host op =>
    cases op with
    | setEnabled enabled => exact h.setEnabled enabled
    | setBlockCursor blockCursor => exact truthful_tellStyle h.running h.insertion
    | setAutoIndent | subscribe => exact ⟨h.running, h.insertion, h.style⟩
    | reset => exact h.send .navigate
    | stop => exact absurd rfl hu

theorem Truthful.run (h : v.Truthful) {us : List Use} (hus : ∀ u ∈ us, u ≠ .host .stop) :
    (v.run us).Truthful := by
  induction us generalizing v with
  | nil => exact h
  | cons u us ih =>
    obtain ⟨hu, hus⟩ := List.forall_mem_cons.1 hus
    exact ih (h.use hu) hus

theorem truthful_new (enabled blockCursor autoIndent qStartsLine : Bool) (pageLines : Int) :
    (new enabled blockCursor autoIndent qStartsLine pageLines).Truthful := ⟨rfl, rfl, rfl⟩

/-! ## Being turned on or off -/

theorem ne_of_turn {u : Use} {enabled e : Bool} (h : u.turn? enabled = some e) : e ≠ enabled := by
  unfold Use.turn? at h
  split at h
  · split at h
    · cases h
    · cases h
      assumption
  · cases h

theorem use_enabled {u : Use} :
    (v.use u).enabled = (u.turn? v.enabled).getD v.enabled := by
  cases u with
  | desk register buffer bare op =>
    rw [Interpreter.use, Desk.step_vi, remember_keeps (f := Interpreter.enabled) fun _ _ => rfl,
      hear_keeps (f := Interpreter.enabled) fun _ _ _ _ _ _ _ => rfl]
    rfl
  | unsubscribe => rfl
  | host op =>
    cases op with
    | setEnabled enabled =>
      by_cases he : enabled = v.enabled
      · simp [Interpreter.use, Interpreter.step, Interpreter.setEnabled, Use.turn?, he]
      · rw [Interpreter.use, Interpreter.step, setEnabled_of_ne he,
          tellStyle_keeps (f := Interpreter.enabled) fun _ _ _ _ _ => rfl,
          announce_keeps (f := Interpreter.enabled) fun _ _ _ _ => rfl,
          send_keeps (f := Interpreter.enabled) fun _ _ _ _ _ _ _ => rfl, Use.turn?, if_neg he]
        rfl
    | setBlockCursor blockCursor =>
      exact tellStyle_keeps (f := Interpreter.enabled) (fun _ _ _ _ _ => rfl) _
    | reset => exact send_keeps (f := Interpreter.enabled) (fun _ _ _ _ _ _ _ => rfl) _ _
    | setAutoIndent | subscribe | stop => rfl

theorem use_mode_of_turn {u : Use} (hr : v.running = true) (h : u.turn? v.enabled ≠ none) :
    (v.use u).mode.isInsertion = false := by
  cases u with
  | desk | unsubscribe => exact absurd rfl h
  | host op =>
    cases op with
    | setEnabled enabled =>
      by_cases he : enabled = v.enabled
      · exact absurd (if_pos he) h
      · rw [Interpreter.use, Interpreter.step, setEnabled_of_ne he,
          tellStyle_keeps (f := Interpreter.mode) fun _ _ _ _ _ => rfl,
          announce_keeps (f := Interpreter.mode) fun _ _ _ _ => rfl, send_mode, if_pos hr]
        cases v.mode <;> rfl
    | _ => exact absurd rfl h

end

end Interpreter

end ModalEditor
