import ModalEditor.Proofs.Modal.Notices

/-!
# Calls

A call says nothing, and yet one who looks at each call knows all there is to know: the mode at the
events, the cursor style and whether the interpreter is on at the notices (`Sight.look`). So the calls
of a use lead from what there was to see before it to what there is to see after it
(`Interpreter.Attends.use_learns`). The style may change with the mode or with a flag, and being
turned on or off changes both, but whatever changes is called after the change and before the use
is over.
-/

namespace ModalEditor

/-- What there is to see of an interpreter. -/
structure Sight where
  mode : Mode
  style : CursorStyle
  enabled : Bool
deriving DecidableEq

/-- What is known after a call by one who looks: the mode at an event, the rest at a notice. -/
def Sight.look (s : Subscriber) (x : Sight) : Call → Sight
  | .event mode => { x with mode }
  | .notice t style enabled => if t = s then { x with style, enabled } else x

theorem Sight.foldl_look_notices (s : Subscriber) (style : CursorStyle) (enabled : Bool)
    (subscribers : List Subscriber) (x : Sight) :
    (subscribers.map (Call.notice · style enabled)).foldl (look s) x =
      if s ∈ subscribers then { x with style, enabled } else x := by
  induction subscribers generalizing x with
  | nil => rfl
  | cons t rest ih =>
    rw [List.map_cons, List.foldl_cons, ih, look]
    by_cases ht : t = s
    · simp [ht]
    · simp [ht, Ne.symm ht]

namespace Interpreter

/-- What there is to see now. -/
def sight (v : Interpreter) : Sight := ⟨v.mode, v.style, v.enabled⟩

/-- From `v` to `v'`, one who knows `x` and looks at each call comes to know `x'`. -/
def Learns (s : Subscriber) (v v' : Interpreter) (x x' : Sight) : Prop :=
  ∃ cs, v'.calls = v.calls ++ cs ∧ cs.foldl (Sight.look s) x = x'

section
variable {s : Subscriber} {v v' v'' : Interpreter} {x x' x'' : Sight}

theorem Learns.refl (s : Subscriber) (v : Interpreter) (x : Sight) : Learns s v v x x :=
  ⟨[], (List.append_nil _).symm, rfl⟩

theorem Learns.trans (h : Learns s v v' x x') (h' : Learns s v' v'' x' x'') :
    Learns s v v'' x x'' := by
  obtain ⟨cs, hcalls, rfl⟩ := h
  obtain ⟨cs', hcalls', rfl⟩ := h'
  exact ⟨cs ++ cs', by rw [hcalls', hcalls, List.append_assoc], List.foldl_append⟩

theorem tell_learns (hm : s ∈ v.subscribers) (n : Notice) (x : Sight) :
    Learns s v (v.tell n) x { x with style := v.style, enabled := v.enabled } := by
  refine ⟨_, rfl, ?_⟩
  rw [Sight.foldl_look_notices, if_pos hm]

theorem callFollowers_learns (s : Subscriber) (v : Interpreter) (x : Sight) :
    Learns s v v.callFollowers x { x with mode := v.mode } := ⟨_, rfl, rfl⟩

/-- Whether the style is told or was told before, it is known in the end. -/
theorem tellStyle_learns (hm : s ∈ v.subscribers) (henabled : x.enabled = v.enabled)
    (hstyle : v.style = v.saidStyle → x.style = v.style) :
    Learns s v v.tellStyle x { x with style := v.style } := by
  rcases x with ⟨mode, style, enabled⟩
  unfold tellStyle
  split
  · rename_i hsaid
    obtain rfl : style = v.style := hstyle hsaid
    exact .refl s v _
  · obtain rfl : enabled = v.enabled := henabled
    exact tell_learns (v := { v with saidStyle := v.style }) hm _ _

theorem Hears.mem {ns : List Notice} (h : Hears s v v' ns) (hm : s ∈ v.subscribers) :
    s ∈ v'.subscribers := by
  rw [← List.count_pos_iff, h.stays]
  exact List.count_pos_iff.2 hm

/-! ## Events -/

theorem send_steady_learns {e : ModeEvent} (hr : v.running = true)
    (hi : v.saidInsertion = v.mode.isInsertion)
    (hsteady : (v.mode.step e).isInsertion = v.mode.isInsertion) (x : Sight) :
    Learns s v (v.send e) x { x with mode := (v.send e).mode } := by
  rw [send_of_steady hr hi hsteady]
  exact callFollowers_learns s { v with mode := v.mode.step e } x

/-- At a flip everything is told, whatever was known before. -/
theorem send_flip_learns {e : ModeEvent} (hs : s.once = false) (hm : s ∈ v.subscribers)
    (hr : v.running = true) (hi : v.saidInsertion = v.mode.isInsertion)
    (hflip : (v.mode.step e).isInsertion ≠ v.mode.isInsertion) (x : Sight) :
    Learns s v (v.send e) x (v.send e).sight := by
  rw [send_of_flip hr hi hflip]
  let moved : Interpreter :=
    { v with mode := v.mode.step e, saidInsertion := (v.mode.step e).isInsertion }
  let told := moved.tell (.mode (v.mode.step e).isInsertion)
  -- one who looks at the notice of the flip sees the new style already
  have hmode := tell_learns (v := moved) hm (.mode (v.mode.step e).isInsertion) x
  have hstyle : Learns s told told.tellStyle
      { x with style := told.style, enabled := told.enabled }
      { x with style := told.style, enabled := told.enabled } :=
    tellStyle_learns ((tell_hears hs moved _).mem hm) rfl fun _ => rfl
  have hsight : told.tellStyle.sight = told.sight :=
    tellStyle_keeps (f := sight) (fun _ _ _ _ _ => rfl) told
  have hall := (hmode.trans hstyle).trans (callFollowers_learns s told.tellStyle _)
  have hx : ({ mode := told.tellStyle.mode, style := told.style, enabled := told.enabled } : Sight) =
      told.tellStyle.sight := by
    rw [hsight, tellStyle_keeps (f := Interpreter.mode) fun _ _ _ _ _ => rfl]
    rfl
  rw [hx] at hall
  exact hall

theorem announce_learns (hs : s.once = false) (hm : s ∈ v.subscribers) (enabled : Bool)
    (x : Sight) :
    Learns s v (v.announce enabled) x { x with style := v.style, enabled := v.enabled } := by
  have htold := tell_learns hm (.enabled enabled) x
  cases enabled with
  | false => exact htold
  | true => exact htold.trans (tell_learns ((tell_hears hs v _).mem hm) (.mode false) _)

/-! ## Uses -/

/-- A subscriber of an interpreter that has told nothing untrue. -/
structure Attends (s : Subscriber) (v : Interpreter) : Prop where
  truthful : v.Truthful
  subscribed : s ∈ v.subscribers

namespace Attends

theorem send (h : Attends s v) (hs : s.once = false) (e : ModeEvent) : Attends s (v.send e) :=
  ⟨h.truthful.send e, (h.truthful.send_hears hs e).mem h.subscribed⟩

theorem send_learns (h : Attends s v) (hs : s.once = false) (e : ModeEvent) :
    Learns s v (v.send e) v.sight (v.send e).sight := by
  obtain ⟨⟨hr, hi, -⟩, hm⟩ := h
  by_cases hsteady : (v.mode.step e).isInsertion = v.mode.isInsertion
  · obtain ⟨-, -, -, hstyle⟩ := send_steady_said hr hi hsteady
    have henabled : (v.send e).enabled = v.enabled := send_keeps (fun _ _ _ _ _ _ _ => rfl) v e
    have hsight : (v.send e).sight = { v.sight with mode := (v.send e).mode } := by
      rw [sight, hstyle, henabled]
      rfl
    rw [hsight]
    exact send_steady_learns hr hi hsteady v.sight
  · exact send_flip_learns hs hm hr hi hsteady v.sight

theorem hear_learns (h : Attends s v) (hs : s.once = false) (es : List ModeEvent) :
    Learns s v (v.hear es) v.sight (v.hear es).sight := by
  induction es generalizing v with
  | nil => exact .refl s v v.sight
  | cons e es ih => exact (h.send_learns hs e).trans (ih (h.send hs e))

theorem setBlockCursor_learns (h : Attends s v) (blockCursor : Bool) :
    Learns s v (v.setBlockCursor blockCursor) v.sight (v.setBlockCursor blockCursor).sight := by
  let set : Interpreter := { v with blockCursor }
  have hsight : set.tellStyle.sight = set.sight :=
    tellStyle_keeps (f := sight) (fun _ _ _ _ _ => rfl) set
  have hlearns : Learns s set set.tellStyle v.sight set.sight :=
    tellStyle_learns h.subscribed rfl fun hsaid => (h.truthful.style ▸ hsaid).symm
  rw [setBlockCursor, hsight]
  exact hlearns

theorem setEnabled_learns (h : Attends s v) (hs : s.once = false) (enabled : Bool) :
    Learns s v (v.setEnabled enabled) v.sight (v.setEnabled enabled).sight := by
  obtain ⟨⟨hr, hi, -⟩, hm⟩ := h
  by_cases he : enabled = v.enabled
  · have hsame : v.setEnabled enabled = v := if_pos he.symm
    rw [hsame]
    exact .refl s v v.sight
  let set : Interpreter := { v with enabled }
  let sent := set.send .navigate
  let told := sent.announce enabled
  -- without a flip the event shows the mode only, and the style is not told until the end
  obtain ⟨x, hsent, hmode, hsubscribed⟩ : ∃ x, Learns s set sent v.sight x ∧ x.mode = sent.mode ∧
      s ∈ sent.subscribers := by
    by_cases hsteady : (set.mode.step .navigate).isInsertion = set.mode.isInsertion
    · exact ⟨_, send_steady_learns (v := set) hr hi hsteady v.sight, rfl,
        (send_steady_hears (v := set) hr hi hsteady).mem hm⟩
    · exact ⟨_, send_flip_learns (v := set) hs hm hr hi hsteady v.sight, rfl,
        (send_flip_hears (v := set) hs hr hi hsteady).mem hm⟩
  have hannounced := announce_learns hs hsubscribed enabled x
  have hx : ({ x with style := sent.style, enabled := sent.enabled } : Sight) = told.sight := by
    rw [hmode, announce_keeps (f := sight) fun _ _ _ _ => rfl]
    rfl
  rw [hx] at hannounced
  have hstyle : Learns s told told.tellStyle told.sight told.sight :=
    tellStyle_learns ((announce_hears hs sent enabled).mem hsubscribed) rfl fun _ => rfl
  have hsight : told.tellStyle.sight = told.sight :=
    tellStyle_keeps (f := sight) (fun _ _ _ _ _ => rfl) told
  rw [setEnabled_of_ne he, hsight]
  exact (hsent.trans hannounced).trans hstyle

theorem use (h : Attends s v) (hs : s.once = false) {u : Use} (hu : u.Spares s) :
    Attends s (v.use u) :=
  ⟨h.truthful.use hu.ne_stop, (h.truthful.use_hears hs hu).mem h.subscribed⟩

/-- **One use** is seen in full by one who looks at its calls. -/
theorem use_learns (h : Attends s v) (hs : s.once = false) {u : Use} (hu : u.Spares s) :
    Learns s v (v.use u) v.sight (v.use u).sight := by
  cases u with
  | desk register buffer bare op =>
    let d : Desk := { vi := v, register, buffer, bare }
    have hlearns := h.hear_learns hs (d.reading op).events
    rw [Interpreter.use, d.step_vi op]
    cases (d.reading op).stroke <;> exact hlearns
  | unsubscribe s' => exact .refl s v v.sight
  | host op =>
    cases op with
    | setEnabled enabled => exact h.setEnabled_learns hs enabled
    | setBlockCursor blockCursor => exact h.setBlockCursor_learns blockCursor
    | setAutoIndent | subscribe => exact .refl s v v.sight
    | reset => exact h.send_learns hs .navigate
    | stop => cases hu

end Attends

end

end Interpreter

end ModalEditor
