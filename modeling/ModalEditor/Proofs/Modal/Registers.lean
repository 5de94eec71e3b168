import ModalEditor.Proofs.Buffer.LineEdits
import ModalEditor.Proofs.Modal.Repetition

/-!
# What registers hold

A key keeps a line or a selection in the register of its interpreter, or it leaves every register
alone. `Desk.keeps?` tells which from the key and what it finds: the second `y` or `d` keeps the
cursor's line, `d` and `x` on a selection keep what they take out, and `.` keeps what the edit keeps
that it repeats. So a register holds what was kept last by the interpreters that share it
(`Office.registers_run`), and a selection that was taken out can be put back from it
(`Buffer.Gives`).
-/

namespace ModalEditor

/-- What of a text is kept. -/
inductive Kept where
  | line
  | selection
deriving DecidableEq, Repr

/-- The cursor's line with a line feed, nothing of an empty text; or the selection. -/
def Kept.content (t : Text) (c : Cursor) : Kept → Text
  | .line => if t = [] then [] else t.lineText (t.lineAt c.position) ++ [newline]
  | .selection => t.slice (t.clamp c.first) (t.clamp c.last)

/-! ## What is kept -/

/-- What an edit keeps: it takes out the selection, or else a line or a character. -/
def Repeatable.keeps? (c : Cursor) : Repeatable → Option Kept
  | .deleteChar => if c.hasSelection then some .selection else none
  | .delete => some (if c.hasSelection then .selection else .line)
  | .paste | .overwrite _ => none

/-- What a stroke keeps. -/
def Stroke.keeps? (c : Cursor) : Stroke → Option Kept
  | .edit e => e.keeps? c
  | .yank => some .line
  | _ => none

namespace Desk

/-- What a command of navigation keeps; `d` without a selection and `y` the second time only. -/
def keptBy? (d : Desk) : Command → Option Kept
  | .operator .delete =>
    if d.buffer.cursor.hasSelection ∨ d.vi.pending = .operator .delete then
      Repeatable.delete.keeps? d.buffer.cursor
    else none
  | .operator .yank => if d.vi.pending = .operator .yank then some .line else none
  | .control .deleteChar => Repeatable.deleteChar.keeps? d.buffer.cursor
  | .control .again => d.vi.lastEdit.bind (Repeatable.keeps? d.buffer.cursor)
  | _ => none

/-- What a key keeps: nothing if the interpreter is off or in insertion, and nothing if it is the
character after `r`. -/
def keeps? (d : Desk) (k : KeyPress) : Option Kept :=
  if !d.vi.enabled || d.vi.mode.isInsertion then none
  else if d.vi.pending = .overwrite ∧ k.character?.isSome then none
  else d.keptBy? (Command.ofKey d.vi.qStartsLine k)

/-- What is kept by something done at a desk. -/
def keepsOf? (d : Desk) : Op → Option Kept
  | .offer k | .press k => d.keeps? k
  | .typeKey _ | .typeText _ | .scroll _ => none

end Desk

/-! ## The register after a stroke -/

theorem Plan.cutLine_removed (t : Text) (c : Cursor) :
    (cutLine t c).removed = Kept.line.content t c := by
  unfold cutLine Kept.content
  split <;> rfl

theorem Plan.cutSelection_removed {t : Text} {c : Cursor} (h : c.hasSelection = true) :
    (cutSelection t c).removed = Kept.selection.content t c := by
  rw [cutSelection, if_pos h]
  rfl

theorem Stroke.register_eq (s : Stroke) (t : Text) (c : Cursor) (register : Text) :
    s.register t c register = ((s.keeps? c).map (Kept.content t c)).getD register := by
  cases s with
  | yank => rfl
  | edit e =>
    cases e with
    | paste | overwrite => rfl
    | deleteChar | delete =>
      cases hs : c.hasSelection with
      | true =>
        simp [Stroke.register, Stroke.keeps?, Repeatable.keeps?, Repeatable.cuts, Repeatable.plan,
          hs, Plan.cutSelection_removed]
      | false =>
        simp [Stroke.register, Stroke.keeps?, Repeatable.keeps?, Repeatable.cuts, Repeatable.plan,
          hs, Plan.cutLine_removed]
  | _ => rfl

theorem Stroke.change_of_selection {s : Stroke} {c : Cursor} (h : s.keeps? c = some .selection)
    (t register : Text) :
    c.hasSelection = true ∧ s.change t c register = .follow (.cutSelection t c) := by
  cases s with
  | edit e =>
    cases e with
    | paste | overwrite => cases h
    | deleteChar | delete =>
      cases hs : c.hasSelection with
      | true => simp [Stroke.change, Repeatable.plan, hs]
      | false => simp [Stroke.keeps?, Repeatable.keeps?, hs] at h
  | _ => cases h

namespace Desk

theorem keeps?_readCommand (d : Desk) (c : Command) :
    (d.readCommand c).stroke.keeps? d.buffer.cursor = d.keptBy? c := by
  cases c with
  | motion | insert => rfl
  | operator op =>
    cases op with
    | delete =>
      by_cases hs : d.buffer.cursor.hasSelection = true
      · simp [readCommand, readOperator, keptBy?, Stroke.keeps?, hs]
      · by_cases hp : d.vi.pending = .operator .delete <;>
          simp [readCommand, readOperator, keptBy?, Stroke.keeps?, Operator.stroke, hs, hp]
    | yank =>
      by_cases hp : d.vi.pending = .operator .yank <;>
        simp [readCommand, readOperator, keptBy?, Stroke.keeps?, Operator.stroke, hp]
  | control c =>
    cases c with
    | go =>
      by_cases hp : d.vi.pending = .go <;> simp [readCommand, readControl, keptBy?, Stroke.keeps?, hp]
    | again =>
      cases hl : d.vi.lastEdit <;> simp [readCommand, readControl, keptBy?, Stroke.keeps?, hl]
    | _ => rfl

/-- **A key keeps** what its stroke keeps. -/
theorem keeps?_read (d : Desk) (k : KeyPress) :
    (d.read k).stroke.keeps? d.buffer.cursor = d.keeps? k := by
  have h := d.strokeOf_read k
  generalize (d.read k).stroke = s at h
  cases h with
  | aside hs h =>
    have hstroke : s.keeps? d.buffer.cursor = none := by
      obtain rfl | rfl | ⟨lines, direction, rfl⟩ := hs <;> rfl
    rw [hstroke]
    unfold keeps?
    obtain hoff | ⟨c, hc, rfl | rfl | rfl⟩ := h
    · rw [if_pos hoff]
    all_goals
      rw [hc]
      split
      · rfl
      · split <;> rfl
  | character hon hp ht =>
    rw [keeps?, hon, if_neg (by decide), if_pos ⟨hp, by rw [ht]; rfl⟩]
    rfl
  | command hon h =>
    rw [keeps?, hon, if_neg (by decide), if_neg h]
    exact d.keeps?_readCommand _

theorem keeps?_typed (k : KeyPress) (pageLines : Int) (c : Cursor) :
    ((k.typed? pageLines).getD .rest).keeps? c = none := by
  have hedit := edit?_typed k pageLines
  cases hk : k.typed? pageLines with
  | none => rfl
  | some s =>
    rw [hk] at hedit
    cases s with
    | edit e => cases hedit
    | yank =>
      -- on an empty text a yank would empty the register
      have hregister := (KeyPress.typed_of_typed? hk).register [] c [newline]
      cases hregister
    | _ => rfl

theorem keeps?_reading (d : Desk) (op : Op) :
    (d.reading op).stroke.keeps? d.buffer.cursor = d.keepsOf? op := by
  have hread := d.keeps?_read
  cases op with
  | offer k =>
    rw [reading, readThrough, keepsOf?, ← hread k]
    cases hv : (d.read k).verdict with
    | handled => rfl
    | passThrough =>
      rw [read_stroke_of_passThrough hv]
      exact keeps?_typed k _ _
  | press k => exact hread k
  | typeKey k =>
    have hstroke : (d.reading (.typeKey k)).stroke = (k.typed? d.typingPageLines).getD .rest := by
      rw [reading]
      cases k.typed? d.typingPageLines <;> rfl
    rw [hstroke]
    exact keeps?_typed k _ _
  | typeText | scroll => rfl

/-- **What is done at a desk** leaves in the register what it keeps, or leaves it alone. -/
theorem step_register (d : Desk) (op : Op) : (d.step op).register =
    ((d.keepsOf? op).map (Kept.content d.buffer.text d.buffer.cursor)).getD d.register := by
  obtain ⟨b, -, hd⟩ := d.step_eq op
  rw [hd, ← keeps?_reading]
  exact Stroke.register_eq _ _ _ _

end Desk

/-! ## A selection taken out -/

namespace Buffer

/-- The buffer, with something selected, becomes `b'` and gives the selection: it is taken out of
the text, the cursor is where it began, and put in there again it makes the text what it was. -/
structure Gives (b b' : Buffer) (selection : Text) : Prop where
  parts : ∃ u w, b.text = u ++ selection ++ w ∧ b'.text = u ++ w ∧
    u.length = b.text.clamp b.cursor.first ∧
    (u ++ selection).length = b.text.clamp b.cursor.last ∧ b'.cursor = .collapsed u.length
  restored : ∃ b'', b'.replace b'.cursor.position b'.cursor.position selection = .ok b'' ∧
    b''.text = b.text

theorem gives_of_follow {b b' : Buffer} (hs : b.cursor.hasSelection = true)
    (hb : b.follow (.cutSelection b.text b.cursor) = .ok b') :
    b.Gives b' (Kept.selection.content b.text b.cursor) := by
  obtain ⟨u, v, w, ht, hu, huv, hv⟩ := b.cursor.exists_selection b.text
  obtain ⟨b₁, hb₁, htext, hcursor, -⟩ := exists_follow (Plan.cutSelection_fits b.text b.cursor)
  obtain rfl : b' = b₁ := Except.ok.inj (hb.symm.trans hb₁)
  have hresult : b'.text = u ++ w := by
    rw [htext, Plan.cutSelection, if_pos hs]
    exact (Edit.result_of_eq ht hu.symm huv.symm).trans (by simp)
  have hplace : b'.cursor = .collapsed u.length := by
    rw [hcursor, hresult, Plan.cutSelection, if_pos hs]
    exact hu ▸ Cursor.clampTo_append u w
  have hcontent : Kept.selection.content b.text b.cursor = v := hv
  rw [hcontent]
  refine ⟨⟨u, w, ht, hresult, hu, huv, hplace⟩, ?_⟩
  let back : Edit := { description := [], start := u.length, stop := u.length, inserted := v }
  have hfits : back.Fits b'.text := by
    rw [hresult]
    refine Edit.fits_mk (by omega) (Int.le_refl _) ?_
    rw [List.length_append]
    omega
  obtain ⟨b'', hback, hwhole, -⟩ := makes_replace hfits
  rw [hplace]
  refine ⟨b'', hback, ?_⟩
  rw [hwhole, ht]
  exact Edit.result_of_eq (by rw [hresult, List.append_nil]) rfl (by rw [List.append_nil])

end Buffer

/-- A selection that is kept was taken out of the buffer. -/
theorem Desk.gives_of_keeps {d : Desk} {op : Op} (h : d.keepsOf? op = some .selection) :
    d.buffer.Gives (d.step op).buffer (d.step op).register := by
  have hregister := d.step_register op
  obtain ⟨b, hb, hd⟩ := d.step_eq op
  rw [h] at hregister
  rw [hregister, hd]
  rw [← keeps?_reading] at h
  obtain ⟨hs, hchange⟩ := Stroke.change_of_selection h d.buffer.text d.register
  rw [hchange] at hb
  exact Buffer.gives_of_follow hs hb

/-! ## The registers of an office -/

namespace Office

variable (o : Office)

/-- What an event puts into register `n`. -/
def puts? (n : Nat) : Event → Option Text
  | .desk i j op =>
    if n = o.registerOf i then
      ((o.desk i j).keepsOf? op).map (Kept.content (o.buffer j).text (o.buffer j).cursor)
    else none
  | .register r t => if n = r then some t else none
  | .vi .. | .buffer .. => none

def run (es : List Event) : Office := es.foldl step o

/-- What the events put into register `n`, first to last. -/
def putsAll (o : Office) (n : Nat) : List Event → List Text
  | [] => []
  | e :: es => (o.puts? n e).toList ++ (o.step e).putsAll n es

/-- **One event** puts what it keeps into one register, and leaves the others alone. -/
theorem step_register (n : Nat) (e : Event) :
    (o.step e).register n = (o.puts? n e).getD (o.register n) := by
  cases e with
  | desk i j op =>
    by_cases hn : n = o.registerOf i
    · subst hn
      simp only [step, put, puts?, if_pos]
      exact (o.desk i j).step_register op
    · simp only [step, put, puts?, if_neg hn]
      rfl
  | register r t =>
    by_cases hn : n = r
    · simp only [step, puts?, if_pos hn]
      rfl
    · simp only [step, puts?, if_neg hn]
      rfl
  | vi | buffer => rfl

/-- After any events a register holds what was put into it last. -/
theorem run_register (n : Nat) (es : List Event) :
    (o.run es).register n = ((o.putsAll n es).getLast?).getD (o.register n) := by
  induction es generalizing o with
  | nil => rfl
  | cons e es ih =>
    have hrun : (o.run (e :: es)).register n = ((o.step e).run es).register n := rfl
    rw [hrun, ih, step_register, putsAll, List.getLast?_append]
    cases ((o.step e).putsAll n es).getLast? with
    | some t => rfl
    | none => cases o.puts? n e <;> rfl

/-- **What registers hold.** After any events, whatever interpreters share it, a register holds what
was put into it last. The next event puts something only into the register of its interpreter: a key
that completes `yy` or `dd`, or repeats `dd`, puts the cursor's line there, and a key that deletes a
selection puts that there; no other key puts anything anywhere. A deleted selection, put in again
from the register where the cursor is, makes the text what it was. -/
theorem registers_run (es : List Event) :
    let o' := o.run es
    (∀ n, o'.register n = ((o.putsAll n es).getLast?).getD (o.register n)) ∧
      (∀ n e, (o'.step e).register n = (o'.puts? n e).getD (o'.register n)) ∧
      ∀ i j op, (o'.desk i j).keepsOf? op = some .selection →
        let o'' := o'.step (.desk i j op)
        (o'.buffer j).Gives (o''.buffer j) (o''.register (o'.registerOf i)) := by
  intro o'
  refine ⟨fun n => o.run_register n es, fun n e => o'.step_register n e, fun i j op h => ?_⟩
  have hgives := Desk.gives_of_keeps h
  simp only [step, put, if_pos]
  exact hgives

/-- Two interpreters share a register. One of them has copied a line; between the two `d` of the other
one something is selected, and the second `d` deletes just that. -/
theorem registers_run_of_selection_between :
    let o : Office :=
      { vi := fun _ => .new true true true false 20, registerOf := fun _ => 0, register := fun _ => []
        buffer := fun _ => .ofText [97, 98, 10, 99] 20 100, bare := fun _ => false }
    let y : Desk.Op := .press { key := [121] }
    let d : Desk.Op := .press { key := [100] }
    let es : List Event :=
      [.desk 1 1 y, .desk 1 1 y, .desk 0 0 d, .buffer 0 (.setCursor ⟨2, 1⟩)]
    let o' := o.run es
    let o'' := o'.step (.desk 0 0 d)
    (o'.desk 0 0).keepsOf? d = some .selection ∧ o'.register 0 = [97, 98, 10] ∧
      o''.register 0 = [98] ∧ (o'.buffer 0).Gives (o''.buffer 0) (o''.register 0) := by
  intro o y d es o' o''
  obtain ⟨hlast, hnext, hgives⟩ := registers_run o es
  have hkeeps : (o'.desk 0 0).keepsOf? d = some .selection := by decide
  have hputs : o.putsAll 0 es = [[97, 98, 10]] := by decide
  have hput : o'.puts? 0 (.desk 0 0 d) = some [98] := by decide
  refine ⟨hkeeps, ?_, ?_, hgives 0 0 d hkeeps⟩
  · rw [hlast 0, hputs]
    rfl
  · rw [hnext 0 (.desk 0 0 d), hput]
    rfl

end Office

end ModalEditor
