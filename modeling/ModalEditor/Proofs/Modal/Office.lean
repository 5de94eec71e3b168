import ModalEditor.Proofs.Modal.Reading

/-!
# Many interpreters and many buffers

In an office every interpreter may be given keys for every buffer, several interpreters may share a
register, and in between the host may call for any operation of a buffer or an interpreter: groups
may be open, undo may have shortened the text, interpreters may be off or stopped.

Main statement: `Office.Reachable.offer_answered`. Whatever key is given to whichever desk, nothing
fails, the groups that are open stay open, and the cursor lies in the text. It needs one invariant,
that every cursor lies in its text: the range of an edit is worked out from clamped offsets
(`Stroke.change_fits`). Whatever is done at a desk is a reading carried out (`Desk.carry_reading`).
-/

namespace ModalEditor

namespace Interpreter

/-- What a host may ask of an interpreter, keys aside. -/
inductive Op where
  | setEnabled (enabled : Bool)
  | setBlockCursor (blockCursor : Bool)
  | setAutoIndent (autoIndent : Bool)
  | subscribe (s : Subscriber)
  | reset
  | stop
deriving DecidableEq

def step (v : Interpreter) : Op → Interpreter
  | .setEnabled enabled => v.setEnabled enabled
  | .setBlockCursor blockCursor => v.setBlockCursor blockCursor
  | .setAutoIndent autoIndent => v.setAutoIndent autoIndent
  | .subscribe s => v.subscribe s
  | .reset => v.reset
  | .stop => v.stop

end Interpreter

/-! ## One desk -/

namespace Desk

/-- What a host may do at a desk. -/
inductive Op where
  /-- A key given to the interpreter and, if it passes the key through, to plain typing. -/
  | offer (k : KeyPress)
  | press (k : KeyPress)
  | typeKey (k : KeyPress)
  | typeText (t : Text)
  | scroll (direction : Direction)
deriving DecidableEq

def step (d : Desk) : Op → Desk
  | .offer k => (d.offer k).toOption.elim d Prod.fst
  | .press k => (d.press k).toOption.elim d Prod.fst
  | .typeKey k => (d.typeKey k).toOption.elim d Prod.fst
  | .typeText t => { d with buffer := (d.buffer.typeText t).toOption.getD d.buffer }
  | .scroll direction => d.scroll direction

/-- What is read of an operation. -/
def reading (d : Desk) : Op → Reading
  | .offer k => d.readThrough k
  | .press k => d.read k
  | .typeKey k => (k.typed? d.typingPageLines).elim {} fun s => { stroke := s }
  | .typeText t => { stroke := .type t }
  | .scroll direction => { stroke := .page d.pageLines direction }

theorem exists_carry (d : Desk) (r : Reading) :
    ∃ d', d.carry r = .ok d' ∧ d'.buffer.history.depth = d.buffer.history.depth ∧
      (d.buffer.CursorInside → d'.buffer.CursorInside) := by
  obtain ⟨b, hb, hkeeps⟩ :=
    Buffer.make_keeps (r.stroke.change_fits d.buffer.text d.buffer.cursor d.register)
  exact ⟨_, by rw [carry, hb]; rfl, hkeeps⟩

/-- **Whatever is done at a desk** is something read, carried out. -/
theorem carry_reading (d : Desk) (op : Op) : d.carry (d.reading op) = .ok (d.step op) := by
  obtain ⟨d', hd, -⟩ := d.exists_carry (d.reading op)
  cases op with
  | offer k =>
    rw [reading] at hd ⊢
    rw [step, offer_eq, hd]
    rfl
  | press k =>
    rw [reading] at hd ⊢
    rw [step, press_eq, hd]
    rfl
  | typeKey k =>
    rw [reading] at hd ⊢
    rw [step, typeKey_eq]
    cases hk : k.typed? d.typingPageLines with
    | none => rfl
    | some s =>
      rw [hk, Option.elim_some] at hd
      simp only [Option.elim_some, hd]
      rfl
  | typeText t =>
    have hmake := d.buffer.typeText_eq t
    rw [step, hmake, reading, carry, Stroke.change]
    cases hb : d.buffer.make (Stroke.typing d.buffer.text d.buffer.cursor t) with
    | error e =>
      rw [reading, carry, Stroke.change, hb] at hd
      cases hd
    | ok b => rfl
  | scroll direction => rfl

theorem step_eq (d : Desk) (op : Op) :
    let r := d.reading op
    ∃ b, d.buffer.make (r.stroke.change d.buffer.text d.buffer.cursor d.register) = .ok b ∧
      d.step op = { d with
        buffer := b
        register := r.stroke.register d.buffer.text d.buffer.cursor d.register
        vi := (d.vi.hear r.events).remember r.stroke } := by
  intro r
  have hcarry := d.carry_reading op
  unfold carry at hcarry
  cases hb : d.buffer.make (r.stroke.change d.buffer.text d.buffer.cursor d.register) with
  | error e =>
    rw [hb] at hcarry
    cases hcarry
  | ok b =>
    rw [hb] at hcarry
    exact ⟨b, rfl, (Except.ok.inj hcarry).symm⟩

theorem offer_step (d : Desk) (k : KeyPress) :
    d.offer k = .ok (d.step (.offer k), d.takes k) := by
  have hcarry : d.carry (d.readThrough k) = .ok (d.step (.offer k)) := d.carry_reading (.offer k)
  rw [offer_eq, hcarry]
  rfl

theorem step_keeps (d : Desk) (op : Op) :
    (d.step op).buffer.history.depth = d.buffer.history.depth ∧
      (d.buffer.CursorInside → (d.step op).buffer.CursorInside) := by
  obtain ⟨d', hd, hkeeps⟩ := d.exists_carry (d.reading op)
  rw [carry_reading] at hd
  cases hd
  exact hkeeps

end Desk

/-! ## The office -/

/-- Interpreters, registers and buffers, each with a number. -/
structure Office where
  vi : Nat → Interpreter
  /-- The register an interpreter yanks to; several may share one. -/
  registerOf : Nat → Nat
  register : Nat → Text
  buffer : Nat → Buffer
  /-- The buffers that report no page height. -/
  bare : Nat → Bool

namespace Office

/-- What can happen in an office. -/
inductive Event where
  | desk (i j : Nat) (op : Desk.Op)
  | vi (i : Nat) (op : Interpreter.Op)
  | buffer (j : Nat) (op : Buffer.Op)
  | register (r : Nat) (t : Text)

def desk (o : Office) (i j : Nat) : Desk :=
  { vi := o.vi i, register := o.register (o.registerOf i), buffer := o.buffer j, bare := o.bare j }

/-- What was on the desk put back. -/
def put (o : Office) (i j : Nat) (d : Desk) : Office where
  vi n := if n = i then d.vi else o.vi n
  registerOf := o.registerOf
  register n := if n = o.registerOf i then d.register else o.register n
  buffer n := if n = j then d.buffer else o.buffer n
  bare := o.bare

def step (o : Office) : Event → Office
  | .desk i j op => o.put i j ((o.desk i j).step op)
  | .vi i op => { o with vi n := if n = i then (o.vi i).step op else o.vi n }
  | .buffer j op => { o with buffer n := if n = j then (o.buffer j).step op else o.buffer n }
  | .register r t => { o with register n := if n = r then t else o.register n }

/-- The offices that come about: new interpreters and buffers, and then any events. -/
inductive Reachable : Office → Prop
  | start {o : Office}
      (vi : ∀ i, ∃ enabled blockCursor autoIndent qStartsLine pageLines,
        o.vi i = .new enabled blockCursor autoIndent qStartsLine pageLines)
      (buffer : ∀ j, ∃ text pageLines limit, o.buffer j = .ofText text pageLines limit) :
      Reachable o
  | step {o : Office} (e : Event) : Reachable o → Reachable (o.step e)

def CursorsInside (o : Office) : Prop := ∀ j, (o.buffer j).CursorInside

variable {o : Office}

theorem CursorsInside.step (h : o.CursorsInside) (e : Event) : (o.step e).CursorsInside := by
  intro n
  cases e with
  | desk i j op =>
    by_cases hn : n = j
    · have hd : ((o.desk i j).step op).buffer.CursorInside := ((o.desk i j).step_keeps op).2 (h j)
      simpa only [Office.step, put, if_pos hn] using hd
    · simpa only [Office.step, put, if_neg hn] using h n
  | buffer j op =>
    by_cases hn : n = j
    · simpa only [Office.step, if_pos hn] using Buffer.step_inside (h j) op
    · simpa only [Office.step, if_neg hn] using h n
  | vi | register => exact h n

theorem Reachable.cursorsInside (h : Reachable o) : o.CursorsInside := by
  induction h with
  | start vi buffer =>
    intro j
    obtain ⟨text, pageLines, limit, hb⟩ := buffer j
    rw [hb]
    exact ⟨⟨Int.le_refl 0, Int.natCast_nonneg _⟩, Int.le_refl 0, Int.natCast_nonneg _⟩
  | step e _ ih => exact ih.step e

/-- **Nothing fails and no cursor is lost.** In an office that comes about, a key given to any
interpreter for any buffer and, if passed through, to plain typing, is answered without a failure; it
leaves as many groups open as there were, and the cursor in the text. -/
theorem Reachable.offer_answered (h : Reachable o) (i j : Nat) (k : KeyPress) :
    ∃ d taken, (o.desk i j).offer k = .ok (d, taken) ∧
      d.buffer.history.depth = (o.buffer j).history.depth ∧ d.buffer.cursor.Inside d.buffer.text := by
  obtain ⟨hdepth, hinside⟩ := (o.desk i j).step_keeps (.offer k)
  exact ⟨_, _, (o.desk i j).offer_step k, hdepth, hinside (h.cursorsInside j)⟩

/-- The last line of two is deleted while the host has a group open. -/
theorem Reachable.offer_answered_of_open_group :
    let start : Office :=
      { vi := fun _ => .new true true true false 20, registerOf := fun _ => 0, register := fun _ => []
        buffer := fun _ => .ofText [97, 10, 98] 20 100, bare := fun _ => false }
    let o := (((start.step (.buffer 0 (.beginGroup []))).step (.buffer 0 (.setCursor ⟨2, 2⟩))).step
      (.desk 1 0 (.press { key := [100] })))
    Reachable o ∧ ∃ d taken, (o.desk 1 0).offer { key := [100] } = .ok (d, taken) ∧
      d.buffer.history.depth = (o.buffer 0).history.depth ∧ d.buffer.cursor.Inside d.buffer.text := by
  intro start o
  have h : Reachable o :=
    (((Reachable.start (fun _ => ⟨_, _, _, _, _, rfl⟩) fun _ => ⟨_, _, _, rfl⟩).step _).step _).step _
  exact ⟨h, h.offer_answered 1 0 { key := [100] }⟩

end Office

end ModalEditor
