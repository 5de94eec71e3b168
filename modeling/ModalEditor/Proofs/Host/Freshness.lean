import ModalEditor.Host.TerminalKey
import ModalEditor.Proofs.Host.Reaction
import ModalEditor.Proofs.Modal.Calls

/-!
# What a binding shows

A binding looks again only at a call at which it sees something else than it shows, and it never
shows anything out of date: `Binding.shown_run`. Three things call it. At the events of the mode it
compares what is waited for, at the notices of the interpreter the style and whether the interpreter
is on, and when the buffer calls, the version. A binding that looks at none of the calls of a use has
seen nothing new at any of them, and the calls of a use tell all there is to know
(`Interpreter.Attends.use_learns`, `Buffer.Shows`).
-/

namespace ModalEditor

theorem Desk.step_follows (d : Desk) (op : Op) : d.buffer.Follows (d.step op).buffer :=
  carry_follows (d.carry_reading op)

namespace Binding

/-! ## Looking -/

/-- What is seen of an interpreter is what is shown of it. -/
structure Agrees (shown : Display) (x : Sight) : Prop where
  insertion : shown.insertion = x.mode.isInsertion
  pending : shown.pending = x.mode.pending
  style : shown.style = x.style
  enabled : shown.enabled = x.enabled

section
variable {shown : Display} {x : Sight} {b : Binding} {d : Desk}

theorem Agrees.look (h : Agrees shown x) {c : Call} (hc : outdates shown c = false) :
    Agrees shown (x.look subscriber c) := by
  cases c with
  | event mode =>
    obtain ⟨hinsertion, hpending⟩ : mode.isInsertion = shown.insertion ∧
        mode.pending.same shown.pending = true := by
      simpa [outdates] using hc
    exact ⟨hinsertion.symm, (Pending.same_iff.1 hpending).symm, h.style, h.enabled⟩
  | notice s style enabled =>
    rw [Sight.look]
    split
    · rename_i hs
      obtain ⟨hstyle, henabled⟩ : style = shown.style ∧ enabled = shown.enabled := by
        simpa [outdates, hs] using hc
      exact ⟨h.insertion, h.pending, hstyle.symm, henabled.symm⟩
    · exact h

theorem Agrees.foldl_look (h : Agrees shown x) {cs : List Call}
    (hcs : cs.any (outdates shown) = false) : Agrees shown (cs.foldl (Sight.look subscriber) x) := by
  induction cs generalizing x with
  | nil => exact h
  | cons c cs ih =>
    rw [List.any_cons, Bool.or_eq_false_iff] at hcs
    obtain ⟨hc, hcs⟩ := hcs
    exact ih (h.look hc) hcs

theorem agrees_display (d : Desk) : Agrees d.display d.vi.sight := ⟨rfl, rfl, rfl, rfl⟩

/-- The binding is called by its interpreter and its buffer, and shows what there is to see. -/
structure Fresh (b : Binding) : Prop where
  upToDate : b.UpToDate
  agrees : Agrees b.shown b.desk.vi.sight
  attends : b.desk.vi.Attends subscriber

theorem Fresh.shown_eq (h : b.Fresh) : b.shown = b.desk.display := by
  obtain ⟨⟨hversion, -⟩, ⟨hinsertion, hpending, hstyle, henabled⟩, -⟩ := h
  rcases b with ⟨desk, ⟨insertion, pending, style, enabled, version⟩⟩
  simp only [Desk.display, Display.mk.injEq]
  exact ⟨hinsertion, hpending, hstyle, henabled, hversion⟩

/-- A binding stays fresh as long as the calls tell all there is to know. -/
theorem Fresh.update (h : b.Fresh) (hattends : d.vi.Attends subscriber)
    (hlearns : Interpreter.Learns subscriber b.desk.vi d.vi b.desk.vi.sight d.vi.sight)
    (hshows : b.desk.buffer.Shows (· = watcher) d.buffer) : (b.update d).Fresh := by
  refine ⟨h.upToDate.update hshows, ?_, hattends⟩
  unfold Binding.update
  cases hstale : b.isStale d with
  | true => exact agrees_display d
  | false =>
    -- no call showed anything else, and the last of them show what there is to see now
    obtain ⟨cs, hcalls, hsight⟩ := hlearns
    rw [isStale, hcalls, List.drop_left, Bool.or_eq_false_iff] at hstale
    obtain ⟨hcs, -⟩ := hstale
    have hafter := h.agrees.foldl_look hcs
    rwa [hsight] at hafter

theorem Fresh.mount (h : d.vi.Truthful) : (mount d).Fresh where
  upToDate := ⟨rfl, mount_watches d⟩
  agrees := agrees_display _
  attends := ⟨⟨h.running, h.insertion, h.style⟩, List.mem_append_right _ (.head _)⟩

theorem press_answers (b : Binding) (host : Option (KeyPress → Bool)) (k : KeyPress) :
    ∃ o, b.press host k = .ok (b.update (b.desk.step (.offer k)), o) := by
  unfold press
  rw [b.desk.offer_step k]
  cases b.desk.takes k with
  | true => exact ⟨_, rfl⟩
  | false =>
    cases host with
    | none => exact ⟨_, rfl⟩
    | some accepts => exact ⟨_, rfl⟩

end

/-! ## Runs -/

/-- What can happen to a binding, its interpreter and its buffer. -/
inductive Op where
  | press (host : Option (KeyPress → Bool)) (k : KeyPress)
  | input (host : Option (KeyPress → Bool)) (text : Text) (key : TerminalKey)
  /-- Something done at the desk past the binding. -/
  | desk (op : Desk.Op)
  /-- A use of the interpreter past the binding, at whatever desk. -/
  | vi (u : Interpreter.Use)
  | buffer (op : Buffer.Op)
  | register (t : Text)

/-- The interpreter is not stopped, and the binding is left as the subscriber and watcher it is. -/
def Op.Spares : Op → Prop
  | .vi u => u.Spares subscriber
  | .buffer op => op ≠ .subscribe watcher ∧ op ≠ .unsubscribe watcher
  | .press .. | .input .. | .desk _ | .register _ => True

/-- The binding after something that happened; a key that fails would change nothing. -/
def step (b : Binding) : Op → Binding
  | .press host k => (b.press host k).toOption.elim b Prod.fst
  | .input host text key => (b.press host (key.toKeyPress text)).toOption.elim b Prod.fst
  | .desk op => b.update (b.desk.step op)
  | .vi u => b.update { b.desk with vi := b.desk.vi.use u }
  | .buffer op => b.update { b.desk with buffer := b.desk.buffer.step op }
  | .register register => b.update { b.desk with register }

/-- The binding after one thing and another. -/
def run (b : Binding) (ops : List Op) : Binding := ops.foldl step b

section
variable {b : Binding}

theorem Fresh.desk (h : b.Fresh) (op : Desk.Op) : (b.update (b.desk.step op)).Fresh := by
  have hu : (Interpreter.Use.desk b.desk.register b.desk.buffer b.desk.bare op).Spares subscriber :=
    trivial
  exact h.update (h.attends.use rfl hu) (h.attends.use_learns rfl hu)
    ((b.desk.step_follows op).toShows.mono fun _ _ => trivial)

/-- **One step** of whatever kind leaves a binding fresh. -/
theorem Fresh.step (h : b.Fresh) {op : Op} (hop : op.Spares) : (b.step op).Fresh := by
  have hpress : ∀ host k, ((b.press host k).toOption.elim b Prod.fst).Fresh := by
    intro host k
    obtain ⟨o, ho⟩ := b.press_answers host k
    rw [ho]
    exact h.desk (.offer k)
  have hsame : Interpreter.Learns subscriber b.desk.vi b.desk.vi b.desk.vi.sight b.desk.vi.sight :=
    .refl ..
  cases op with
  | press host k => exact hpress host k
  | input host text key => exact hpress host (key.toKeyPress text)
  | desk op => exact h.desk op
  | vi u => exact h.update (h.attends.use rfl hop) (h.attends.use_learns rfl hop) (.refl ..)
  | buffer op =>
    refine h.update h.attends hsame (b.desk.buffer.step_shows op ?_)
    rintro name rfl
    exact hop
  | register t => exact h.update h.attends hsame (.refl ..)

theorem Fresh.run (h : b.Fresh) {ops : List Op} (hops : ∀ op ∈ ops, op.Spares) :
    (b.run ops).Fresh := by
  induction ops generalizing b with
  | nil => exact h
  | cons op ops ih =>
    obtain ⟨hop, hops⟩ := List.forall_mem_cons.1 hops
    exact ih (h.step hop) hops

/-- **What is shown is never out of date.** Take any interpreter that has not been stopped, whatever
was done with it before, and any buffer, and a binding mounted on them; and any run of keys pressed
and reported by a terminal, of whatever is done past the binding with the interpreter, at this desk
and at others, and of operations of the buffer. After every part of the run the binding shows exactly
what there is to see, and it answers the next key, whichever it is. -/
theorem shown_run (enabled blockCursor autoIndent qStartsLine : Bool) (pageLines : Int)
    {us : List Interpreter.Use} (hus : ∀ u ∈ us, u ≠ .host .stop) (register : Text) (buffer : Buffer)
    (bare : Bool) {ops : List Op} (hops : ∀ op ∈ ops, op.Spares) :
    let vi := (Interpreter.new enabled blockCursor autoIndent qStartsLine pageLines).run us
    let b := (mount { vi, register, buffer, bare }).run ops
    b.shown = b.desk.display ∧ ∀ host k, ∃ b' o, b.press host k = .ok (b', o) := by
  intro vi b
  have hvi : vi.Truthful := (Interpreter.truthful_new ..).run hus
  have hb : b.Fresh := (Fresh.mount hvi).run hops
  refine ⟨hb.shown_eq, fun host k => ?_⟩
  obtain ⟨o, ho⟩ := b.press_answers host k
  exact ⟨_, o, ho⟩

/-- An interpreter turned off before and on again behind the back of the binding, `y` on a terminal,
another operator in its place, and undo in the buffer. -/
theorem shown_run_of_operators :
    let us : List Interpreter.Use := [.host (.setEnabled false)]
    let ops : List Op := [.vi (.host (.setEnabled true)), .input none [121] {},
      .press none { key := [100] }, .buffer .undo]
    let vi := (Interpreter.new true true true false 20).run us
    let b := (mount { vi, register := [], buffer := .ofText [97] 20 100 }).run ops
    ((∀ u ∈ us, u ≠ .host .stop) ∧ ∀ op ∈ ops, op.Spares) ∧
    b.desk.display = ⟨false, .operator .delete, .block, true, 0⟩ ∧
    b.shown = b.desk.display ∧ ∀ host k, ∃ b' o, b.press host k = .ok (b', o) := by
  intro us ops vi b
  have hus : ∀ u ∈ us, u ≠ .host .stop := by simp [us]
  have hops : ∀ op ∈ ops, op.Spares := by
    simp [ops, Op.Spares, Interpreter.Use.Spares]
  exact ⟨⟨hus, hops⟩, by decide, shown_run true true true false 20 hus [] (.ofText [97] 20 100) false hops⟩

end

end Binding

end ModalEditor
