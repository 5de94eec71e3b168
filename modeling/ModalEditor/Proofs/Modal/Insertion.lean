import ModalEditor.Proofs.Modal.Office
import ModalEditor.Proofs.Modal.Replacement

/-!
# Insertion is plain typing

An interpreter in insertion and one that is off, each before a buffer of its own and the two buffers
alike (`SideBySide`). Apart from Escape and the page chord they do the same with every key
(`SideBySide.answer`): Enter is taken by both or by none, as automatic indentation says, and all else
goes to plain typing. All that the first does besides is to send a reset to a mode that has nothing to
reset.

Main statement: `Desk.insertion_is_plain`, which follows the two through any number of keys.
-/

namespace ModalEditor

/-! ## Commands -/

namespace Command

variable {q : Bool} {k : KeyPress}

theorem ofKey_eq_newline_iff : ofKey q k = .control .newline ↔ k.named? = some .enter := by
  constructor
  · intro h
    have hgiven := ofKey_given q k
    rwa [h] at hgiven
  · exact fun h => if_pos h

theorem named?_of_ofKey_escape (h : ofKey q k = .control .escape) : k.named? = some .escape := by
  have hletter : ∀ letter shift, ofLetter q letter shift ≠ .control .escape := fun letter shift => by
    unfold ofLetter
    split
    case h_10 => split <;> simp
    all_goals simp
  unfold ofKey at h
  split at h
  · cases h
  split at h
  · rename_i page hpage
    cases h
    unfold pageChord? at hpage
    grind
  split at h
  · assumption
  split at h
  · cases h
  split at h
  · cases h
  split at h
  · exact absurd h (hletter _ _)
  · cases h

end Command

/-- The key neither leaves insertion nor asks for a page. -/
structure KeyPress.Inserts (k : KeyPress) : Prop where
  stays : ¬ (k.named? = some .escape ∧ k.isChord = false)
  noPage : Command.pageChord? k = none

theorem Interpreter.hear_resets {v : Interpreter} {es : List ModeEvent} (hv : v.mode = .insertion)
    (hes : ∀ e ∈ es, e = .reset) : (v.hear es).mode = .insertion := by
  induction es generalizing v with
  | nil => exact hv
  | cons e es ih =>
    obtain ⟨he, hrest⟩ := List.forall_mem_cons.1 hes
    refine ih ?_ hrest
    rw [send_mode, hv, he]
    split <;> rfl

theorem Buffer.press_ok (b : Buffer) (pageLines : Int) (k : KeyPress) :
    ∃ b' taken, b.press pageLines k = .ok (b', taken) := by
  rw [b.press_eq pageLines k []]
  cases k.typed? pageLines with
  | none => exact ⟨b, false, rfl⟩
  | some s =>
    obtain ⟨b', hb, -⟩ := make_keeps (s.change_fits b.text b.cursor [])
    exact ⟨b', true, congrArg (Except.map (·, true)) hb⟩

/-! ## What becomes of a key -/

/-- What becomes of a key: the interpreter takes it, or passes it through to plain typing, which takes
or declines it. -/
inductive Answer where
  | handled
  | passedThrough (taken : Bool)
deriving DecidableEq, Repr

namespace Desk

/-- One key given to the interpreter and, if it passes the key through, to plain typing, with what
became of it. -/
def answer (d : Desk) (k : KeyPress) : Except EditError (Desk × Answer) := do
  match ← d.press k with
  | (d, .handled) => return (d, .handled)
  | (d, .passThrough) =>
    let (d, taken) ← d.typeKey k
    return (d, .passedThrough taken)

/-- Keys given one after the other, with what became of each and the buffer it left. -/
def trace (d : Desk) : List KeyPress → Except EditError (Desk × List (Answer × Buffer))
  | [] => .ok (d, [])
  | k :: ks => do
    let (d, a) ← d.answer k
    let (e, seen) ← d.trace ks
    return (e, (a, d.buffer) :: seen)

variable {d d' e : Desk} {k : KeyPress}

theorem answer_of_handled (h : d.press k = .ok (e, .handled)) : d.answer k = .ok (e, .handled) := by
  rw [answer, h]
  rfl

theorem answer_of_passThrough {b : Buffer} {taken : Bool} (h : d.press k = .ok (e, .passThrough))
    (hb : e.buffer.press e.typingPageLines k = .ok (b, taken)) :
    d.answer k = .ok ({ e with buffer := b }, .passedThrough taken) := by
  rw [answer, h]
  simp only [bind, Except.bind, typeKey, hb]
  rfl

theorem trace_cons {ks : List KeyPress} {a : Answer} {d₁ : Desk} {seen : List (Answer × Buffer)}
    (h : d.answer k = .ok (d₁, a)) (hks : d₁.trace ks = .ok (e, seen)) :
    d.trace (k :: ks) = .ok (e, (a, d₁.buffer) :: seen) := by
  rw [Desk.trace, h]
  simp only [bind, Except.bind, hks]
  rfl

/-! ## Two desks -/

/-- An interpreter that is on and inserts, and one that is off, with the same automatic indentation
and like buffers. -/
structure SideBySide (d d' : Desk) : Prop where
  enabled : d.vi.enabled = true
  mode : d.vi.mode = .insertion
  off : d'.vi.enabled = false
  autoIndent : d'.vi.autoIndent = d.vi.autoIndent
  buffer : d'.buffer = d.buffer
  bare : d'.bare = d.bare

/-- Register and last edit are those of `d`. -/
structure Remembers (e d : Desk) : Prop where
  register : e.register = d.register
  lastEdit : e.vi.lastEdit = d.vi.lastEdit

/-- Enter, with automatic indentation: the interpreter breaks the line before it looks at anything
else. -/
theorem press_newline {b : Buffer} (hk : k.named? = some .enter) (ha : d.vi.autoIndent = true)
    (hb : d.buffer.make (Stroke.breakLine.change d.buffer.text d.buffer.cursor d.register) = .ok b) :
    ∃ events, (∀ e ∈ events, e = .reset) ∧
      d.press k = .ok ({ d with buffer := b, vi := d.vi.hear events }, .handled) := by
  have hread : d.read k =
      { stroke := .breakLine, events := if d.vi.pending = .overwrite then [.reset] else [] } :=
    if_pos ⟨Command.ofKey_eq_newline_iff.2 hk, ha⟩
  refine ⟨if d.vi.pending = .overwrite then [.reset] else [], ?_, ?_⟩
  · split <;> simp
  · rw [press_eq, hread, carry_of_make hb]
    rfl

theorem press_of_off (hoff : d.vi.enabled = false)
    (hn : ¬ (k.named? = some .enter ∧ d.vi.autoIndent = true)) : d.press k = .ok (d, .passThrough) := by
  have hnewline : ¬ (Command.ofKey d.vi.qStartsLine k = .control .newline ∧ d.vi.autoIndent) :=
    fun h => hn ⟨Command.ofKey_eq_newline_iff.1 h.1, h.2⟩
  unfold press
  dsimp only
  rw [if_neg hnewline, hoff]
  rfl

theorem press_of_insertion (he : d.vi.enabled = true) (hm : d.vi.mode = .insertion) (hk : k.Inserts)
    (hn : ¬ (k.named? = some .enter ∧ d.vi.autoIndent = true)) :
    d.press k = .ok (d.send .reset, .passThrough) := by
  obtain ⟨hup, hdown⟩ := Command.ofKey_ne_page d.vi.qStartsLine hk.noPage
  have hescape : ¬ (Command.ofKey d.vi.qStartsLine k = .control .escape ∧ k.isChord = false) :=
    fun h => hk.stays ⟨Command.named?_of_ofKey_escape h.1, h.2⟩
  have hnewline : ¬ (Command.ofKey d.vi.qStartsLine k = .control .newline ∧ d.vi.autoIndent) :=
    fun h => hn ⟨Command.ofKey_eq_newline_iff.1 h.1, h.2⟩
  unfold press pressInserting
  dsimp only
  rw [if_neg hnewline, he, if_neg hup, if_neg hdown, hm, if_neg hescape]
  rfl

namespace SideBySide

/-- What the two may hear without coming apart: the one that inserts only resets, the other
anything. -/
theorem hear (h : SideBySide d d') (b : Buffer) (events events' : List ModeEvent)
    (hreset : ∀ e ∈ events, e = .reset) :
    SideBySide { d with buffer := b, vi := d.vi.hear events }
        { d' with buffer := b, vi := d'.vi.hear events' } ∧
      Remembers { d with buffer := b, vi := d.vi.hear events } d := by
  have hautoIndent : (d'.vi.hear events').autoIndent = (d.vi.hear events).autoIndent :=
    calc (d'.vi.hear events').autoIndent
      _ = d'.vi.autoIndent := Interpreter.hear_keeps (fun _ _ _ _ _ _ _ => rfl) _ _
      _ = d.vi.autoIndent := h.autoIndent
      _ = (d.vi.hear events).autoIndent :=
        (Interpreter.hear_keeps (f := Interpreter.autoIndent) (fun _ _ _ _ _ _ _ => rfl) _ _).symm
  refine ⟨⟨?_, Interpreter.hear_resets h.mode hreset, ?_, hautoIndent, rfl, h.bare⟩, rfl, ?_⟩
  · exact (Interpreter.hear_keeps (fun _ _ _ _ _ _ _ => rfl) _ _).trans h.enabled
  · exact (Interpreter.hear_keeps (fun _ _ _ _ _ _ _ => rfl) _ _).trans h.off
  · exact Interpreter.hear_keeps (fun _ _ _ _ _ _ _ => rfl) _ _

/-- **One key**: the two do the same with it. -/
theorem answer (h : SideBySide d d') (hk : k.Inserts) :
    ∃ e e' a, d.answer k = .ok (e, a) ∧ d'.answer k = .ok (e', a) ∧ SideBySide e e' ∧
      Remembers e d := by
  by_cases hn : k.named? = some .enter ∧ d.vi.autoIndent = true
  · obtain ⟨b, hb, -⟩ :=
      Buffer.make_keeps (Stroke.breakLine.change_fits d.buffer.text d.buffer.cursor d.register)
    obtain ⟨events, hreset, hpress⟩ := press_newline hn.1 hn.2 hb
    obtain ⟨events', -, hpress'⟩ :=
      press_newline (d := d') hn.1 (h.autoIndent.trans hn.2) (by rw [h.buffer]; exact hb)
    exact ⟨_, _, _, answer_of_handled hpress, answer_of_handled hpress',
      h.hear b events events' hreset⟩
  · obtain ⟨b, taken, hb⟩ := d.buffer.press_ok d.typingPageLines k
    have hlines : d'.typingPageLines = d.typingPageLines := by
      rw [typingPageLines, h.buffer, h.bare]
      rfl
    have hpress := press_of_insertion h.enabled h.mode hk hn
    have hpress' := press_of_off h.off (h.autoIndent ▸ hn)
    exact ⟨_, _, _, answer_of_passThrough hpress hb,
      answer_of_passThrough hpress' (by rw [h.buffer, hlines]; exact hb),
      h.hear b [.reset] [] (by simp)⟩

/-- **Any keys**: the two stay side by side. -/
theorem trace (h : SideBySide d d') {ks : List KeyPress} (hks : ∀ k ∈ ks, k.Inserts) :
    ∃ e e' seen, d.trace ks = .ok (e, seen) ∧ d'.trace ks = .ok (e', seen) ∧ SideBySide e e' ∧
      Remembers e d := by
  induction ks generalizing d d' with
  | nil => exact ⟨d, d', [], rfl, rfl, h, rfl, rfl⟩
  | cons k ks ih =>
    obtain ⟨hk, hrest⟩ := List.forall_mem_cons.1 hks
    obtain ⟨d₁, d₁', a, hd₁, hd₁', hside, hfirst⟩ := h.answer hk
    obtain ⟨e, e', seen, he, he', hend, hlater⟩ := ih hside hrest
    refine ⟨e, e', (a, d₁.buffer) :: seen, trace_cons hd₁ he, ?_, hend, ?_⟩
    · rw [← hside.buffer]
      exact trace_cons hd₁' he'
    · exact ⟨hlater.register.trans hfirst.register, hlater.lastEdit.trans hfirst.lastEdit⟩

end SideBySide

/-- **Insertion is plain typing.** Keys that neither leave insertion nor ask for a page, given to an
interpreter in insertion and to one that is off: key by key the same becomes of them and the same
buffers are left, undo and redo included. In the end the first is in insertion with nothing pending,
and its register and last edit are what they were. -/
theorem insertion_is_plain (h : SideBySide d d') {ks : List KeyPress} (hks : ∀ k ∈ ks, k.Inserts) :
    ∃ e e' seen, d.trace ks = .ok (e, seen) ∧ d'.trace ks = .ok (e', seen) ∧
      e'.buffer = e.buffer ∧ e.vi.mode = .insertion ∧ e.vi.pending = .idle ∧
      e.register = d.register ∧ e.vi.lastEdit = d.vi.lastEdit := by
  obtain ⟨e, e', seen, hd, hd', he, hremembers⟩ := h.trace hks
  refine ⟨e, e', seen, hd, hd', he.buffer, he.mode, ?_, hremembers.register, hremembers.lastEdit⟩
  rw [Interpreter.pending, he.mode]
  rfl

/-- A selection, letters that are commands, chords, Escape with Control among them, and Enter, alone and
with Alt, which automatic indentation takes both times. -/
theorem insertion_is_plain_through_commands :
    let b : Buffer := { Buffer.ofText [32, 97] 20 100 with cursor := ⟨2, 0⟩ }
    let vi : Interpreter := (Interpreter.new true true true false 20).send .insert
    let d : Desk := { vi := { vi with lastEdit := some .paste }, register := [120], buffer := b }
    let d' : Desk := { vi := .new false true true true 10, register := [], buffer := b }
    let ks : List KeyPress := [{ key := Text.ofString "ArrowRight" }, { key := [100] },
      { key := Text.ofString "Escape", ctrl := some true }, { key := Text.ofString "Enter" },
      { key := [106], ctrl := some true }, { key := [0xD83D, 0xDE01] },
      { key := Text.ofString "Enter", alt := some true }, { key := Text.ofString "Delete" }]
    SideBySide d d' ∧ (∀ k ∈ ks, k.Inserts) ∧
      ∃ e e' seen, d.trace ks = .ok (e, seen) ∧ d'.trace ks = .ok (e', seen) ∧
        e'.buffer = e.buffer ∧ e.vi.mode = .insertion ∧ e.vi.pending = .idle ∧
        e.register = [120] ∧ e.vi.lastEdit = some .paste := by
  intro b vi d d' ks
  have hside : SideBySide d d' := ⟨rfl, rfl, rfl, rfl, rfl, rfl⟩
  have hks : ∀ k ∈ ks, k.Inserts := by
    have hall : ∀ k ∈ ks, ¬ (k.named? = some .escape ∧ k.isChord = false) ∧
        Command.pageChord? k = none := by decide
    exact fun k hk => ⟨(hall k hk).1, (hall k hk).2⟩
  exact ⟨hside, hks, insertion_is_plain hside hks⟩

end Desk

end ModalEditor
