import Mathlib.Data.List.Induction
import ModalEditor.Proofs.Buffer.LineEdits
import ModalEditor.Proofs.Modal.Repetition

/-!
# Moving and copying a line

A line that was cut or copied is kept with a line feed, and pasting drops one. So `yyp` doubles the
cursor's line, and `ddp` moves it below the next one; from the last full line on, where the cut puts
the cursor on the line before, `ddp` puts the line back where it was: `Desk.line_moved_and_copied`.
Each of the edits is a step of its own, and `u` pressed once for each step takes them back
(`Desk.pressAll_undos`).

`Interpreter.Ready` is what every command of the run starts from. A stopped interpreter is never
ready: it waits for no second key, so that `ddp` moves nothing there (`Desk.line_stays_if_stopped`).
-/

namespace ModalEditor

/-- The lines with one of them exchanged with the next one, or with an empty one put before it if it
is the last one. -/
def Text.exchanged (before : List Text) (line : Text) : List Text → List Text
  | [] => before ++ [[], line]
  | next :: rest => before ++ next :: line :: rest

/-- Where the cursor is after a line was cut, and what the line pasted below it makes of the lines:
on the line before it gives them back, on the line that took its place it exchanges two. -/
theorem Text.exists_landing {before after : List Text} (line : Text) (back : Prop) [Decidable back]
    (hback : back → before ≠ []) (hlast : ¬ back → after = [] → before = []) :
    ∃ above here below, linesWithout before after = above ++ here :: below ∧
      above.length = (if back then before.length - 1 else before.length) ∧
      above ++ here :: line :: below =
        if back then before ++ line :: after else exchanged before line after := by
  by_cases hb : back
  · obtain ⟨init, previous, rfl⟩ : ∃ init previous, before = init ++ [previous] :=
      ⟨_, _, (List.dropLast_concat_getLast (hback hb)).symm⟩
    exact ⟨init, previous, after, by simp [linesWithout], by simp [hb], by simp [hb]⟩
  · cases after with
    | nil =>
      obtain rfl := hlast hb rfl
      exact ⟨[], [], [], rfl, by simp [hb], by simp [hb, exchanged]⟩
    | cons next rest =>
      exact ⟨before, next, rest, by simp [linesWithout], by simp [hb], by simp [hb, exchanged]⟩

theorem Text.eq_of_lines_eq {t u : Text} (h : t.lines = u.lines) : t = u := by
  rw [← ofLines_lines t, h, ofLines_lines]

/-- The keys that move a line. -/
def KeyPress.ddp : List KeyPress :=
  [{ key := Text.ofString "d" }, { key := Text.ofString "d" }, { key := Text.ofString "p" }]

/-- The keys that copy a line. -/
def KeyPress.yyp : List KeyPress :=
  [{ key := Text.ofString "y" }, { key := Text.ofString "y" }, { key := Text.ofString "p" }]

theorem Command.ofKey_yank_and_undo (q : Bool) :
    ofKey q { key := Text.ofString "y" } = .operator .yank ∧
      ofKey q { key := Text.ofString "u" } = .control .undo := by
  cases q <;> decide

/-! ## Steps that are kept -/

namespace History

variable {ε : Type} {h : History ε}

/-- As many new actions as the limit allows are all kept. -/
theorem foldl_push_past {steps : List (Action ε)} (hl : (steps.length : Int) ≤ h.limit) :
    ∃ rest, (steps.foldl push h).past = steps.reverse ++ rest ∧
      (steps.foldl push h).limit = h.limit := by
  induction steps using List.reverseRecOn with
  | nil => exact ⟨h.past, rfl, rfl⟩
  | append_singleton steps a ih =>
    rw [List.length_append, List.length_singleton] at hl
    obtain ⟨rest, hpast, hlimit⟩ := ih (by omega)
    have hroom : (steps.reverse.length : Int) + 1 ≤ (steps.foldl push h).limit := by
      rw [List.length_reverse, hlimit]
      omega
    obtain ⟨rest', hpast'⟩ := push_past_append hpast hroom a
    rw [List.foldl_append, List.reverse_append]
    exact ⟨rest', hpast', hlimit⟩

end History

/-! ## Commands in a row -/

theorem Cursor.clampTo_lineStart (t : Text) (i : Int) :
    (collapsed (t.lineStart i)).clampTo t = collapsed (t.lineStart i) :=
  have hlow := t.lineStart_nonneg i
  have hhigh := t.lineStart_le_length i
  clampTo_of_inside ⟨⟨hlow, hhigh⟩, hlow, hhigh⟩

/-- The interpreter is on, has not been stopped, and waits for nothing in navigation. -/
structure Interpreter.Ready (v : Interpreter) : Prop where
  enabled : v.enabled = true
  running : v.running = true
  mode : v.mode = .navigation .idle

theorem Interpreter.Ready.after {v : Interpreter} (h : v.Ready) (s : Stroke) {es : List ModeEvent}
    (hes : es.foldl Mode.step (.navigation .idle) = .navigation .idle) :
    ((v.hear es).remember s).Ready := by
  refine ⟨?_, ?_, ?_⟩
  · rw [remember_keeps (f := Interpreter.enabled) fun _ _ => rfl,
      hear_keeps (f := Interpreter.enabled) fun _ _ _ _ _ _ _ => rfl, h.enabled]
  · rw [remember_keeps (f := Interpreter.running) fun _ _ => rfl,
      hear_keeps (f := Interpreter.running) fun _ _ _ _ _ _ _ => rfl, h.running]
  · rw [remember_keeps (f := Interpreter.mode) fun _ _ => rfl, hear_mode h.running, h.mode, hes]

namespace Desk

variable {d d₁ d₂ : Desk}

theorem pressAll_append {ks ks' : List KeyPress} (h : d.pressAll ks = .ok d₁) :
    d.pressAll (ks ++ ks') = d₁.pressAll ks' := by
  unfold pressAll at h ⊢
  rw [List.foldlM_append, h]
  rfl

/-- From `d` to `d'` one action was recorded, and the interpreter is ready for the next command. -/
structure Edited (d d' : Desk) : Prop where
  recorded : ∃ a, d'.buffer.history = d.buffer.history.record a ∧
    a.Leads d.buffer.text d'.buffer.text
  ready : d'.vi.Ready

theorem carry_edited (h : d.vi.Ready) (r : Repeatable) (es : List ModeEvent) {e : Edit}
    (hp : (r.plan d.buffer.text d.buffer.cursor d.register).edit = some e)
    (hne : e.result d.buffer.text ≠ d.buffer.text)
    (hes : es.foldl Mode.step (.navigation .idle) = .navigation .idle) :
    ∃ d', d.carry { stroke := .edit r, events := es } = .ok d' ∧ d.Edited d' ∧
      d'.buffer.text = e.result d.buffer.text ∧
      d'.buffer.cursor =
        (r.plan d.buffer.text d.buffer.cursor d.register).cursor.clampTo d'.buffer.text ∧
      d'.register = (Stroke.edit r).register d.buffer.text d.buffer.cursor d.register := by
  obtain ⟨b, a, hb, htext, hh, ha, -⟩ :=
    Buffer.carryOut_of_edit hp (r.plan_fits d.buffer.text d.buffer.cursor d.register) hne
  let c := (r.plan d.buffer.text d.buffer.cursor d.register).cursor
  let d' : Desk := { d with
    buffer := b.setCursor c
    register := (Stroke.edit r).register d.buffer.text d.buffer.cursor d.register
    vi := (d.vi.hear es).remember (.edit r) }
  have hcarry : d.carry { stroke := .edit r, events := es } = .ok d' := by
    simp [carry, Stroke.change, Buffer.make, Buffer.follow, hb, bind, Except.bind, Except.map, pure,
      Except.pure, d', c]
  refine ⟨d', hcarry, ⟨⟨a, ?_, ?_⟩, h.after (.edit r) hes⟩, ?_, ?_, rfl⟩
  · simp [d', hh]
  · simpa [d'] using ha
  · simp [d', htext]
  · simp [d', c]

/-! ## The undo key -/

theorem pressAll_undo (h : d.vi.Ready) {a : Action Splice} {past : List (Action Splice)}
    (hpast : d.buffer.history.past = a :: past) {t : Text} (ha : a.Leads t d.buffer.text) :
    ∃ d', d.pressAll [{ key := Text.ofString "u" }] = .ok d' ∧ d'.buffer.text = t ∧
      d'.buffer.history.past = past ∧ d'.vi.Ready := by
  obtain ⟨-, hkey⟩ := Command.ofKey_yank_and_undo d.vi.qStartsLine
  obtain ⟨htext, hhistory, -⟩ := Buffer.undo_cons hpast
  have hpress := pressAll_command h.enabled h.mode hkey (by decide) rfl
  refine ⟨_, hpress, ?_, ?_, h.after .undo rfl⟩
  · show d.buffer.takeBack.text = t
    rw [Buffer.takeBack_cons hpast, Buffer.setCursor_text, htext, ha.2]
  · show d.buffer.takeBack.history.past = past
    rw [Buffer.takeBack_cons hpast, Buffer.setCursor_history, hhistory]

/-- **As many `u` as steps.** -/
theorem pressAll_undos {steps rest : List (Action Splice)} {s : Text} {texts : List Text}
    (hbehind : Behind steps s texts) (h : d.vi.Ready) (hs : d.buffer.text = s)
    (hpast : d.buffer.history.past = steps ++ rest) :
    ∃ d', d.pressAll (List.replicate steps.length { key := Text.ofString "u" }) = .ok d' ∧
      d'.buffer.text = texts.getLast?.getD s := by
  unfold Behind at hbehind
  induction hbehind generalizing d with
  | nil => exact ⟨d, rfl, hs⟩
  | cons hleads hrest ih =>
    subst hs
    obtain ⟨d₁, hpress, htext, hpast₁, hready⟩ := pressAll_undo h hpast hleads
    obtain ⟨d₂, hpresses, hlast⟩ := ih hready htext hpast₁
    refine ⟨d₂, ?_, ?_⟩
    · rw [List.length_cons, List.replicate_succ, ← List.singleton_append, pressAll_append hpress]
      exact hpresses
    · rw [hlast, List.getLast?_cons, Option.getD_some]

/-- The run from `d` to `d'` recorded `n` steps, and `u` pressed as often takes them back. -/
def TakenBackBy (d d' : Desk) (n : Nat) : Prop :=
  ∃ steps : List (Action Splice), steps.length = n ∧
    d'.buffer.history = steps.foldl History.push d.buffer.history ∧
    ∃ d'', d'.pressAll (List.replicate n { key := Text.ofString "u" }) = .ok d'' ∧
      d''.buffer.text = d.buffer.text

theorem takenBackBy_of_behind {d' : Desk} (steps : List (Action Splice)) {texts : List Text}
    (h : d'.vi.Ready) (hlimit : (steps.length : Int) ≤ d.buffer.history.limit)
    (hhistory : d'.buffer.history = steps.foldl History.push d.buffer.history)
    (hbehind : Behind steps.reverse d'.buffer.text texts)
    (hlast : texts.getLast? = some d.buffer.text) : d.TakenBackBy d' steps.length := by
  obtain ⟨rest, hpast, -⟩ := History.foldl_push_past hlimit
  rw [← hhistory] at hpast
  obtain ⟨d'', hpress, htext⟩ := pressAll_undos hbehind h rfl hpast
  rw [List.length_reverse] at hpress
  rw [hlast, Option.getD_some] at htext
  exact ⟨steps, rfl, hhistory, d'', hpress, htext⟩

theorem Edited.takenBackBy_one (hbuffer : d₁.buffer = d.buffer) (h : d₁.Edited d₂)
    (hg : d.buffer.history.group = none) (hl : 1 ≤ d.buffer.history.limit) :
    d.TakenBackBy d₂ 1 := by
  obtain ⟨⟨a, hhistory, hleads⟩, hready⟩ := h
  rw [hbuffer] at hhistory hleads
  rw [History.record_of_none hg] at hhistory
  exact takenBackBy_of_behind [a] hready hl hhistory (.cons hleads .nil) rfl

theorem Edited.takenBackBy_two (h₁ : d.Edited d₁) (h₂ : d₁.Edited d₂)
    (hg : d.buffer.history.group = none) (hl : 2 ≤ d.buffer.history.limit) :
    d.TakenBackBy d₂ 2 := by
  obtain ⟨⟨a₁, hhistory₁, hleads₁⟩, -⟩ := h₁
  obtain ⟨⟨a₂, hhistory₂, hleads₂⟩, hready⟩ := h₂
  rw [History.record_of_none hg] at hhistory₁
  have hg₁ : d₁.buffer.history.group = none := by
    rw [hhistory₁]
    exact hg
  rw [History.record_of_none hg₁, hhistory₁] at hhistory₂
  exact takenBackBy_of_behind [a₁, a₂] hready hl hhistory₂
    (.cons hleads₂ (.cons hleads₁ .nil)) rfl

/-! ## Cutting, copying and pasting a line -/

section
variable (h : d.vi.Ready) {line : Text} {before after : List Text}
  (hlines : d.buffer.text.lines = before ++ line :: after)
  (hc : d.buffer.text.lineAt d.buffer.cursor.position = before.length)
include h hlines hc

theorem pressAll_cutLine (hs : d.buffer.cursor.hasSelection = false) (ht : d.buffer.text ≠ []) :
    ∃ d', d.pressAll [{ key := Text.ofString "d" }, { key := Text.ofString "d" }] = .ok d' ∧
      d.Edited d' ∧ d'.register = line ++ [newline] ∧
      d'.buffer.text.lines = Text.linesWithout before after ∧
      d'.buffer.cursor = .collapsed (d'.buffer.text.lineStart
        (if before.length = 0 ∨ before.length < d.buffer.text.lastFullLine then before.length
          else before.length - 1 : Nat)) := by
  obtain ⟨-, hkey, -⟩ := Command.ofKey_letter d.vi.qStartsLine
  obtain ⟨e, he, hwithout, hremoved, hcursor⟩ := Plan.cutLine_of_lines hlines hc ht
  have hplan : Repeatable.delete.plan d.buffer.text d.buffer.cursor d.register =
      .cutLine d.buffer.text d.buffer.cursor := by
    rw [Repeatable.plan, hs]
    rfl
  have hne : e.result d.buffer.text ≠ d.buffer.text := fun hsame =>
    Buffer.linesWithout_ne hlines ht (by rw [← hwithout, hsame])
  obtain ⟨d', hcarry, hedited, htext, hplace, hregister⟩ :=
    carry_edited h .delete [.operator .delete, .operator .delete] (by rw [hplan, he]) hne rfl
  rw [hplan, hcursor, ← htext, Cursor.clampTo_lineStart] at hplace
  rw [← htext] at hwithout
  refine ⟨d', ?_, hedited, ?_, hwithout, hplace⟩
  · rw [pressAll_twice h.enabled h.mode h.running hkey (by simp [hs])]
    exact hcarry
  · rw [hregister, Stroke.register, hplan]
    exact hremoved

theorem pressAll_copyLine (ht : d.buffer.text ≠ []) :
    ∃ d', d.pressAll [{ key := Text.ofString "y" }, { key := Text.ofString "y" }] = .ok d' ∧
      d'.buffer = d.buffer ∧ d'.register = line ++ [newline] ∧ d'.vi.Ready := by
  obtain ⟨hkey, -⟩ := Command.ofKey_yank_and_undo d.vi.qStartsLine
  have hcopy : Plan.copyLine d.buffer.text d.buffer.cursor = line ++ [newline] := by
    rw [Plan.copyLine_of_lines hlines hc, if_neg ht]
  have hpress := pressAll_twice h.enabled h.mode h.running hkey (by simp)
  exact ⟨_, hpress, rfl, hcopy, h.after .yank rfl⟩

theorem pressAll_pasteLine {pasted : Text} (hregister : d.register = pasted ++ [newline])
    (hpasted : newline ∉ pasted) :
    ∃ d', d.pressAll [{ key := Text.ofString "p" }] = .ok d' ∧ d.Edited d' ∧
      d'.buffer.text.lines = before ++ line :: pasted :: after ∧
      d'.buffer.cursor = .collapsed (d'.buffer.text.lineStart (before.length + 1 : Nat)) := by
  obtain ⟨-, -, hkey, -⟩ := Command.ofKey_letter d.vi.qStartsLine
  have hfull : d.register ≠ [] := by simp [hregister]
  obtain ⟨e, he, hmore, hcursor⟩ := Plan.pasteBelow_of_lines hlines hc hfull
  rw [hregister, Text.withoutFinalBreak_concat, Text.lines_of_notMem hpasted,
    List.singleton_append] at hmore
  have hne : e.result d.buffer.text ≠ d.buffer.text := fun hsame => by
    rw [hsame, hlines] at hmore
    exact ne_of_apply_ne List.length (by simp) hmore
  obtain ⟨d', hcarry, hedited, htext, hplace, -⟩ :=
    carry_edited h .paste [.reset] he hne rfl
  rw [show Repeatable.paste.plan d.buffer.text d.buffer.cursor d.register =
    .pasteBelow d.buffer.text d.buffer.cursor d.register from rfl, hcursor, ← htext,
    Cursor.clampTo_lineStart] at hplace
  rw [← htext] at hmore
  refine ⟨d', ?_, hedited, hmore, hplace⟩
  rw [pressAll_command h.enabled h.mode hkey (by decide) rfl]
  exact hcarry

/-- `ddp`: from the last full line on the cut puts the cursor on the line before, so that the line
comes back to its place. -/
theorem pressAll_moveLine (hs : d.buffer.cursor.hasSelection = false) (ht : d.buffer.text ≠ []) :
    let back := 0 < before.length ∧ d.buffer.text.lastFullLine ≤ before.length
    ∃ d₁ d', d.pressAll KeyPress.ddp = .ok d' ∧ d.Edited d₁ ∧ d₁.Edited d' ∧
      d'.buffer.text.lines =
        (if back then before ++ line :: after else Text.exchanged before line after) ∧
      d'.buffer.cursor = .collapsed (d'.buffer.text.lineStart
        (if back then before.length else before.length + 1 : Nat)) := by
  intro back
  obtain ⟨-, hline, -⟩ := Text.newline_notMem_of_lines hlines
  have hlast : ¬ back → after = [] → before = [] := fun hb hafter => by
    have := (Text.lastFullLine_le_iff hlines).2 (.inl hafter)
    exact List.length_eq_zero_iff.1 (by omega)
  obtain ⟨above, here, below, hlanding, habove, hresult⟩ :=
    Text.exists_landing line back (fun hb => List.ne_nil_of_length_pos hb.1) hlast
  obtain ⟨d₁, hcut, hedited₁, hregister, hlines₁, hcursor₁⟩ := pressAll_cutLine h hlines hc hs ht
  have hplace : (if before.length = 0 ∨ before.length < d.buffer.text.lastFullLine
      then before.length else before.length - 1) = above.length := by
    rw [habove]
    by_cases hb : back
    · rw [if_pos hb, if_neg (by omega)]
    · rw [if_neg hb, if_pos (by omega)]
  rw [hlanding] at hlines₁
  rw [hplace] at hcursor₁
  have hhere : d₁.buffer.text.lineAt d₁.buffer.cursor.position = above.length := by
    rw [hcursor₁]
    exact Text.lineAt_of_lines hlines₁ (Int.le_refl _) (Text.lineStart_le_lineEnd _ _)
  obtain ⟨d₂, hpaste, hedited₂, hlines₂, hcursor₂⟩ :=
    pressAll_pasteLine hedited₁.ready hlines₁ hhere hregister hline
  have hnext : above.length + 1 = if back then before.length else before.length + 1 := by
    rw [habove]
    split <;> omega
  rw [hnext] at hcursor₂
  exact ⟨d₁, d₂, (pressAll_append hcut).trans hpaste, hedited₁, hedited₂, hlines₂.trans hresult,
    hcursor₂⟩

theorem pressAll_doubleLine (ht : d.buffer.text ≠ []) :
    ∃ d₁ d' : Desk, d.pressAll KeyPress.yyp = .ok d' ∧ d₁.buffer = d.buffer ∧ d₁.Edited d' ∧
      d'.buffer.text.lines = before ++ line :: line :: after ∧
      d'.buffer.cursor = .collapsed (d'.buffer.text.lineStart (before.length + 1 : Nat)) := by
  obtain ⟨-, hline, -⟩ := Text.newline_notMem_of_lines hlines
  obtain ⟨d₁, hcopy, hbuffer, hregister, hready⟩ := pressAll_copyLine h hlines hc ht
  rw [← hbuffer] at hlines hc
  obtain ⟨d₂, hpaste, hedited, hlines₂, hcursor₂⟩ :=
    pressAll_pasteLine hready hlines hc hregister hline
  exact ⟨d₁, d₂, (pressAll_append hcopy).trans hpaste, hbuffer, hedited, hlines₂, hcursor₂⟩

end

/-- **A line moved and a line copied.** In navigation with nothing pending and nothing selected,
`ddp` restores the text from the last full line on, if that is not the first one, and leaves the
cursor on the line; elsewhere it exchanges the line with the next one, and the cursor goes with it.
`yyp` puts a copy below the line and the cursor on the copy. `u` pressed once for each step, two of
`ddp` and one of `yyp`, gives the text back. -/
theorem line_moved_and_copied (d : Desk) (he : d.vi.enabled = true) (hr : d.vi.running = true)
    (hm : d.vi.mode = .navigation .idle) (ht : d.buffer.text ≠ [])
    (hs : d.buffer.cursor.hasSelection = false) :
    let t := d.buffer.text
    let i := t.lineAt d.buffer.cursor.position
    ∃ before line after, t.lines = before ++ line :: after ∧ before.length = i ∧
      (∃ d', d.pressAll KeyPress.ddp = .ok d' ∧
        (0 < i ∧ t.lastFullLine ≤ i →
          d'.buffer.text = t ∧ d'.buffer.cursor = .collapsed (t.lineStart i)) ∧
        (¬ (0 < i ∧ t.lastFullLine ≤ i) →
          d'.buffer.text.lines = Text.exchanged before line after ∧
          d'.buffer.cursor = .collapsed (d'.buffer.text.lineStart (i + 1 : Nat))) ∧
        (d.buffer.history.group = none → 2 ≤ d.buffer.history.limit → d.TakenBackBy d' 2)) ∧
      ∃ d', d.pressAll KeyPress.yyp = .ok d' ∧
        d'.buffer.text.lines = before ++ line :: line :: after ∧
        d'.buffer.cursor = .collapsed (d'.buffer.text.lineStart (i + 1 : Nat)) ∧
        (d.buffer.history.group = none → 2 ≤ d.buffer.history.limit → d.TakenBackBy d' 1) := by
  intro t i
  have h : d.vi.Ready := ⟨he, hr, hm⟩
  obtain ⟨before, line, after, hlines, hi⟩ := t.exists_lines d.buffer.cursor.position
  refine ⟨before, line, after, hlines, hi, ?_, ?_⟩
  · obtain ⟨d₁, d', hpress, hedited₁, hedited₂, hlines', hcursor⟩ :=
      pressAll_moveLine h hlines hi.symm hs ht
    rw [hi] at hlines' hcursor
    refine ⟨d', hpress, fun hback => ?_, fun hback => ?_, hedited₁.takenBackBy_two hedited₂⟩
    · rw [if_pos hback, ← hlines] at hlines'
      have htext : d'.buffer.text = t := Text.eq_of_lines_eq hlines'
      rw [if_pos hback, htext] at hcursor
      exact ⟨htext, hcursor⟩
    · rw [if_neg hback] at hlines' hcursor
      exact ⟨hlines', hcursor⟩
  · obtain ⟨d₁, d', hpress, hbuffer, hedited, hlines', hcursor⟩ :=
      pressAll_doubleLine h hlines hi.symm ht
    rw [hi] at hcursor
    exact ⟨d', hpress, hlines', hcursor, fun hg hl =>
      hedited.takenBackBy_one hbuffer hg (by omega)⟩

/-- The last of two lines, with two steps to keep: `ddp` gives the text back, `yyp` doubles it. -/
theorem last_line_moved_and_copied :
    let b : Buffer := { Buffer.ofText [97, 10, 98] 20 2 with cursor := ⟨3, 3⟩ }
    let d : Desk := { vi := .new true true true false 20, register := [], buffer := b }
    (d.vi.enabled = true ∧ d.vi.running = true ∧ d.vi.mode = .navigation .idle ∧
        d.buffer.text ≠ [] ∧ d.buffer.cursor.hasSelection = false) ∧
      (∃ d', d.pressAll KeyPress.ddp = .ok d' ∧ d'.buffer.text = [97, 10, 98] ∧
        d'.buffer.cursor = ⟨2, 2⟩ ∧ d.TakenBackBy d' 2) ∧
      ∃ d', d.pressAll KeyPress.yyp = .ok d' ∧
        d'.buffer.text.lines = [[97], [98], [98]] ∧ d.TakenBackBy d' 1 := by
  intro b d
  have ht : d.buffer.text ≠ [] := by decide
  have hplace : d.buffer.text.lineAt d.buffer.cursor.position = 1 := by decide
  obtain ⟨before, line, after, hlines, hi, ⟨d₁, hmove, hback, -, hundo₁⟩, d₂, hcopy, hlines₂, -,
    hundo₂⟩ := line_moved_and_copied d rfl rfl rfl ht rfl
  rw [hplace] at hi hback
  have hparts : [[97]] ++ [[98]] = before ++ line :: after := hlines
  obtain ⟨rfl, hrest⟩ := List.append_inj hparts hi.symm
  obtain ⟨rfl, rfl⟩ := List.cons.inj hrest
  obtain ⟨htext, hcursor⟩ := hback (by decide)
  exact ⟨⟨rfl, rfl, rfl, ht, rfl⟩, ⟨d₁, hmove, htext, hcursor, hundo₁ rfl (by decide)⟩,
    d₂, hcopy, hlines₂, hundo₂ rfl (by decide)⟩

/-- A stopped interpreter, though it is on and waits for nothing in navigation, waits for no second
key either: `ddp` and `yyp` leave the text alone. -/
theorem line_stays_if_stopped :
    let vi := (Interpreter.new true true true false 20).stop
    let d : Desk := { vi, register := [], buffer := .ofText [97, 10, 98] 20 100 }
    (d.vi.enabled = true ∧ d.vi.mode = .navigation .idle ∧ d.buffer.text ≠ [] ∧
        d.buffer.cursor.hasSelection = false) ∧
      (d.buffer.text.lines = [[97], [98]] ∧ d.buffer.text.lineAt d.buffer.cursor.position = 0) ∧
      ¬ (∃ d', d.pressAll KeyPress.ddp = .ok d' ∧
        d'.buffer.text.lines = Text.exchanged [] [97] [[98]]) ∧
      ¬ ∃ d', d.pressAll KeyPress.yyp = .ok d' ∧
        d'.buffer.text.lines = [[97], [97], [98]] := by
  intro vi d
  have hstill : ∀ keys ∈ [KeyPress.ddp, KeyPress.yyp], ∀ d', d.pressAll keys = .ok d' →
      d'.buffer.text.lines = [[97], [98]] := by
    intro keys hkeys d' hpress
    have hruns : ∀ keys ∈ [KeyPress.ddp, KeyPress.yyp],
        (d.pressAll keys).toOption.map (·.buffer.text.lines) = some [[97], [98]] := by decide
    have hrun := hruns keys hkeys
    rw [hpress] at hrun
    exact Option.some.inj hrun
  refine ⟨⟨rfl, rfl, by decide, rfl⟩, ⟨by decide, by decide⟩, ?_, ?_⟩
  · rintro ⟨d', hpress, hlines⟩
    rw [hstill _ (by simp) d' hpress] at hlines
    exact absurd hlines (by decide)
  · rintro ⟨d', hpress, hlines⟩
    rw [hstill _ (by simp) d' hpress] at hlines
    exact absurd hlines (by decide)

end Desk

end ModalEditor
