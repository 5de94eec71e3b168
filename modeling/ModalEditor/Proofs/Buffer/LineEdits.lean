import ModalEditor.Proofs.Modal.UndoStep
import ModalEditor.Proofs.Text.Neighbours

/-!
# Line-wise edits and the list of lines

A line-wise plan is worked out in offsets, with a case of its own for the last line and for the
empty line after a final line feed. On the list of the lines it is one plain operation:
`Plan.cutLine` leaves a line out, `Plan.pasteBelow` puts lines in behind it, `Plan.openBelow` and
`Plan.openAbove` put in a line of blanks. `Buffer.line_edits` says so of every text and every
cursor, with the place of the cursor afterwards and the line that is kept for pasting, and that each
of them is one step that undo takes back.
-/

namespace ModalEditor

/-- The text without the line feed it ends in, if it does. -/
def Text.withoutFinalBreak (t : Text) : Text :=
  if t.getLast? = some newline then t.dropLast else t

theorem Text.withoutFinalBreak_concat (t : Text) : withoutFinalBreak (t ++ [newline]) = t := by
  simp [withoutFinalBreak]

/-- The lines without one line between the others; a text has a line in any case. -/
def Text.linesWithout (before after : List Text) : List Text :=
  if before ++ after = [] then [[]] else before ++ after

theorem Text.newline_notMem_indent (line : Text) : newline ∉ line.indent := by
  intro h
  have hindent : CodeUnit.isIndent newline = true := List.all_eq_true.1 List.all_takeWhile newline h
  exact absurd hindent (by decide)

theorem Edit.result_of_eq {e : Edit} {t u v w : Text} (ht : t = u ++ v ++ w)
    (hstart : e.start = u.length) (hstop : e.stop = (u ++ v).length) :
    e.result t = u ++ e.inserted ++ w := by
  have hfits : e.Fits t := by
    refine ⟨by omega, ?_, ?_⟩
    · rw [hstart, hstop, List.length_append]
      omega
    · rw [hstop, ht]
      exact Int.ofNat_le.2 (List.prefix_append _ _).length_le
  have htake : t.take u.length = u := by rw [ht, List.append_assoc, List.take_left]
  have hdrop : t.drop (u ++ v).length = w := by rw [ht, List.drop_left]
  rw [hfits.result_eq, hstart, hstop, Int.toNat_natCast, Int.toNat_natCast, htake, hdrop]

namespace Plan

/-! ## Each plan on the list of lines -/

section
variable {t line : Text} {before after : List Text} (h : t.lines = before ++ line :: after)
include h

/-- **Lines put in behind a line.** -/
theorem insertBelow_of_lines {e : Edit} {body : Text} (hstart : e.start = t.lineEnd before.length)
    (hstop : e.stop = e.start) (hinserted : e.inserted = newline :: body) :
    (e.result t).lines = before ++ line :: (body.lines ++ after) ∧
      (e.result t).lineStart (before.length + 1 : Nat) = e.start + 1 := by
  obtain ⟨hbefore, hline, hafter⟩ := Text.newline_notMem_of_lines h
  have ht : t = (Text.ended before ++ line) ++ [] ++ Text.led after := by
    simpa using Text.eq_of_lines h
  have hend := Text.lineEnd_of_lines h
  have hresult := e.result_of_eq ht (hstart.trans hend)
    (by rw [hstop, hstart, hend, List.append_nil])
  have hlines : (e.result t).lines = before ++ line :: (body.lines ++ after) := by
    have hparts : e.result t =
        Text.ended before ++ ((line ++ newline :: body) ++ Text.led after) := by
      rw [hresult, hinserted]
      simp
    rw [hparts, Text.lines_ended_append hbefore, Text.lines_append_led hafter,
      Text.lines_append_newline, Text.lines_of_notMem hline]
    rfl
  refine ⟨hlines, ?_⟩
  -- the first of the lines put in begins behind the line feed that was put in
  obtain ⟨first, rest, hbody⟩ := List.exists_cons_of_ne_nil body.lines_ne_nil
  rw [hbody] at hlines
  have hnext := Text.lineStart_of_lines (hlines.trans (List.append_cons before line _))
  rw [List.length_append, List.length_singleton] at hnext
  rw [hnext, Text.ended_concat, List.length_append, hstart, hend]
  simp

theorem lineEnd_insertBelow {e : Edit} {body : Text} (hbody : newline ∉ body)
    (hstart : e.start = t.lineEnd before.length) (hstop : e.stop = e.start)
    (hinserted : e.inserted = newline :: body) :
    (e.result t).lineEnd (before.length + 1 : Nat) = e.start + 1 + body.length := by
  obtain ⟨hlines, hbegin⟩ := insertBelow_of_lines h hstart hstop hinserted
  rw [Text.lines_of_notMem hbody] at hlines
  have htext := Text.lineText_of_lines (hlines.trans (List.append_cons before line _))
  rw [List.length_append, List.length_singleton] at htext
  rw [Text.lineEnd, hbegin, htext]

/-- **A line put in before a line.** -/
theorem insertAbove_of_lines {e : Edit} {body : Text} (hbody : newline ∉ body)
    (hstart : e.start = t.lineStart before.length) (hstop : e.stop = e.start)
    (hinserted : e.inserted = body ++ [newline]) :
    (e.result t).lines = before ++ body :: line :: after := by
  obtain ⟨hbefore, hline, hafter⟩ := Text.newline_notMem_of_lines h
  have ht : t = Text.ended before ++ [] ++ (line ++ Text.led after) := by
    simpa using Text.eq_of_lines h
  have hbegin := Text.lineStart_of_lines h
  have hresult := e.result_of_eq ht (hstart.trans hbegin)
    (by rw [hstop, hstart, hbegin, List.append_nil])
  have hparts : e.result t =
      Text.ended before ++ ((body ++ newline :: line) ++ Text.led after) := by
    rw [hresult, hinserted]
    simp
  rw [hparts, Text.lines_ended_append hbefore, Text.lines_append_led hafter,
    Text.lines_append_newline, Text.lines_of_notMem hbody, Text.lines_of_notMem hline]
  rfl

/-- **A line taken out with the separator before it.** -/
theorem cutBack_of_lines {e : Edit} (hpos : 0 < before.length)
    (hstart : e.start = t.lineStart before.length - 1) (hstop : e.stop = t.lineEnd before.length)
    (hinserted : e.inserted = []) :
    (e.result t).lines = before ++ after ∧ (e.result t).lineAt e.start = before.length - 1 := by
  obtain ⟨init, previous, rfl⟩ : ∃ init previous, before = init ++ [previous] :=
    ⟨_, _, (List.dropLast_concat_getLast (List.ne_nil_of_length_pos hpos)).symm⟩
  obtain ⟨hbefore, -, hafter⟩ := Text.newline_notMem_of_lines h
  obtain ⟨hinit, hprevious⟩ := List.forall_mem_append.1 hbefore
  have hprevious : newline ∉ previous := hprevious previous (List.mem_singleton_self _)
  have ht : t = (Text.ended init ++ previous) ++ (newline :: line) ++ Text.led after := by
    have := Text.eq_of_lines h
    simpa [Text.ended_concat] using this
  rw [Text.lineStart_of_lines h, Text.ended_concat, List.length_append,
    List.length_singleton] at hstart
  rw [Text.lineEnd_of_lines h, Text.ended_concat] at hstop
  have hresult := e.result_of_eq ht (by omega) (by simpa using hstop)
  have hlines : (e.result t).lines = init ++ previous :: after := by
    rw [hresult, hinserted, List.append_nil, List.append_assoc, Text.lines_ended_append hinit,
      Text.lines_append_led hafter, Text.lines_of_notMem hprevious]
    rfl
  refine ⟨by simpa using hlines, ?_⟩
  have hend : (e.result t).lineEnd init.length = e.start := by
    rw [Text.lineEnd_of_lines hlines]
    omega
  have hplace := Text.lineAt_of_lines hlines (o := e.start)
    (hend ▸ Text.lineStart_le_lineEnd _ _) (Int.le_of_eq hend.symm)
  simpa using hplace

/-- **A line taken out with the separator after it**, if there is one. -/
theorem cutAhead_of_lines {e : Edit} (hlast : after = [] → before = [])
    (hstart : e.start = t.lineStart before.length)
    (hstop : e.stop = min (t.lineEnd before.length + 1) t.length) (hinserted : e.inserted = []) :
    (e.result t).lines = Text.linesWithout before after ∧
      (e.result t).lineAt e.start = before.length := by
  obtain ⟨hbefore, -, hafter⟩ := Text.newline_notMem_of_lines h
  have ht := Text.eq_of_lines h
  rw [Text.lineStart_of_lines h] at hstart
  rw [Text.lineEnd_of_lines h] at hstop
  cases after with
  | nil =>
    obtain rfl := hlast rfl
    have hempty : e.result t = [] := by
      have hwhole : t = [] ++ t ++ [] := by simp
      rw [e.result_of_eq hwhole hstart ?_, hinserted]
      · rfl
      · have hline : t = line := by simpa [Text.ended, Text.led] using ht
        rw [hstop, hline]
        simp only [Text.ended, List.flatMap_nil, List.nil_append]
        omega
    rw [hempty, hstart]
    exact ⟨rfl, rfl⟩
  | cons next rest =>
    obtain ⟨hnext, hrest⟩ := List.forall_mem_cons.1 hafter
    have ht' : t = Text.ended before ++ (line ++ [newline]) ++ (next ++ Text.led rest) := by
      rw [ht, Text.led_cons]
      simp
    have hlength := congrArg List.length ht'
    simp only [List.length_append, List.length_singleton] at hlength hstop
    have hresult := e.result_of_eq ht' hstart
      (by simp only [List.length_append, List.length_singleton]; omega)
    have hlines : (e.result t).lines = before ++ next :: rest := by
      rw [hresult, hinserted, List.append_nil, Text.lines_ended_append hbefore,
        Text.lines_append_led hrest, Text.lines_of_notMem hnext]
      rfl
    have hbegin : (e.result t).lineStart before.length = e.start := by
      rw [Text.lineStart_of_lines hlines, hstart]
    refine ⟨by simpa [Text.linesWithout] using hlines, ?_⟩
    exact Text.lineAt_of_lines hlines (Int.le_of_eq hbegin)
      (hbegin ▸ Text.lineStart_le_lineEnd _ _)

/-! ### The plans -/

variable {c : Cursor} (hc : t.lineAt c.position = before.length)
include hc

theorem copyLine_of_lines : copyLine t c = if t = [] then [] else line ++ [newline] := by
  unfold copyLine wholeLine
  rw [hc, Text.lineText_of_lines h]

/-- From the last full line on, the separator before the line goes, elsewhere the one after it. -/
theorem cutLine_eq (ht : t ≠ []) : ∃ e : Edit, cutLine t c =
      { edit := some e
        cursor := .collapsed ((e.result t).lineStart ((e.result t).lineAt e.start))
        removed := line ++ [newline] } ∧ e.inserted = [] ∧
    (t.lastFullLine ≤ before.length ∧ 0 < before.length ∧
        e.start = t.lineStart before.length - 1 ∧ e.stop = t.lineEnd before.length ∨
      (before.length = 0 ∨ before.length < t.lastFullLine) ∧
        e.start = t.lineStart before.length ∧
        e.stop = min (t.lineEnd before.length + 1) t.length) := by
  unfold cutLine wholeLine
  dsimp only
  rw [if_neg ht, hc, Text.lineText_of_lines h]
  refine ⟨_, rfl, rfl, ?_⟩
  by_cases hend : t.lastFullLine ≤ before.length ∧ 0 < before.length
  · left
    simp [hend]
  · right
    simp only [hend, decide_false, Bool.false_eq_true, if_false, and_true]
    omega

/-- The cursor's line taken out. The cursor goes to the line that is now in its place, but from the
last full line to the one before. -/
theorem cutLine_of_lines (ht : t ≠ []) : ∃ e, (cutLine t c).edit = some e ∧
    (e.result t).lines = Text.linesWithout before after ∧
    (cutLine t c).removed = line ++ [newline] ∧
    (cutLine t c).cursor = .collapsed ((e.result t).lineStart
      (if before.length = 0 ∨ before.length < t.lastFullLine then before.length
        else before.length - 1 : Nat)) := by
  have hlast := Text.lastFullLine_le_iff h
  obtain ⟨e, hcut, hinserted, hcases⟩ := cutLine_eq h hc ht
  rw [hcut]
  refine ⟨e, rfl, ?_⟩
  rcases hcases with ⟨hend, hpos, hstart, hstop⟩ | ⟨hend, hstart, hstop⟩
  · obtain ⟨hlines, hplace⟩ := cutBack_of_lines h hpos hstart hstop hinserted
    have hne : before ++ after ≠ [] := by simp [List.ne_nil_of_length_pos hpos]
    rw [hlines, hplace, Text.linesWithout, if_neg hne, if_neg (by omega)]
    exact ⟨rfl, rfl, rfl⟩
  · have hfirst : after = [] → before = [] := fun hafter => by
      have := hlast.2 (.inl hafter)
      exact List.length_eq_zero_iff.1 (by omega)
    obtain ⟨hlines, hplace⟩ := cutAhead_of_lines h hfirst hstart hstop hinserted
    rw [hlines, hplace, if_pos hend]
    exact ⟨rfl, rfl, rfl⟩

theorem pasteBelow_of_lines {pasted : Text} (hp : pasted ≠ []) :
    ∃ e, (pasteBelow t c pasted).edit = some e ∧
      (e.result t).lines = before ++ line :: (pasted.withoutFinalBreak.lines ++ after) ∧
      (pasteBelow t c pasted).cursor =
        .collapsed ((e.result t).lineStart (before.length + 1 : Nat)) := by
  unfold pasteBelow
  rw [if_neg hp, hc]
  let e : Edit := ⟨Text.ofString "Paste line", t.lineEnd before.length, t.lineEnd before.length,
    newline :: pasted.withoutFinalBreak⟩
  obtain ⟨hlines, hstart⟩ := insertBelow_of_lines h (e := e) rfl rfl rfl
  exact ⟨e, rfl, hlines, congrArg Cursor.collapsed hstart.symm⟩

theorem indentAt_of_lines : indentAt t c.position = line.indent := by
  unfold indentAt
  rw [hc, Text.lineText_of_lines h]

theorem openBelow_of_lines (ht : t ≠ []) : ∃ e, (openBelow t c).edit = some e ∧
    (e.result t).lines = before ++ line :: line.indent :: after ∧
    (openBelow t c).cursor = .collapsed ((e.result t).lineEnd (before.length + 1 : Nat)) := by
  unfold openBelow
  rw [if_neg ht, indentAt_of_lines h hc, hc]
  let e : Edit := ⟨Text.ofString "Open line below", t.lineEnd before.length,
    t.lineEnd before.length, newline :: line.indent⟩
  have hindent := line.newline_notMem_indent
  obtain ⟨hlines, -⟩ := insertBelow_of_lines h (e := e) rfl rfl rfl
  rw [Text.lines_of_notMem hindent] at hlines
  have hend := lineEnd_insertBelow h (e := e) hindent rfl rfl rfl
  exact ⟨e, rfl, hlines, congrArg Cursor.collapsed hend.symm⟩

theorem openAbove_of_lines : ∃ e, (openAbove t c).edit = some e ∧
    (e.result t).lines = before ++ line.indent :: line :: after ∧
    (openAbove t c).cursor = .collapsed ((e.result t).lineEnd before.length) := by
  unfold openAbove
  rw [indentAt_of_lines h hc, hc]
  let e : Edit := ⟨Text.ofString "Open line above", t.lineStart before.length,
    t.lineStart before.length, line.indent ++ [newline]⟩
  have hlines := insertAbove_of_lines h (e := e) line.newline_notMem_indent rfl rfl rfl
  refine ⟨e, rfl, hlines, ?_⟩
  rw [Text.lineEnd_of_lines hlines, Text.lineStart_of_lines h, List.length_append]
  rfl

end

end Plan

/-! ## The edits of a buffer -/

namespace Buffer

variable {b : Buffer}

/-- Carried out, the plan leaves the buffer with these lines and puts the cursor at a place of the
new text; outside of every group, and with a history of at least one step, that is one step. -/
def Edits (b : Buffer) (p : Plan) (lines : List Text) (place : Text → Int) : Prop :=
  ∃ b', b.carryOut p = .ok b' ∧ b'.text.lines = lines ∧ p.cursor = .collapsed (place b'.text) ∧
    (b.history.group = none → 1 ≤ b.history.limit → b.OneStep b')

theorem carryOut_of_edit {p : Plan} {e : Edit} (hp : p.edit = some e) (hf : p.Fits b.text)
    (hne : e.result b.text ≠ b.text) : ∃ b' a, b.carryOut p = .ok b' ∧
      b'.text = e.result b.text ∧ b'.history = b.history.record a ∧ a.Leads b.text b'.text ∧
      a.position? = some e.start :=
  carryOut_records hp (hf e hp) fun he => hne (result_of_empty (hf e hp) he)

theorem edits_of {p : Plan} {e : Edit} {lines : List Text} {place : Text → Int}
    (hp : p.edit = some e) (hf : p.Fits b.text) (hlines : (e.result b.text).lines = lines)
    (hne : lines ≠ b.text.lines) (hc : p.cursor = .collapsed (place (e.result b.text))) :
    b.Edits p lines place := by
  have hchanged : e.result b.text ≠ b.text := fun hsame => hne (by rw [← hlines, hsame])
  obtain ⟨b', a, hb, htext, hh, ha, hstart⟩ := carryOut_of_edit hp hf hchanged
  refine ⟨b', hb, by rw [htext, hlines], by rw [hc, htext], fun hg hl => ?_⟩
  rw [History.record_of_none hg] at hh
  exact oneStep_of_push hl hh ha hstart (hf e hp) htext

theorem linesWithout_ne {t line : Text} {before after : List Text}
    (h : t.lines = before ++ line :: after) (ht : t ≠ []) :
    Text.linesWithout before after ≠ t.lines := by
  unfold Text.linesWithout
  split
  · rename_i hnone
    obtain ⟨rfl, rfl⟩ := List.append_eq_nil_iff.1 hnone
    intro hsame
    have hempty := Text.ofLines_lines t
    rw [← hsame] at hempty
    exact ht hempty.symm
  · rw [h]
    exact ne_of_apply_ne List.length (by simp)

/-- **Line-wise edits are list operations.** At the line `line` between `before` and `after` that
holds the clamped position of the cursor: copying gives the line with a line feed, or nothing of the
empty text, and changes nothing; cutting leaves the line out and gives it with a line feed; pasting
puts in the lines of a text, less one final line feed, below it; opening puts in a line of its
blanks below or above it. Each edit puts the cursor as told, and is one step that undo takes back. -/
theorem line_edits (b : Buffer) (c : Cursor) :
    let t := b.text
    let i := t.lineAt (t.clamp c.position)
    ∃ before line after, t.lines = before ++ line :: after ∧ before.length = i ∧
      (Plan.copyLine t c = if t = [] then [] else line ++ [newline]) ∧
      (∀ d : Desk, d.buffer = b → d.yank.buffer = b) ∧
      (t ≠ [] → (Plan.cutLine t c).removed = line ++ [newline] ∧
        b.Edits (Plan.cutLine t c) (if before ++ after = [] then [[]] else before ++ after)
          fun t' => t'.lineStart (if i = 0 ∨ i < t.lastFullLine then i else i - 1 : Nat)) ∧
      (∀ pasted : Text, pasted ≠ [] → b.Edits (Plan.pasteBelow t c pasted)
        (before ++ line :: (pasted.withoutFinalBreak.lines ++ after))
          fun t' => t'.lineStart (i + 1 : Nat)) ∧
      (t ≠ [] → b.Edits (Plan.openBelow t c) (before ++ line :: line.indent :: after)
        fun t' => t'.lineEnd (i + 1 : Nat)) ∧
      b.Edits (Plan.openAbove t c) (before ++ line.indent :: line :: after)
        fun t' => t'.lineEnd i := by
  intro t i
  obtain ⟨before, line, after, h, hi⟩ := t.exists_lines (t.clamp c.position)
  have hc : t.lineAt c.position = before.length := by rw [hi, t.lineAt_clamp]
  refine ⟨before, line, after, h, hi, Plan.copyLine_of_lines h hc, fun d hd => hd, ?_, ?_, ?_, ?_⟩
  · intro ht
    obtain ⟨e, he, hlines, hremoved, hcursor⟩ := Plan.cutLine_of_lines h hc ht
    rw [hi] at hcursor
    exact ⟨hremoved, edits_of he (Plan.cutLine_fits t c) hlines (linesWithout_ne h ht) hcursor⟩
  · intro pasted hp
    obtain ⟨e, he, hlines, hcursor⟩ := Plan.pasteBelow_of_lines h hc hp
    have hmore := pasted.withoutFinalBreak.lines_ne_nil
    rw [hi] at hcursor
    refine edits_of he (Plan.pasteBelow_fits t c pasted) hlines ?_ hcursor
    exact ne_of_apply_ne List.length (by simp [t, h, hmore])
  · intro ht
    obtain ⟨e, he, hlines, hcursor⟩ := Plan.openBelow_of_lines h hc ht
    rw [hi] at hcursor
    refine edits_of he (Plan.openBelow_fits t c) hlines ?_ hcursor
    exact ne_of_apply_ne List.length (by simp [t, h])
  · obtain ⟨e, he, hlines, hcursor⟩ := Plan.openAbove_of_lines h hc
    rw [hi] at hcursor
    refine edits_of he (Plan.openAbove_fits t c) hlines ?_ hcursor
    exact ne_of_apply_ne List.length (by simp [t, h])

/-- The empty line after a final line feed, with the cursor behind the text and one step to keep. -/
theorem line_edits_after_final_break :
    let b := Buffer.ofText [97, 10, 32, 98, 10] 20 1
    let c := Cursor.collapsed 9
    let cut := Plan.cutLine b.text c
    let paste := Plan.pasteBelow b.text c [120, 10]
    (b.text ≠ [] ∧ ([120, 10] : Text) ≠ [] ∧ b.history.group = none ∧ 1 ≤ b.history.limit) ∧
      (∃ b', b.carryOut cut = .ok b' ∧ b'.text.lines = [[97], [32, 98]] ∧
        cut.cursor = .collapsed (b'.text.lineStart 1) ∧ b.OneStep b') ∧
      ∃ b', b.carryOut paste = .ok b' ∧ b'.text.lines = [[97], [32, 98], [], [120]] ∧
        paste.cursor = .collapsed (b'.text.lineStart 3) ∧ b.OneStep b' := by
  intro b c cut paste
  have ht : b.text ≠ [] := by decide
  have hp : ([120, 10] : Text) ≠ [] := by decide
  have hg : b.history.group = none := rfl
  have hl : 1 ≤ b.history.limit := by decide
  have hplace : b.text.lineAt (b.text.clamp c.position) = 2 := by decide
  obtain ⟨before, line, after, h, hi, -, -, hcut, hpaste, -⟩ := line_edits b c
  rw [hplace] at hi hcut hpaste
  have hlines : [[97], [32, 98]] ++ [[]] = before ++ line :: after := h
  obtain ⟨rfl, hrest⟩ := List.append_inj hlines hi.symm
  obtain ⟨rfl, rfl⟩ := List.cons.inj hrest
  obtain ⟨-, b₁, hb₁, hlines₁, hcursor₁, hstep₁⟩ := hcut ht
  obtain ⟨b₂, hb₂, hlines₂, hcursor₂, hstep₂⟩ := hpaste [120, 10] hp
  exact ⟨⟨ht, hp, hg, hl⟩, ⟨b₁, hb₁, hlines₁, hcursor₁, hstep₁ hg hl⟩,
    b₂, hb₂, hlines₂, hcursor₂, hstep₂ hg hl⟩

end Buffer

end ModalEditor
