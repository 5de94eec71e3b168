import ModalEditor.Proofs.Buffer.LineEdits
import ModalEditor.Proofs.Buffer.LineIndex

/-!
# A line break that keeps the indentation

`Plan.breakLine` puts a line feed and the indentation of the line where the selection begins in place
of the selection and of the blanks behind it. These two may be on different lines, the break may fall
into the indentation itself, and the selection may reach over any number of lines.
`Buffer.line_broken` says what the text is then, and that the new line begins with just that
indentation: what is put before the rest of the line (`Text.exists_past_blanks`) is followed by
something else than a blank (`Text.indent_append`).
-/

namespace ModalEditor

namespace Text

/-! ## Blanks -/

/-- The blanks behind an offset on its line, and what comes after them. -/
theorem exists_past_blanks (t : Text) (o : Int) :
    let here := t.clamp o
    let last := t.lineEnd (t.lineAt here)
    ∃ rest, t.drop here.toNat = (t.slice here last).indent ++ rest ∧
      rest.head?.all (!CodeUnit.isIndent ·) ∧ here + (t.slice here last).indent.length ≤ last := by
  intro here last
  have hhere := t.clamp_nonneg o
  have hend := (t.clamp_mem_line here).2
  rw [clamp_of_mem hhere (t.clamp_le o)] at hend
  have hlast : last ≤ t.length := t.lineEnd_le_length _
  have hslice : t.slice here last = (t.take last.toNat).drop here.toNat :=
    slice_of_mem hhere (t.clamp_le o) (by omega) hlast
  have hlength : (t.slice here last).length = last.toNat - here.toNat := by
    rw [hslice, List.length_drop, List.length_take]
    omega
  -- up to the end of the line, and from there on
  have hsplit : t.drop here.toNat = t.slice here last ++ t.drop last.toNat := by
    have hparts := congrArg (List.drop here.toNat) (List.take_append_drop last.toNat t)
    rw [List.drop_append_of_le_length (by rw [List.length_take]; omega), ← hslice] at hparts
    exact hparts.symm
  let more := (t.slice here last).dropWhile CodeUnit.isIndent
  have hmore : (t.slice here last).indent ++ more = t.slice here last :=
    List.takeWhile_append_dropWhile
  refine ⟨more ++ t.drop last.toNat, by rw [hsplit, ← List.append_assoc, hmore], ?_, ?_⟩
  · cases hm : more with
    | cons u more' =>
      have hu : ¬ CodeUnit.isIndent u = true := by
        have hnot := List.head?_dropWhile_not CodeUnit.isIndent (t.slice here last)
        rw [show (t.slice here last).dropWhile CodeUnit.isIndent = u :: more' from hm] at hnot
        simpa using hnot
      simpa using hu
    | nil =>
      -- behind the line there is its line feed, or nothing
      obtain ⟨before, after, ht, hs, -, hafter, -⟩ := t.exists_line (t.lineAt here)
      have hrest : t.drop last.toNat = after := by
        have hlen : last.toNat = (before ++ t.lineText (t.lineAt here)).length := by
          rw [List.length_append]
          show (t.lineStart (t.lineAt here) + (t.lineText (t.lineAt here)).length).toNat = _
          omega
        calc t.drop last.toNat
            = (before ++ t.lineText (t.lineAt here) ++ after).drop last.toNat := by rw [← ht]
          _ = after := by rw [hlen, List.drop_left]
      rw [List.nil_append, hrest]
      rcases hafter with ⟨-, rfl⟩ | ⟨-, s, rfl⟩
      · rfl
      · rfl
  · have := indent_length_le (t.slice here last)
    omega

theorem indent_append {blanks rest : Text} (hb : ∀ u ∈ blanks, CodeUnit.isIndent u = true)
    (hr : rest.head?.all (!CodeUnit.isIndent ·)) : (blanks ++ rest).indent = blanks := by
  have hnone : rest.takeWhile CodeUnit.isIndent = [] := by
    cases rest with
    | nil => rfl
    | cons u rest => exact List.takeWhile_cons_of_neg (by simpa using hr)
  unfold indent
  rw [List.takeWhile_append_of_pos hb, hnone, List.append_nil]

theorem isIndent_of_mem_indent {line : Text} {u : CodeUnit} (h : u ∈ line.indent) :
    CodeUnit.isIndent u = true :=
  List.all_eq_true.1 List.all_takeWhile u h

theorem indent_of_lines {t first : Text} {more : List Text} (h : t.lines = first :: more) :
    first.indent = t.indent := by
  induction t generalizing first more with
  | nil =>
    cases h
    rfl
  | cons u t ih =>
    unfold lines at h
    split at h
    · rename_i hu
      cases h
      rw [hu]
      rfl
    · cases hl : lines t with
      | nil => exact absurd hl (lines_ne_nil t)
      | cons line rest =>
        rw [hl] at h
        cases h
        have hline : line.takeWhile CodeUnit.isIndent = t.takeWhile CodeUnit.isIndent := ih hl
        unfold indent
        rw [List.takeWhile_cons, List.takeWhile_cons, hline]

/-! ## The line after a break -/

theorem line_after_break (u v : Text) :
    let t := u ++ newline :: v
    t.lineStart (u.count newline + 1 : Nat) = u.length + 1 ∧
      (t.lineText (u.count newline + 1 : Nat)).indent = v.indent := by
  intro t
  obtain ⟨first, more, hv⟩ := List.exists_cons_of_ne_nil v.lines_ne_nil
  have hlines : t.lines = u.lines ++ first :: more := by
    rw [← hv]
    exact lines_append_newline u v
  rw [← length_lines, lineStart_of_lines hlines, lineText_of_lines hlines, ended_lines,
    indent_of_lines hv, List.length_append, List.length_singleton]
  exact ⟨rfl, rfl⟩

end Text

/-! ## The break -/

/-- The selection and the blanks behind it give way to a line feed and the indentation. -/
theorem Plan.breakLine_parts (t : Text) (c : Cursor) :
    let start := t.clamp c.first
    let stop := t.clamp c.last
    ∃ u v blanks rest e, t = u ++ v ++ blanks ++ rest ∧ u.length = start ∧
      (u ++ v).length = stop ∧ (∀ x ∈ blanks, CodeUnit.isIndent x = true) ∧
      stop + blanks.length ≤ t.lineEnd (t.lineAt stop) ∧
      rest.head?.all (!CodeUnit.isIndent ·) ∧ (breakLine t c).edit = some e ∧
      e.inserted ≠ [] ∧ e.result t = u ++ newline :: (indentAt t start ++ rest) := by
  intro start stop
  obtain ⟨u, v, w, ht, hu, huv, -⟩ := c.exists_selection t
  obtain ⟨rest, hdrop, hrest, hend⟩ := t.exists_past_blanks c.last
  let blanks := (t.slice stop (t.lineEnd (t.lineAt stop))).indent
  have hw : w = blanks ++ rest := by
    rw [← hdrop, ← huv, ht, Int.toNat_natCast, List.drop_left]
  rw [hw, ← List.append_assoc] at ht
  refine ⟨u, v, blanks, rest, _, ht, hu, huv, fun x => Text.isIndent_of_mem_indent, hend,
    hrest, rfl, List.cons_ne_nil _ _, ?_⟩
  refine (Edit.result_of_eq (v := v ++ blanks) (w := rest) ?_ hu.symm ?_).trans ?_
  · rw [ht]
    simp
  · rw [← List.append_assoc, List.length_append, Int.natCast_add, huv]
  · exact List.append_assoc u _ rest

namespace Buffer

/-- **A line break keeps the indentation.** With a selection from `start` to `stop`, in either
direction and over any lines, and the indentation of the line where it begins: the line feed and the
indentation stand in place of the selection and of all the blanks behind it on the line where it
ends. So the line behind the break has just that indentation, with the cursor at its end, and of
what was not selected nothing but blanks is gone. It is one action, and outside of every group one
step that undo takes back. -/
theorem line_broken (b : Buffer) (c : Cursor) :
    let t := b.text
    let start := t.clamp c.first
    let stop := t.clamp c.last
    let indent := (t.lineText (t.lineAt start)).indent
    let next := t.lineAt start + 1
    let ink : CodeUnit → Bool := fun x => !x.isIndent
    ∃ (u v blanks rest : Text) (b' : Buffer), b.follow (.breakLine t c) = .ok b' ∧
      (t = u ++ v ++ blanks ++ rest ∧ u.length = start ∧ (u ++ v).length = stop) ∧
      (blanks.all CodeUnit.isIndent ∧ stop + blanks.length ≤ t.lineEnd (t.lineAt stop) ∧
        rest.head?.all ink) ∧
      b'.text = u ++ newline :: (indent ++ rest) ∧
      (b'.text.lineStart next = start + 1 ∧ (b'.text.lineText next).indent = indent) ∧
      b'.text.filter ink = u.filter ink ++ newline :: (blanks ++ rest).filter ink ∧
      (Plan.breakLine t c).cursor = .collapsed (start + 1 + indent.length) ∧
      b'.cursor = (Plan.breakLine t c).cursor ∧
      (∃ a, b'.history = b.history.record a ∧ a.Leads t b'.text) ∧
      (b.history.group = none → 1 ≤ b.history.limit → b.OneStep b') := by
  intro t start stop indent next ink
  obtain ⟨u, v, blanks, rest, e, ht, hu, huv, hblanks, hend, hrest, he, hne, hresult⟩ :=
    Plan.breakLine_parts t c
  have hu : (u.length : Int) = start := hu
  have hfits : e.Fits t := Plan.breakLine_fits t c e he
  obtain ⟨b', a, hb, htext, hh, ha, hp, hcursor⟩ :=
    follow_records he hfits fun hempty => hne hempty.2
  have hnew : b'.text = u ++ newline :: (indent ++ rest) := htext.trans hresult
  have hindent : ∀ x ∈ indent, x.isIndent = true := fun x => Text.isIndent_of_mem_indent
  -- before the selection there are as many line feeds as lines before its line
  have hnext : next = u.count newline + 1 := by
    rw [List.append_assoc, List.append_assoc] at ht
    rw [← Text.lineAt_append u (v ++ (blanks ++ rest)), ← ht, hu]
  refine ⟨u, v, blanks, rest, b', hb, ⟨ht, hu, huv⟩,
    ⟨List.all_eq_true.2 hblanks, hend, hrest⟩, hnew, ?_, ?_, rfl, ?_, ⟨a, hh, ha⟩, fun hg hl => ?_⟩
  · obtain ⟨hbegin, hline⟩ := Text.line_after_break u (indent ++ rest)
    rw [← hnew, ← hnext] at hbegin hline
    exact ⟨by rw [hbegin, hu], by rw [hline, Text.indent_append hindent hrest]⟩
  · have hnone : ∀ {w : Text}, (∀ x ∈ w, x.isIndent = true) → w.filter ink = [] := fun hw =>
      List.filter_eq_nil_iff.2 fun x hx => by simp [ink, hw x hx]
    rw [hnew, List.filter_append, List.filter_cons_of_pos rfl, List.filter_append, hnone hindent,
      List.filter_append, hnone hblanks]
  · have hlength := congrArg List.length hnew
    simp only [List.length_append, List.length_cons] at hlength
    have hinside : 0 ≤ start + 1 + indent.length ∧ start + 1 + indent.length ≤ b'.text.length := by
      omega
    rw [hcursor]
    exact Cursor.clampTo_of_inside ⟨hinside, hinside⟩
  · rw [History.record_of_none hg] at hh
    exact oneStep_of_push hl hh ha hp hfits htext

/-- A backward selection from the indentation of one line into the next one, with one step to keep. -/
theorem line_broken_in_indentation :
    let b := ofText [9, 32, 97, 10, 32, 98, 32, 9, 99] 20 1
    let c : Cursor := ⟨1, 6⟩
    (b.history.group = none ∧ 1 ≤ b.history.limit) ∧
      ∃ b', b.follow (.breakLine b.text c) = .ok b' ∧ b'.text = [9, 10, 9, 32, 99] ∧
        (b'.text.lineText 1).indent = [9, 32] ∧ b'.cursor = .collapsed 4 ∧ b.OneStep b' := by
  intro b c
  have hg : b.history.group = none := rfl
  have hl : 1 ≤ b.history.limit := by decide
  have hmade : (b.follow (.breakLine b.text c)).toOption.map text = some [9, 10, 9, 32, 99] := by
    decide
  have hplace : b.text.lineAt (b.text.clamp c.first) = 0 := by decide
  have hindent : (b.text.lineText 0).indent = [9, 32] := by decide
  have hend : (Plan.breakLine b.text c).cursor = .collapsed 4 := by decide
  obtain ⟨-, -, -, -, b', hb, -, -, -, hline, -, -, hcursor, -, hstep⟩ := line_broken b c
  rw [hplace] at hline
  rw [hb] at hmade
  exact ⟨⟨hg, hl⟩, b', hb, Option.some.inj hmade, hline.2.trans hindent, hcursor.trans hend,
    hstep hg hl⟩

end Buffer

end ModalEditor
