import Mathlib.Algebra.Ring.Nat
import ModalEditor.Proofs.Buffer.Operation
import ModalEditor.Proofs.Text.Neighbours

/-!
# The index of the lines

A buffer makes an index of its lines at the first question about them and keeps it for the next ones.
`Buffer.Indexes`: the index it answers from is that of its text. Every operation keeps it so
(`Buffer.Indexes.step`), because the only way to another text, `Buffer.setText`, drops the index; so
does every question. Hence, whatever was done and asked before, the answers are those of the list of
the lines: `Buffer.serve_lines`. For the same reason a plan may ask the text, which keeps no index.
-/

namespace ModalEditor

namespace Text

/-! ## A line and its offsets -/

theorem length_ended (ls : List Text) : (ended ls).length = (ls.map (·.length + 1)).sum := by
  simp [ended, List.length_flatMap]

theorem getElem?_nearestLine (t : Text) (line : Int) :
    t.lines[t.nearestLine line]? = some (t.lineText line) := by
  have hlt : t.nearestLine line < t.lines.length := by
    rw [← lineCount_eq_length_lines]
    exact t.nearestLine_lt line
  have hline := List.getElem?_eq_getElem hlt
  rw [← lineText_nearestLine, lineText_eq hline, hline]

theorem lineStart_eq_sum (t : Text) (line : Int) :
    t.lineStart line = (((t.lines.take (t.nearestLine line)).map (·.length + 1)).sum : Nat) := by
  rw [← lineStart_nearestLine, lineStart_eq (t.nearestLine_lt line), length_ended]

end Text

namespace Buffer

variable {b : Buffer}

/-! ## The index that is kept -/

/-- The buffer answers from the index of its text. -/
def Indexes (b : Buffer) : Prop := b.index = b.text.lineStarts

theorem indexes_of_starts_eq_none (h : b.starts = none) : b.Indexes := by
  unfold Indexes index
  rw [h]
  rfl

theorem Indexes.keepIndex (h : b.Indexes) : b.keepIndex.Indexes := h

theorem Indexes.undo (h : b.Indexes) : b.undo.1.Indexes := by
  unfold Buffer.undo
  split
  · exact h
  · rename_i action history _
    exact Action.revert_keeps (P := Indexes) (fun _ _ _ => indexes_of_starts_eq_none rfl) action h

theorem Indexes.redo (h : b.Indexes) : b.redo.1.Indexes := by
  unfold Buffer.redo
  split
  · exact h
  · rename_i action history _
    exact Action.perform_keeps (P := Indexes) (fun _ _ _ => indexes_of_starts_eq_none rfl) action h

/-- **No operation leaves an index behind** that is not that of the text. -/
theorem Indexes.step (h : b.Indexes) (op : Op) : (b.step op).Indexes := by
  cases op with
  | replace start stop inserted =>
    rw [Buffer.step, replaceDecimal_eq]
    split
    · exact h
    · split
      · exact h
      · exact indexes_of_starts_eq_none rfl
  | setCursor c =>
    rw [Buffer.step, setCursor]
    split <;> exact h
  | endGroup =>
    rw [Buffer.step, endGroup]
    split
    · exact h
    · rename_i history pushed _
      cases pushed <;> exact h
  | undo => exact h.undo
  | redo => exact h.redo
  | load t => exact indexes_of_starts_eq_none rfl
  | beginGroup | markSaved | setPageLines | subscribe | unsubscribe => exact h

/-! ## Operations and questions -/

/-- What a buffer's owner may do: call for an operation, or ask about lines. -/
inductive Request where
  | op (op : Op)
  | lineCount
  | lineAt (o : Int)
  | lineStart (line : Int)
  | lineText (line : Int)

/-- The buffer after a request. -/
def answer (b : Buffer) : Request → Buffer
  | .op op => b.step op
  | .lineCount => b.lineCount.1
  | .lineAt o => (b.lineAt o).1
  | .lineStart line => (b.lineStart line).1
  | .lineText line => (b.lineText line).1

def serve (b : Buffer) (rs : List Request) : Buffer := rs.foldl answer b

theorem Indexes.answer (h : b.Indexes) (r : Request) : (b.answer r).Indexes := by
  cases r with
  | op op => exact h.step op
  | _ => exact h.keepIndex

theorem Indexes.serve (h : b.Indexes) (rs : List Request) : (b.serve rs).Indexes := by
  induction rs generalizing b with
  | nil => exact h
  | cons r rs ih => exact ih (h.answer r)

/-- From the index of the text come the answers of the text. -/
theorem Indexes.answers (h : b.Indexes) : b.lineCount.2 = b.text.lineCount ∧
    (∀ o, (b.lineAt o).2 = b.text.lineAt o) ∧
    (∀ line, (b.lineStart line).2 = b.text.lineStart line) ∧
    ∀ line, (b.lineText line).2 = b.text.lineText line := by
  unfold Buffer.lineCount Buffer.lineAt Buffer.lineStart Buffer.lineText
  rw [show b.index = b.text.lineStarts from h]
  exact ⟨rfl, fun _ => rfl, fun _ => rfl, fun _ => rfl⟩

/-- **The index is that of the lines.** After any operations and questions, with the lines the text
cut at its line feeds: they are counted; the answers for a line, or for the nearest one if there is
no such line, are its text and the sum of the lengths of the lines before it, each with its line
feed; and the line of an offset has as many lines before it as there are line feeds before the
offset, or before the nearest one in the text, which lies between the ends of the line. -/
theorem serve_lines (text : Text) (pageLines limit : Int) (rs : List Request) :
    let b := (ofText text pageLines limit).serve rs
    let lines := b.text.lines
    (Text.ofLines lines = b.text ∧ newline ∉ lines.flatten) ∧
      b.lineCount.2 = lines.length ∧
      (∀ line : Int,
        let i := (max 0 (min line ((lines.length : Int) - 1))).toNat
        lines[i]? = some (b.lineText line).2 ∧
          (b.lineStart line).2 = (((lines.take i).map (·.length + 1)).sum : Nat)) ∧
      ∀ o : Int,
        let c := max 0 (min o (b.text.length : Int))
        let line := (b.lineAt o).2
        line = (b.text.take c.toNat).count newline ∧
          (b.lineStart line).2 ≤ c ∧ c ≤ (b.lineStart line).2 + (b.lineText line).2.length := by
  intro b lines
  have h : b.Indexes := (indexes_of_starts_eq_none rfl).serve rs
  obtain ⟨hcount, hat, hstart, htext⟩ := h.answers
  have hlength : b.text.lineCount = lines.length := b.text.lineCount_eq_length_lines
  refine ⟨⟨b.text.ofLines_lines, fun hmem => ?_⟩, hcount.trans hlength, fun line => ?_, fun o => ?_⟩
  · obtain ⟨line, hline, hnewline⟩ := List.mem_flatten.1 hmem
    exact Text.newline_notMem_lines hline hnewline
  · intro i
    have hi : b.text.nearestLine line = i := by
      unfold Text.nearestLine Text.nearestOf
      rw [hlength]
    rw [htext, hstart, ← hi]
    exact ⟨b.text.getElem?_nearestLine line, b.text.lineStart_eq_sum line⟩
  · intro c line
    have hline : line = b.text.lineAt o := hat o
    rw [hstart, htext, hline]
    exact ⟨b.text.lineAt_eq_count o, b.text.clamp_mem_line o⟩

end Buffer

end ModalEditor
